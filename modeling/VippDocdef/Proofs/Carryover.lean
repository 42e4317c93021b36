import VippDocdef.Proofs.Nesting
import VippDocdef.Proofs.Outlines
import VippDocdef.Proofs.Surroundings

/-! What one part of a list carries over into the next. A walk keeps one cursor, font and color for
a whole section, so the first branch of a condition can change what the second one writes; it can do
so through these, the operands of `CACHE` and the point for boxes, and through nothing else. -/

set_option autoImplicit false

namespace VippDocdef.Docdef

/-- Two sections that what is written next cannot tell apart; `inside` an outline the point for
boxes and rules counts too. -/
structure Section.Agrees (inside : Bool) (s t : Section) : Prop where
  cursor : s.cursor = t.cursor
  font : s.font = t.font
  color : s.color = t.color
  cache : s.cache = t.cache
  anchored : inside = true → s.anchored = t.anchored

theorem Section.Agrees.of_eq {s t : Section} (h : s = t) (inside : Bool) : s.Agrees inside t := by
  subst h
  exact ⟨rfl, rfl, rfl, rfl, fun _ => rfl⟩

structure State.Alike (inside : Bool) (s t : State) : Prop where
  sec : s.sec.Agrees inside t.sec
  left : s.sec.outlineOpen = inside
  right : t.sec.outlineOpen = inside
  expanding : s.expanding = t.expanding

structure Emission.Alike (inside : Bool) (r r' : Emission) : Prop where
  block : r.block = r'.block
  state : r.state.Alike inside r'.state

abbrev State.elsewhere (s : State) (waiting requested warnings : List String) : State :=
  { s with waiting, requested, warnings }

theorem State.Alike.exists_elsewhere {s t : State} (h : s.Alike true t) :
    ∃ waiting requested warnings, t = s.elsewhere waiting requested warnings := by
  obtain ⟨⟨hcursor, hfont, hcolor, hcache, hanchored⟩, hleft, hright, hexpanding⟩ := h
  obtain ⟨⟨cursor, font, color, cache, isOpen, anchored⟩, waiting, requested, expanding,
      warnings⟩ := s
  obtain ⟨⟨_, _, _, _, _, _⟩, waiting', requested', _, warnings'⟩ := t
  refine ⟨waiting', requested', warnings', ?_⟩
  simp_all [State.elsewhere]

/-- Inside an outline, what is written and the section behind it depend neither on the formats that
wait nor on the warnings. -/
def Blind (f : State → Emission) : Prop :=
  ∀ s waiting requested warnings, s.sec.outlineOpen = true →
    (f (s.elsewhere waiting requested warnings)).block = (f s).block ∧
      (f (s.elsewhere waiting requested warnings)).state.sec = (f s).state.sec

theorem blind_printPlain (e : Env) (text : String) (align : Option Alignment) :
    Blind (·.printPlain e text align) := by
  intro s w r m hopen
  unfold State.printPlain
  split
  · exact ⟨rfl, rfl⟩
  · split <;> exact ⟨rfl, rfl⟩

theorem blind_printLiteral (e : Env) (text : String) (align : Option Alignment) :
    Blind (·.printLiteral e text align) := by
  intro s w r m hopen
  simp only [State.printLiteral]
  split
  · exact blind_printPlain e text align s w r m hopen
  · next font segment _ =>
    split
    · exact blind_printPlain e text align s w r m hopen
    · obtain ⟨hblock, hsec⟩ :=
        blind_printPlain e segment align (s.withFont (e.fontAlias font)) w r m
        hopen
      exact ⟨hblock, congrArg (fun sec : Section => { sec with font := s.sec.font }) hsec⟩
  · exact ⟨rfl, rfl⟩

theorem blind_emitText (e : Env) (o : TextOutput) : Blind (·.emitText e o) := by
  intro s w r m hopen
  unfold State.emitText
  split
  · exact ⟨rfl, rfl⟩
  · exact ⟨rfl, rfl⟩
  · exact ⟨rfl, rfl⟩
  · exact ⟨rfl, rfl⟩
  · exact blind_printLiteral e _ _ s w r m hopen

theorem blind_emitNewLine (amount : Option String) : Blind (·.emitNewLine amount) := by
  intro s w r m hopen
  unfold State.emitNewLine
  split
  · split <;> exact ⟨rfl, rfl⟩
  · exact ⟨rfl, rfl⟩

theorem blind_emitImage (c : ResourceCall) : Blind (·.emitImage c) := by
  intro s w r m hopen
  unfold State.emitImage
  split <;> exact ⟨rfl, rfl⟩

theorem blind_emitBox (e : Env) (args : List String) : Blind (·.emitBox e args) := by
  intro s w r m hopen
  unfold State.emitBox
  split <;> exact ⟨rfl, rfl⟩

theorem State.sec_request (s : State) (name : String) : (s.request name).sec = s.sec := by
  unfold request
  split <;> rfl

theorem State.enter?_elsewhere (s : State) (waiting requested warnings : List String)
    (name : String) :
    (s.elsewhere waiting requested warnings).enter? name
      = (s.enter? name).map (·.elsewhere waiting requested warnings) := by
  unfold enter?
  by_cases hname : s.expanding.contains name = true
  · rw [if_pos hname, if_pos hname]
    rfl
  · rw [if_neg hname, if_neg hname]
    rfl

theorem State.sec_of_enter? (s : State) {name : String} {inside : State}
    (h : s.enter? name = some inside) : inside.sec = s.sec := by
  unfold enter? at h
  split at h
  · cases h
  · cases h
    rfl

theorem blind_emitSubroutine (e : Env) {expand : Expansion} (hx : ∀ cs, Blind (expand cs))
    (name : String) : Blind (·.emitSubroutine e expand name) := by
  intro s w r m hopen
  unfold State.emitSubroutine
  split
  · exact ⟨rfl, rfl⟩
  · next body _ =>
    split
    · simp only [Emission.one, State.sec_request, and_self]
    · simp only [State.enter?_elsewhere]
      cases hname : s.enter? name with
      | none => exact ⟨rfl, rfl⟩
      | some inside =>
        obtain ⟨hblock, hsec⟩ := hx body inside w r m ((s.sec_of_enter? hname).symm ▸ hopen)
        exact ⟨congrArg (Block.statement _) hblock, hsec⟩

theorem blind_emitFile (e : Env) {expand : Expansion} (hx : ∀ cs, Blind (expand cs))
    (cache : List String) (file : String) : Blind (·.emitFile e expand cache file) := by
  intro s w r m hopen
  unfold State.emitFile
  split
  · exact blind_emitSubroutine e hx _ s w r m hopen
  · exact ⟨rfl, rfl⟩
  · exact ⟨rfl, rfl⟩
  · exact ⟨rfl, rfl⟩

theorem blind_emitSegment (e : Env) {expand : Expansion} (hx : ∀ cs, Blind (expand cs))
    (c : ResourceCall) : Blind (·.emitSegment e expand c) := by
  intro s w r m hopen
  simp only [State.emitSegment]
  by_cases hfile : segmentFile s.sec.cache c.name = ""
  · simp only [if_pos hfile]
    exact ⟨rfl, rfl⟩
  · simp only [if_neg hfile]
    obtain ⟨hblock, hsec⟩ := blind_emitFile e hx s.sec.cache (segmentFile s.sec.cache c.name)
      { s with sec := { s.sec with cache := [] } } w r m hopen
    exact ⟨hblock, congrArg (fun sec : Section => { sec with cursor := sec.cursor.release }) hsec⟩

theorem blind_emitAction (e : Env) {expand : Expansion} (hx : ∀ cs, Blind (expand cs)) {a : Action}
    (ha : a.isOutput = true) : Blind (·.emitAction e expand a) := by
  cases a with
  | text o => exact blind_emitText e o
  | newLine amount => exact blind_emitNewLine amount
  | box args => exact blind_emitBox e args
  | call c =>
    obtain ⟨kind, name, args⟩ := c
    cases kind with
    | segment => exact blind_emitSegment e hx ⟨.segment, name, args⟩
    | image => exact blind_emitImage ⟨.image, name, args⟩
  | generic name args =>
    intro s w r m hopen
    simp only [State.emitAction, State.emitGeneric]
    split <;> exact ⟨rfl, rfl⟩
  | _ => cases ha

namespace State.Alike

variable {inside : Bool} {s t : State}

theorem section_eq (h : s.Alike true t) : s.sec = t.sec := by
  obtain ⟨waiting, requested, warnings, rfl⟩ := h.exists_elsewhere
  rfl

theorem openOutline (h : s.Alike false t) : s.openOutline.Alike true t.openOutline :=
  ⟨⟨h.sec.cursor, h.sec.font, h.sec.color, h.sec.cache, fun _ => rfl⟩, rfl, rfl, h.expanding⟩

theorem closeOutline (h : s.Alike true t) : s.closeOutline.Alike false t.closeOutline :=
  ⟨⟨h.sec.cursor, h.sec.font, h.sec.color, h.sec.cache, nofun⟩, rfl, rfl, h.expanding⟩

end State.Alike

theorem State.exists_move_eq (x : String) (y : Option String) :
    ∃ f : Cursor → Cursor, ∀ s : State, s.move x y = s.withCursor f := by
  cases hx : Decimal.read? x with
  | none => exact ⟨id, fun s => by simp only [move, hx]; rfl⟩
  | some left =>
    cases y with
    | none => exact ⟨(·.moveHorizontal left), fun s => by simp only [move, hx]⟩
    | some y =>
      cases hy : Decimal.read? y with
      | none => exact ⟨id, fun s => by simp only [move, hx, hy]; rfl⟩
      | some top => exact ⟨(·.moveTo left top), fun s => by simp only [move, hx, hy]⟩

theorem agrees_emitAction (e : Env) {expand : Expansion} (hx : ∀ cs, Blind (expand cs)) {a : Action}
    {inside : Bool} {s t : State} (h : s.Alike inside t) (ha : a.isOutput = true → inside = true) :
    (s.emitAction e expand a).block = (t.emitAction e expand a).block ∧
      (s.emitAction e expand a).state.sec.Agrees inside (t.emitAction e expand a).state.sec := by
  by_cases hout : a.isOutput = true
  · obtain rfl := ha hout
    obtain ⟨waiting, requested, warnings, rfl⟩ := h.exists_elsewhere
    obtain ⟨hblock, hsec⟩ := blind_emitAction e hx hout s waiting requested warnings h.left
    exact ⟨hblock.symm, .of_eq hsec.symm true⟩
  · obtain ⟨hcursor, hfont, hcolor, hcache, hanchored⟩ := h.sec
    cases a with
    | assign a => exact ⟨rfl, h.sec⟩
    | move x y =>
      obtain ⟨f, hf⟩ := State.exists_move_eq x y
      simp only [State.emitAction, hf]
      exact ⟨rfl, congrArg f hcursor, hfont, hcolor, hcache, hanchored⟩
    | font name => exact ⟨rfl, hcursor, rfl, hcolor, hcache, hanchored⟩
    | color name => exact ⟨rfl, hcursor, hfont, rfl, hcache, hanchored⟩
    | generic name args =>
      simp only [State.emitAction, State.emitGeneric]
      split
      · exact ⟨rfl, hcursor, hfont, hcolor, rfl, hanchored⟩
      · exact ⟨rfl, h.sec⟩
    | _ => exact absurd rfl hout

theorem alike_emitAction (e : Env) (depth : Nat) (hx : ∀ cs, Blind (emitNested e depth cs))
    (a : Action)
    {inside : Bool} {s t : State} (h : s.Alike inside t) (ha : a.isOutput = true → inside = true) :
    (s.emitAction e (emitNested e depth) a).Alike inside
      (t.emitAction e (emitNested e depth) a) := by
  obtain ⟨hblock, hsec⟩ := agrees_emitAction e hx h ha
  have hkeeps (u : State) (hu : u.sec.outlineOpen = inside) :
      (u.emitAction e (emitNested e depth) a).state.sec.outlineOpen = inside := by
    have hinner (cs : List Command) (v : State) (hv : v.sec.outlineOpen = true) :
        (emitNested e depth cs v).Keeps true := hv ▸ keeps_emitNested e depth cs v
    exact ((u.step_emitAction e _ a).keeps hinner fun hout => hu.trans (ha hout)).state.trans hu
  have hexpanding (u : State) :
      (u.emitAction e (emitNested e depth) a).state.expanding = u.expanding :=
    (u.step_emitAction e _ a).expanding_eq (expanding_emitNested e depth)
  exact ⟨hblock, hsec, hkeeps s h.left, hkeeps t h.right,
    ((hexpanding s).trans h.expanding).trans (hexpanding t).symm⟩

theorem Flow.alike_emit {act : Emitter}
    (hact : ∀ (a : Action) (inside : Bool) (s t : State), s.Alike inside t →
      (a.isOutput = true → inside = true) → (act a s).Alike inside (act a t))
    (f : Flow) {inside : Bool} {s t : State} (h : s.Alike inside t) :
    (f.emit act s).Alike inside (f.emit act t) := by
  induction f generalizing inside s t with
  | done => exact ⟨rfl, h⟩
  | act a rest ih =>
    have hopens : s.opensOutline a = t.opensOutline a := by
      rw [State.opensOutline, State.opensOutline, h.left, h.right]
    by_cases ha : t.opensOutline a = true
    · have hclosed : inside = false := by
        have ht := h.right
        simp_all [State.opensOutline]
      subst hclosed
      obtain ⟨hfirst, hstate⟩ := hact a true _ _ h.openOutline fun _ => rfl
      obtain ⟨hrest, hend⟩ := ih hstate
      simp only [Flow.emit, hopens, ha, if_true, hfirst, hrest]
      exact ⟨rfl, hend.closeOutline⟩
    · have hout : a.isOutput = true → inside = true := by
        have ht := h.right
        simp_all [State.opensOutline]
      obtain ⟨hfirst, hstate⟩ := hact a inside _ _ h hout
      obtain ⟨hrest, hend⟩ := ih hstate
      simp only [Flow.emit, hopens, ha, Bool.false_eq_true, if_false, hfirst, hrest]
      exact ⟨rfl, hend⟩
  | branch condition yes rest hy hr =>
    obtain ⟨hyes, hstate⟩ := hy h
    obtain ⟨hrest, hend⟩ := hr hstate
    simp only [Flow.emit, hyes, hrest]
    exact ⟨rfl, hend⟩
  | branchElse condition yes no rest hy hn hr =>
    obtain ⟨hyes, hstate⟩ := hy h
    obtain ⟨hno, hstate'⟩ := hn hstate
    obtain ⟨hrest, hend⟩ := hr hstate'
    simp only [Flow.emit, hyes, hno, hrest]
    exact ⟨rfl, hend⟩
  | scope body rest hb hr =>
    obtain ⟨hbody, hstate⟩ := hb h
    obtain ⟨hrest, hend⟩ := hr hstate
    simp only [Flow.emit, hbody, hrest]
    exact ⟨rfl, hend⟩
  | stray body rest hb hr =>
    obtain ⟨hbody, hstate⟩ := hb h
    obtain ⟨hrest, hend⟩ := hr hstate
    simp only [Flow.emit, hbody, hrest]
    exact ⟨rfl, hend⟩

theorem alike_emitNested (e : Env) (depth : Nat) (cs : List Command) {inside : Bool} {s t : State}
    (h : s.Alike inside t) : (emitNested e depth cs s).Alike inside (emitNested e depth cs t) := by
  induction depth generalizing cs inside s t with
  | zero => exact ⟨rfl, h⟩
  | succ depth ih =>
    have hblind (cs : List Command) : Blind (emitNested e depth cs) := by
      intro s waiting requested warnings hopen
      have hs : (s.elsewhere waiting requested warnings).Alike true s :=
        ⟨.of_eq rfl true, hopen, hopen, rfl⟩
      obtain ⟨hblock, hstate⟩ := ih cs hs
      exact ⟨hblock, hstate.section_eq⟩
    exact Flow.alike_emit (fun a inside s t hs ha => alike_emitAction e depth hblind a hs ha) _ h

/-- The lines of the second branch, which is written behind the first one. -/
def elseLines (e : Env) (s : State) (yes no : List Command) : List Line :=
  ((s.emit e yes).state.emit e no).block.lines

theorem lines_emit_ifElse (e : Env) (s : State) (p q : Position) (condition : List String)
    (yes no : List Command) :
    (s.emit e [.ifBlock p condition yes, .elseBlock q no]).block.lines
      = ifElseLines condition (s.emit e yes).block.lines (elseLines e s yes no) := by
  have hflow : Flow.ofCommands [.ifBlock p condition yes, .elseBlock q no]
      = .branchElse condition (.ofCommands yes) (.ofCommands no) .done := by
    simp [Flow.ofCommands]
  simp only [elseLines, State.emit_eq, hflow, Flow.lines_branchElse]
  simp [Flow.emit, Emission.quiet, Block.lines]

/-- The second branch is the same behind two first branches that leave agreeing sections. -/
theorem elseLines_eq_of_agrees (e : Env) (s : State) (p q : Position) (condition : List String)
    (first second no : List Command)
    (h : (s.emit e first).state.sec.Agrees s.sec.outlineOpen (s.emit e second).state.sec) :
    elseLines e s first no = elseLines e s second no ∧
      ∀ yes, (s.emit e [.ifBlock p condition yes, .elseBlock q no]).block.lines
        = ifElseLines condition (s.emit e yes).block.lines (elseLines e s yes no) := by
  have hopen (cs : List Command) : (s.emit e cs).state.sec.outlineOpen = s.sec.outlineOpen :=
    (keeps_emitNested e e.nesting cs s).state
  have hexpanding (cs : List Command) : (s.emit e cs).state.expanding = s.expanding :=
    expanding_emitNested e e.nesting cs s
  have halike : (s.emit e first).state.Alike s.sec.outlineOpen (s.emit e second).state :=
    ⟨h, hopen first, hopen second, (hexpanding first).trans (hexpanding second).symm⟩
  have hno := (alike_emitNested e e.nesting no halike).block
  exact ⟨congrArg Block.lines hno, fun yes => lines_emit_ifElse e s p q condition yes no⟩

theorem elseLines_eq_of_agrees_swapped :
    let font : Command := .act {} (.font "F2")
    let line : Command := .act {} (.newLine none)
    let no : List Command := [.act {} (.text { keyword := "SH", source := "(x)" })]
    let s := State.initial {}
    (s.emit {} [font, line]).block.lines ≠ (s.emit {} [line, font]).block.lines ∧
      (s.emit {} [font, line]).state.sec.Agrees false (s.emit {} [line, font]).state.sec ∧
      elseLines {} s [font, line] no = elseLines {} s [line, font] no := by
  intro font line no s
  have h : (s.emit {} [font, line]).state.sec.Agrees false (s.emit {} [line, font]).state.sec := by
    have hfirst :
        Flow.ofCommands [font, line] = .act (.font "F2") (.act (.newLine none) .done) := by
      simp [font, line, Flow.ofCommands]
    have hsecond :
        Flow.ofCommands [line, font] = .act (.newLine none) (.act (.font "F2") .done) := by
      simp [font, line, Flow.ofCommands]
    rw [State.emit_eq, State.emit_eq, hfirst, hsecond]
    exact ⟨rfl, rfl, rfl, rfl, fun hinside => absurd hinside Bool.false_ne_true⟩
  exact ⟨by decide +kernel, h, (elseLines_eq_of_agrees {} s {} {} ["VAR_A"] _ _ no h).1⟩

/-- A font of the first branch is used in the second one, and every other part of the section comes
through as well. -/
theorem elseLines_take_section :
    let one (a : Action) : List Command := [.act {} a]
    let x : Action := .text { keyword := "SH", source := "(x)" }
    let printed (font : String) : List Line := Block.outlineHead ++
      [⟨1, "OUTPUT 'x'"⟩, ⟨2, font⟩, ⟨2, "POSITION (SAME) (SAME)"⟩, ⟨2, ";"⟩, ⟨0, "ENDIO;"⟩]
    let box : Action := .box ["a", "b", "c", "d"]
    let s := State.initial {}
    (s.emit {} [.ifBlock {} ["VAR_A"] (one (.font "F2")), .elseBlock {} (one x)]).block.lines
        = ifElseLines ["VAR_A"] [] (printed "FONT F2 NORMAL") ∧
      (s.emit {} [.ifBlock {} ["VAR_A"] [], .elseBlock {} (one x)]).block.lines
        = ifElseLines ["VAR_A"] [] (printed "FONT ARIAL08 NORMAL") ∧
      elseLines {} s (one (.color "R")) (one x) ≠ elseLines {} s [] (one x) ∧
      elseLines {} s (one (.newLine none)) (one x) ≠ elseLines {} s [] (one x) ∧
      elseLines {} s (one (.generic "CACHE" ["(a.jpg)"])) (one (.call ⟨.segment, "(b.jpg)", []⟩))
        ≠ elseLines {} s [] (one (.call ⟨.segment, "(b.jpg)", []⟩)) ∧
      elseLines {} s.openOutline (one box) (one box) ≠ elseLines {} s.openOutline [] (one box) := by
  decide +kernel

end VippDocdef.Docdef
