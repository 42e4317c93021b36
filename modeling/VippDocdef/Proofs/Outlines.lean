import VippDocdef.Proofs.Bracketing

/-! Outlines in written programs. What prints stands in an outline, outlines do not nest, and the
part of a list that opens an outline also closes it. Where an outline is open from the start, none
is opened. -/

set_option autoImplicit false

namespace VippDocdef.Docdef

/-- `Confined inside b`: the printing statements of the block stand in its outlines, or the block
stands itself `inside` an outline and has none. -/
inductive Block.Confined : (inside : Bool) → Block → Prop where
  | done (inside : Bool) : Confined inside .done
  | statement {inside : Bool} {s : Statement} {rest : Block} (prints : s.isPrinting
      = true → inside = true)
      (next : Confined inside rest) : Confined inside (.statement s rest)
  | ifThen {inside : Bool} {header : String} {yes rest : Block} (first : Confined inside yes)
      (next : Confined inside rest) : Confined inside (.ifThen header yes rest)
  | ifThenElse {inside : Bool} {header : String} {yes no rest : Block} (first : Confined inside yes)
      (second : Confined inside no) (next : Confined inside rest) :
      Confined inside (.ifThenElse header yes no rest)
  | outline {body rest : Block} (within : Confined true body) (next : Confined false rest) :
      Confined false (.outline body rest)

theorem Block.Confined.append {inside : Bool} {a b : Block} (ha : a.Confined inside)
    (hb : b.Confined inside) : (a ++ b).Confined inside := by
  show (a.append b).Confined inside
  induction ha with
  | done => exact hb
  | statement prints next ih => exact .statement prints (ih hb)
  | ifThen first next _ ih => exact .ifThen first (ih hb)
  | ifThenElse first second next _ _ ih => exact .ifThenElse first second (ih hb)
  | outline within next _ ih => exact .outline within (ih hb)

theorem Block.confined_ofList {inside : Bool} {ss : List Statement}
    (h : ∀ s ∈ ss, s.isPrinting = true → inside = true) : (Block.ofList ss).Confined inside := by
  induction ss with
  | nil => exact .done inside
  | cons s rest ih =>
    obtain ⟨hs, hrest⟩ := List.forall_mem_cons.1 h
    exact .statement hs (ih hrest)

theorem Condition.confined_before (c : Condition) {inside : Bool} {b : Block}
    (h : b.Confined inside) : (c.before b).Confined inside := by
  unfold before
  induction c.hoisted with
  | nil => exact h
  | cons text rest ih => exact .statement (fun hp => nomatch hp) ih

/-- What is written is confined, and the outline is open behind it if it was open before it. -/
structure Emission.Keeps (inside : Bool) (r : Emission) : Prop where
  block : r.block.Confined inside
  state : r.state.sec.outlineOpen = inside

theorem Step.keeps {e : Env} {expand : Expansion} {a : Action} {s : State} {r : Emission}
    (hx : ∀ cs t, t.sec.outlineOpen = true → (expand cs t).Keeps true)
    (ha : a.isOutput = true → s.sec.outlineOpen = true) (h : Step e expand a s r) :
    r.Keeps s.sec.outlineOpen := by
  cases h with
  | row row prints =>
    refine ⟨?_, row.stays.outlineOpen⟩
    rw [row.block]
    exact Block.confined_ofList fun st hst hprints => ha (prints st hst hprints)
  | @call name body isOutput defined block state =>
    have hrequest : (s.request name).sec = s.sec := by
      unfold State.request
      split <;> rfl
    refine ⟨?_, by rw [state.outlineOpen, hrequest]⟩
    rw [block]
    exact .statement (fun _ => ha isOutput) (.done _)
  | expansion isOutput defined fresh isNote entered block state =>
    rw [ha isOutput]
    obtain ⟨hblock, hstate⟩ := hx _ _ (entered.outlineOpen.trans (ha isOutput))
    refine ⟨?_, state.outlineOpen.trans hstate⟩
    rw [block]
    exact .statement (fun _ => rfl) hblock

/-- The part of a list that opens an outline is the one that closes it. -/
theorem Flow.keeps_emit {act : Emitter}
    (h : ∀ a s, (a.isOutput = true → s.sec.outlineOpen = true) → (act a s).Keeps s.sec.outlineOpen)
    (f : Flow) (s : State) : (f.emit act s).Keeps s.sec.outlineOpen := by
  induction f generalizing s with
  | done => exact ⟨.done _, rfl⟩
  | act a rest ih =>
    by_cases ha : s.opensOutline a = true
    · have hs : s.sec.outlineOpen = false := by simp_all [State.opensOutline]
      obtain ⟨hfirst, hopen⟩ := h a s.openOutline fun _ => rfl
      obtain ⟨hrest, -⟩ := ih (act a s.openOutline).state
      rw [hopen] at hrest
      simp only [Flow.emit, ha, if_true, hs]
      exact ⟨.outline (hfirst.append hrest) (.done _), rfl⟩
    · have hout : a.isOutput = true → s.sec.outlineOpen = true := by simp_all [State.opensOutline]
      obtain ⟨hfirst, hopen⟩ := h a s hout
      obtain ⟨hrest, hstate⟩ := ih (act a s).state
      rw [hopen] at hrest hstate
      simp only [Flow.emit, ha]
      exact ⟨hfirst.append hrest, hstate⟩
  | branch condition yes rest hy hr =>
    obtain ⟨hfirst, hopen⟩ := hy s
    obtain ⟨hrest, hstate⟩ := hr (yes.emit act s).state
    rw [hopen] at hrest hstate
    exact ⟨Condition.confined_before _ (.ifThen hfirst hrest), hstate⟩
  | branchElse condition yes no rest hy hn hr =>
    obtain ⟨hfirst, hopen⟩ := hy s
    obtain ⟨hsecond, hopen'⟩ := hn (yes.emit act s).state
    obtain ⟨hrest, hstate⟩ := hr (no.emit act (yes.emit act s).state).state
    rw [hopen] at hsecond hopen'
    rw [hopen'] at hrest hstate
    exact ⟨Condition.confined_before _ (.ifThenElse hfirst hsecond hrest), hstate⟩
  | scope body rest hb hr =>
    obtain ⟨hfirst, hopen⟩ := hb s
    obtain ⟨hrest, hstate⟩ := hr (body.emit act s).state
    rw [hopen] at hrest hstate
    exact ⟨hfirst.append hrest, hstate⟩
  | stray body rest hb hr =>
    obtain ⟨hfirst, hopen⟩ := hb s
    obtain ⟨hrest, hstate⟩ := hr (body.emit act s).state
    rw [hopen] at hrest hstate
    exact ⟨.statement (fun hp => absurd hp Bool.false_ne_true) (hfirst.append hrest), hstate⟩

theorem keeps_emitNested (e : Env) (depth : Nat) (cs : List Command) (s : State) :
    (emitNested e depth cs s).Keeps s.sec.outlineOpen := by
  induction depth generalizing cs s with
  | zero => exact ⟨.done _, rfl⟩
  | succ depth ih =>
    -- a call is an output, so a subroutine is only expanded in an open outline
    refine Flow.keeps_emit (fun a t ha => (t.step_emitAction e _ a).keeps (fun cs u hu => ?_) ha) _
      s
    simpa [hu] using ih cs u

structure Entry where
  printing : Bool
  line : Line

namespace Entry

def deeper (x : Entry) : Entry := ⟨x.printing, x.line.deeper 1⟩

def silent (text : String) : Entry := ⟨false, ⟨0, text⟩⟩

end Entry

def Block.entries : Block → List Entry
  | .done => []
  | .statement s rest => s.lines.map (⟨s.isPrinting, ·⟩) ++ rest.entries
  | .ifThen header yes rest =>
    .silent header :: .silent "THEN;" ::
      (yes.entries.map .deeper ++ .silent "ENDIF;" :: rest.entries)
  | .ifThenElse header yes no rest =>
    .silent header :: .silent "THEN;" :: (yes.entries.map .deeper
      ++ .silent "ELSE;" :: (no.entries.map .deeper ++ .silent "ENDIF;" :: rest.entries))
  | .outline body rest =>
    outlineHead.map (⟨false, ·⟩) ++ (body.entries.map .deeper ++ .silent "ENDIO;" :: rest.entries)

theorem Block.line_entries (b : Block) : b.entries.map (·.line) = b.lines := by
  have hdeeper (xs : List Entry) :
      (xs.map Entry.deeper).map (·.line) = indented (xs.map (·.line)) := by
    simp [indented, Entry.deeper]
  induction b with
  | done => rfl
  | statement s rest ih => simp [entries, lines, ih, Function.comp_def]
  | ifThen header yes rest hy hr =>
    simp only [entries, lines, List.map_cons, List.map_append, hdeeper, hy, hr]
    simp [Entry.silent, flush]
  | ifThenElse header yes no rest hy hn hr =>
    simp only [entries, lines, List.map_cons, List.map_append, hdeeper, hy, hn, hr]
    simp [Entry.silent, flush]
  | outline body rest hb hr =>
    simp only [entries, lines, List.map_cons, List.map_append, hdeeper, hb, hr]
    simp [Entry.silent, flush, Function.comp_def]

def Unmarked (text : String) : Prop :=
  Mark.ofLine? text ≠ some .outline ∧ Mark.ofLine? text ≠ some .endOutline

instance (text : String) : Decidable (Unmarked text) := inferInstanceAs (Decidable (_ ∧ _))

@[simp] theorem unmarked_then : Unmarked "THEN;" := by decide

@[simp] theorem unmarked_else : Unmarked "ELSE;" := by decide

@[simp] theorem unmarked_endIf : Unmarked "ENDIF;" := by decide

theorem unmarked_of_data {text : String} (h : Mark.ofLine? text = none) : Unmarked text := by
  simp [Unmarked, h]

/-- Lines that show outlines one after the other, each closed before the next one opens, and outside
of them nothing that prints; `shown` is how a line looks. -/
inductive Outlined (shown : Line → String) : List Entry → Prop where
  | done : Outlined shown []
  | outside {x : Entry} {rest : List Entry} (silent : x.printing = false)
      (unmarked : Unmarked (shown x.line)) (next : Outlined shown rest) : Outlined shown (x :: rest)
  | outline {opener closer : Entry} {inside rest : List Entry}
      (opens : Mark.ofLine? (shown opener.line) = some .outline)
      (unmarked : ∀ x ∈ inside, Unmarked (shown x.line))
      (closes : Mark.ofLine? (shown closer.line) = some .endOutline) (next : Outlined shown rest) :
      Outlined shown (opener :: (inside ++ closer :: rest))

theorem Outlined.append {shown : Line → String} {a b : List Entry} (ha : Outlined shown a)
    (hb : Outlined shown b) : Outlined shown (a ++ b) := by
  induction ha with
  | done => exact hb
  | outside silent unmarked next ih => exact .outside silent unmarked ih
  | outline opens unmarked closes next ih => simpa using Outlined.outline opens unmarked closes ih

/-- Marks of outlines look like ones, and no other line does. -/
structure ShowsMarks (shown : Line → String) : Prop where
  opens : ∀ depth, Mark.ofLine? (shown ⟨depth, "OUTLINE"⟩) = some .outline
  closes : ∀ depth, Mark.ofLine? (shown ⟨depth, "ENDIO;"⟩) = some .endOutline
  others : ∀ x : Line, Unmarked x.text → Unmarked (shown x)

theorem ShowsMarks.deeper {shown : Line → String} (h : ShowsMarks shown) :
    ShowsMarks (shown ∘ Line.deeper 1) where
  opens depth := h.opens (1 + depth)
  closes depth := h.closes (1 + depth)
  others x hx := h.others (x.deeper 1) hx

theorem Outlined.map_deeper {shown : Line → String} {xs : List Entry}
    (h : Outlined (shown ∘ Line.deeper 1) xs) : Outlined shown (xs.map .deeper) := by
  induction h with
  | done => exact .done
  | outside silent unmarked next ih => exact .outside silent unmarked ih
  | @outline opener closer inside rest opens unmarked closes next ih =>
    have hin : ∀ x ∈ inside.map Entry.deeper, Unmarked (shown x.line) := by
      simpa [Entry.deeper] using unmarked
    simpa using @Outlined.outline shown opener.deeper closer.deeper _ _ opens hin closes ih

theorem Outlined.silent {shown : Line → String} (h : ShowsMarks shown) {text : String}
    (ht : Unmarked text) {rest : List Entry} (next : Outlined shown rest) :
    Outlined shown (.silent text :: rest) :=
  .outside rfl (h.others _ ht) next

theorem Condition.IsHeader.unmarked {header : String} (h : IsHeader header) : Unmarked header :=
  unmarked_of_data h.ofLine?_eq

theorem Condition.IsHeader.unmarked_opening {header : String} (h : IsHeader header) :
    ∀ x ∈ flush [header, "THEN;"], Unmarked x.text := by
  simp [flush, h.unmarked]

theorem Block.Sound.unmarked {b : Block} (hs : b.Sound) (hc : b.Confined true) :
    ∀ x ∈ b.lines, Unmarked x.text := by
  have hindented {lines : List Line} (h : ∀ x ∈ lines, Unmarked x.text) :
      ∀ x ∈ indented lines, Unmarked x.text := by simpa [indented, Line.deeper] using h
  induction hs with
  | done => simp [lines]
  | statement isData next ih =>
    cases hc with
    | statement _ hnext =>
      exact List.forall_mem_append.2
        ⟨fun x hx => unmarked_of_data (isData.dataLine x hx).1, ih hnext⟩
  | ifThen isHeader first next hfirst hnext =>
    cases hc with
    | ifThen hyes hrest =>
      simp only [lines, List.forall_mem_append]
      exact ⟨⟨⟨isHeader.unmarked_opening, hindented (hfirst hyes)⟩, by simp [flush]⟩, hnext hrest⟩
  | ifThenElse isHeader first second next hfirst hsecond hnext =>
    cases hc with
    | ifThenElse hyes hno hrest =>
      simp only [lines, List.forall_mem_append]
      exact ⟨⟨⟨⟨⟨isHeader.unmarked_opening, hindented (hfirst hyes)⟩, by simp [flush]⟩,
        hindented (hsecond hno)⟩, by simp [flush]⟩, hnext hrest⟩
  | outline inside next => cases hc

theorem Outlined.of_silent {shown : Line → String} (h : ShowsMarks shown) {lines : List Line}
    (hlines : ∀ x ∈ lines, Unmarked x.text) : Outlined shown (lines.map (⟨false, ·⟩)) := by
  induction lines with
  | nil => exact .done
  | cons x rest ih =>
    obtain ⟨hx, hrest⟩ := List.forall_mem_cons.1 hlines
    exact .outside rfl (h.others x hx) (ih hrest)

theorem Block.Sound.outlined {b : Block} (hs : b.Sound) (hc : b.Confined false)
    {shown : Line → String} (h : ShowsMarks shown) : Outlined shown b.entries := by
  induction hs generalizing shown with
  | done => exact .done
  | @statement s rest isData next ih =>
    cases hc with
    | statement prints hnext =>
      have hsilent : s.isPrinting = false := by simpa using prints
      have hlines := Outlined.of_silent h fun x hx => unmarked_of_data (isData.dataLine x hx).1
      rw [entries, hsilent]
      exact hlines.append (ih hnext h)
  | ifThen isHeader first next hfirst hnext =>
    cases hc with
    | ifThen hyes hrest =>
      exact .silent h isHeader.unmarked (.silent h unmarked_then
        ((hfirst hyes h.deeper).map_deeper.append (.silent h unmarked_endIf (hnext hrest h))))
  | ifThenElse isHeader first second next hfirst hsecond hnext =>
    cases hc with
    | ifThenElse hyes hno hrest =>
      exact .silent h isHeader.unmarked (.silent h unmarked_then
        ((hfirst hyes h.deeper).map_deeper.append (.silent h unmarked_else
          ((hsecond hno h.deeper).map_deeper.append (.silent h unmarked_endIf (hnext hrest h))))))
  | @outline body rest inside next hinside hnext =>
    cases hc with
    | outline hbody hrest =>
      have hhead : ∀ x ∈ outlineHead.drop 2, Unmarked x.text := by decide
      have hin : ∀ x ∈ (outlineHead.drop 2).map (Entry.mk false ·) ++ body.entries.map .deeper,
          Unmarked (shown x.line) := by
        have hlines := inside.unmarked hbody
        rw [← body.line_entries] at hlines
        simp only [List.forall_mem_append, List.forall_mem_map] at hlines ⊢
        exact ⟨fun x hx => h.others x (hhead x hx), fun x hx => h.others _ (hlines x hx)⟩
      have hout :=
        @Outlined.outline shown (.silent "OUTLINE") (.silent "ENDIO;") _ _ (h.opens 0) hin
        (h.closes 0) (hnext hrest h)
      simpa [entries, outlineHead, Entry.silent] using
        Outlined.outside (x := ⟨false, .blank⟩) rfl (h.others .blank (by decide)) hout

theorem showsMarks_text : ShowsMarks Line.text where
  opens depth := show Mark.ofLine? "OUTLINE" = _ by decide
  closes depth := show Mark.ofLine? "ENDIO;" = _ by decide
  others x h := h

theorem unmarked_lineAt {text : String} (h : Unmarked text) (level : Nat) :
    Unmarked (lineAt level text) := by
  simpa [Unmarked, Mark.ofLine?_lineAt] using h

theorem unmarked_write {x : Line} (h : Unmarked x.text) (d : Detector) : Unmarked (x.write d) := by
  unfold Line.write
  split
  · decide
  · refine unmarked_lineAt ?_ x.depth
    unfold Detector.sanitize
    split
    · apply unmarked_of_data
      apply Ordinary.ofLine?_eq
      simp (disch := decide) only [String.append_assoc, ordinary_append]
    · exact h

theorem showsMarks_write {d : Detector} (hopen : d.flags "OUTLINE" = false)
    (hclose : d.flags "ENDIO;" = false) (level : Nat) :
    ShowsMarks fun x => (x.deeper level).write d where
  opens depth := by
    show Mark.ofLine? (Line.write d ⟨level + depth, "OUTLINE"⟩) = _
    rw [write_of_not_flagged hopen (by decide), Mark.ofLine?_lineAt]
    decide
  closes depth := by
    show Mark.ofLine? (Line.write d ⟨level + depth, "ENDIO;"⟩) = _
    rw [write_of_not_flagged hclose (by decide), Mark.ofLine?_lineAt]
    decide
  others x h := unmarked_write (x := x.deeper level) h d

/-- From a state without an open outline, what prints is written in outlines that do not nest, and
none is open in the end; so it is also in the written text, if the marks of outlines are not
commented out. From a state with an open outline, none is opened or closed. -/
theorem emit_outlined (e : Env) (s : State) (cs : List Command) :
    (s.emit e cs).block.entries.map (·.line) = (s.emit e cs).block.lines ∧
    (s.sec.outlineOpen = false →
      (s.emit e cs).state.sec.outlineOpen = false ∧
      Outlined Line.text (s.emit e cs).block.entries ∧
      ∀ (d : Detector) (level : Nat), d.flags "OUTLINE" = false → d.flags "ENDIO;" = false →
        Outlined (fun x => (x.deeper level).write d) (s.emit e cs).block.entries) ∧
    (s.sec.outlineOpen = true →
      (s.emit e cs).state.sec.outlineOpen = true ∧
      ∀ x ∈ (s.emit e cs).block.lines, Unmarked x.text ∧
        ∀ (d : Detector) (level : Nat), Unmarked ((x.deeper level).write d)) := by
  obtain ⟨hblock, hstate⟩ := keeps_emitNested e e.nesting cs s
  have hsound := sound_emitNested e e.nesting cs s
  refine ⟨Block.line_entries _, fun hclosed => ?_, fun hopen => ?_⟩
  · rw [hclosed] at hblock hstate
    exact ⟨hstate, hsound.outlined hblock showsMarks_text, fun d level hopen hclose =>
      hsound.outlined hblock (showsMarks_write hopen hclose level)⟩
  · rw [hopen] at hblock hstate
    refine ⟨hstate, fun x hx => ?_⟩
    have hx := hsound.unmarked hblock x hx
    exact ⟨hx, fun d level => unmarked_write (x := x.deeper level) hx d⟩

/-- Text in a branch without an outline and text behind it: two outlines, or none if one is open. -/
theorem emit_outlined_branch :
    let text : Command := .act {} (.text ⟨"SH", "(a)", false, none, none, none⟩)
    let cs : List Command := [.ifBlock {} ["VAR_A"] [text], text]
    let closed : State := .initial {}
    let opened : State := closed.openOutline
    (closed.sec.outlineOpen = false ∧ (closed.emit {} cs).state.sec.outlineOpen = false ∧
      Outlined Line.text (closed.emit {} cs).block.entries ∧
      (closed.emit {} cs).block.lines.countP (·.text = "OUTLINE") = 2) ∧
    (opened.sec.outlineOpen = true ∧ (opened.emit {} cs).state.sec.outlineOpen = true ∧
      ∀ x ∈ (opened.emit {} cs).block.lines, Unmarked x.text) := by
  intro text cs closed opened
  obtain ⟨-, hclosed, -⟩ := emit_outlined {} closed cs
  obtain ⟨-, -, hopened⟩ := emit_outlined {} opened cs
  obtain ⟨hstate, houtlined, -⟩ := hclosed rfl
  obtain ⟨hstate', hlines⟩ := hopened rfl
  exact ⟨⟨rfl, hstate, houtlined, by decide +kernel⟩, rfl, hstate', fun x hx => (hlines x hx).1⟩

end VippDocdef.Docdef
