import VippDocdef.Proofs.Calls
import VippDocdef.Proofs.Retention

/-! Cases without a format. Whether a case needs one is asked of its commands, before they are
walked. Where none is needed, the walk would write assignments, comments, loops, changes of the page
and branches, but nothing that stands on the page, and it would ask for no other format; so no
content is lost with the format that is left out. -/

set_option autoImplicit false

namespace VippDocdef

namespace Command

theorem actions_cons (c : Command) (cs : List Command) :
    actions (c :: cs) = actions [c] ++ actions cs := by
  simp [actions, walk]

mutual

theorem leavesOf_sublist : (c : Command) → (leavesOf c).Sublist (actions [c])
  | .act p a => .refl [a]
  | .ifFlat p c => .slnil
  | .elseFlat p => .slnil
  | .endIf p => .slnil
  | .define p name body => List.nil_sublist _
  | .ifBlock p c body => by
    have hactions : actions [.ifBlock p c body] = actions body := by simp [actions, walk, within]
    rw [leavesOf, hactions]
    exact leaves_sublist body
  | .elseBlock p body => by
    have hactions : actions [.elseBlock p body] = actions body := by simp [actions, walk, within]
    rw [leavesOf, hactions]
    exact leaves_sublist body

/-- The walk meets no action that the search has not met. -/
theorem leaves_sublist : (cs : List Command) → (leaves cs).Sublist (actions cs)
  | [] => .slnil
  | c :: cs => by
    rw [leaves, actions_cons]
    exact (leavesOf_sublist c).append (leaves_sublist cs)

end

end Command

def Action.isStill : Action → Bool
  | .assign _ | .font _ | .color _ => true
  | .generic name _ => name ≠ "SETLSP"
  | .text _ | .call _ | .move .. | .newLine _ | .box _ => false

theorem Action.isStill_of_not_needsFormat {a : Action} (h : a.needsFormat = false) :
    a.isStill = true := by
  cases a with
  | assign a => rfl
  | font name => rfl
  | color name => rfl
  | generic name args =>
    have hname :
        name ∉ ["SETLSP", "SETFORM", "SETPAGEDEF", "SETLKF", "GETINTV", "SUBSTR", "GETITEM"] := by
      simpa [needsFormat] using h
    have hne : name ≠ "SETLSP" := fun heq => hname (heq ▸ List.mem_cons_self)
    simpa [isStill] using hne
  | text o => cases h
  | call c => cases h
  | move x y => cases h
  | newLine amount => cases h
  | box args => cases h

theorem Action.isOutput_of_isStill {a : Action} (h : a.isStill = true) : a.isOutput = false := by
  cases a with
  | generic name args => simpa [isStill, isOutput] using h
  | assign a => rfl
  | font name => rfl
  | color name => rfl
  | move x y => rfl
  | text o => cases h
  | call c => cases h
  | newLine amount => cases h
  | box args => cases h

namespace Docdef

open Command (leaves)

theorem isStill_of_not_needsFormat {cs : List Command} (h : needsFormat cs = false) :
    ∀ a ∈ leaves cs, a.isStill = true := by
  rw [needsFormat, Bool.or_eq_false_iff] at h
  intro a ha
  have hneed := List.any_eq_false.1 h.1 a ((Command.leaves_sublist cs).subset ha)
  exact Action.isStill_of_not_needsFormat (by simpa using hneed)

def controlStarts : List String :=
  ["/* ", "FOR ", "ENDFOR;", "USE LP NEXT", "IF ", "THEN;", "ELSE;", "ENDIF;"]

def Control (text : String) : Prop :=
  equals <:+: text.toList ∨ ∃ head ∈ controlStarts, head.toList <+: text.toList

def isControlStart (text : String) : Bool := controlStarts.any (Text.startsWith text)

theorem control_append {text : String} (h : isControlStart text = true) (rest : String) :
    Control (text ++ rest) := by
  obtain ⟨head, hhead, hstarts⟩ := List.any_eq_true.1 h
  refine .inr ⟨head, hhead, ?_⟩
  rw [String.toList_append]
  exact (List.isPrefixOf_iff_prefix.1 hstarts).trans (List.prefix_append _ _)

theorem control_of_start {text : String} (h : isControlStart text = true) : Control text := by
  simpa using control_append h ""

theorem control_assignment {middle : String} (h : equals <:+: middle.toList) (name rest : String) :
    Control (name ++ (middle ++ rest)) := by
  refine .inl ?_
  rw [String.toList_append, String.toList_append]
  exact h.trans ((List.prefix_append _ _).isInfix.trans (List.suffix_append _ _).isInfix)

theorem control_stepStatement (name sign : String) :
    Control (Condition.stepStatement name sign) := by
  simp (disch := decide) only [Condition.stepStatement, toString, String.append_assoc,
    control_assignment]

theorem control_setStatement (name value : String) : Control (setStatement name value) := by
  unfold setStatement
  split
  · simp (disch := decide) only [String.append_assoc, control_append]
  split
  · exact control_stepStatement name "+"
  split
  · exact control_stepStatement name "-"
  · simp (disch := decide) only [String.append_assoc, control_assignment]

theorem control_assignStatement? {a : Assignment} {text : String}
    (h : assignStatement? a = some text) :
    Control text := by
  unfold assignStatement? at h
  split at h
  · rw [← Option.some.inj h]
    exact control_stepStatement _ _
  · rw [← Option.some.inj h]
    exact control_stepStatement _ _
  · cases h
  · dsimp only at h
    split at h
    · rw [← Option.some.inj h]
      exact control_setStatement _ _
    · rw [← Option.some.inj h]
      exact control_setStatement _ _

theorem control_unsupported (name : String) : Control (unsupported name) := by
  unfold unsupported
  simp (disch := decide) only [String.append_assoc, control_append]

theorem control_substringStatement (args : List String) : Control (substringStatement args) := by
  unfold substringStatement
  split
  · simp (disch := decide) only [String.append_assoc, control_assignment]
  · exact control_unsupported _

theorem control_clipNotes : ∀ t ∈ clipNotes, Control t := by
  simp (disch := decide +kernel) [clipNotes, control_of_start]

theorem control_genericLines {name : String} (h : name ≠ "SETLSP") (args : List String) :
    ∀ t ∈ genericLines name args, Control t := by
  unfold genericLines
  split
  · exact absurd rfl h
  · simp (disch := decide) [String.append_assoc, control_append]
  · simp (disch := decide) [control_of_start]
  · simp [control_substringStatement]
  · simp
  · exact control_clipNotes
  · exact control_clipNotes
  · simp (disch := decide) [control_of_start]
  · simp (disch := decide) [control_of_start]
  · simp (disch := decide) [control_of_start]
  · simp (disch := decide) [control_of_start]
  · split <;> simp [control_unsupported]

theorem Condition.control_hoisted (atoms : List String) :
    ∀ t ∈ (ofAtoms atoms).hoisted, Control t := by
  obtain ⟨stepped, hsteps, -⟩ := perm_remaining atoms
  generalize (ofAtoms atoms).hoisted = statements at hsteps ⊢
  induction hsteps with
  | nil => exact List.forall_mem_nil _
  | cons hstep _ ih =>
    obtain ⟨sign, -, rfl⟩ := hstep
    exact List.forall_mem_cons.2 ⟨control_stepStatement _ _, ih⟩

theorem Condition.IsHeader.control {header : String} (h : IsHeader header) : Control header := by
  obtain ⟨test, rfl⟩ := h
  rw [String.append_assoc]
  exact control_append (by decide) _

/-- Branches and single lines of control, and no outline. -/
inductive Block.Still : Block → Prop where
  | done : Still .done
  | line {text : String} {rest : Block} (control : Control text) (next : Still rest) :
      Still (.statement (.plain text) rest)
  | ifThen {header : String} {yes rest : Block} (isHeader : Condition.IsHeader header)
      (first : Still yes)
      (next : Still rest) : Still (.ifThen header yes rest)
  | ifThenElse {header : String} {yes no rest : Block} (isHeader : Condition.IsHeader header)
      (first : Still yes) (second : Still no) (next : Still rest) :
        Still (.ifThenElse header yes no rest)

def Block.hasOutline : Block → Bool
  | .done => false
  | .statement _ rest => rest.hasOutline
  | .ifThen _ yes rest => yes.hasOutline || rest.hasOutline
  | .ifThenElse _ yes no rest => yes.hasOutline || no.hasOutline || rest.hasOutline
  | .outline _ _ => true

/-- Anything but a single line of control: what stands on the page, the point for boxes, or a
call. -/
def Statement.isContent : Statement → Bool
  | .plain _ => false
  | _ => true

namespace Block.Still

variable {a b : Block}

theorem append (ha : a.Still) (hb : b.Still) : (a ++ b).Still := by
  show (a.append b).Still
  induction ha with
  | done => exact hb
  | line control next ih => exact .line control ih
  | ifThen isHeader first next _ ih => exact .ifThen isHeader first ih
  | ifThenElse isHeader first second next _ _ ih => exact .ifThenElse isHeader first second ih

theorem ofTexts {texts : List String} (h : ∀ t ∈ texts, Control t) :
    (Block.ofList (texts.map .plain)).Still := by
  induction texts with
  | nil => exact .done
  | cons t rest ih =>
    obtain ⟨ht, hrest⟩ := List.forall_mem_cons.1 h
    exact .line ht (ih hrest)

theorem before (h : b.Still) (atoms : List String) :
    ((Condition.ofAtoms atoms).before b).Still := by
  have htexts := Condition.control_hoisted atoms
  unfold Condition.before
  generalize (Condition.ofAtoms atoms).hoisted = texts at htexts ⊢
  induction texts with
  | nil => exact h
  | cons t rest ih =>
    obtain ⟨ht, hrest⟩ := List.forall_mem_cons.1 htexts
    exact .line ht (ih hrest)

theorem hasOutline_eq (h : b.Still) : b.hasOutline = false := by
  induction h with
  | done => rfl
  | line control next ih => exact ih
  | ifThen isHeader first next hfirst hnext => simp [hasOutline, hfirst, hnext]
  | ifThenElse isHeader first second next hfirst hsecond hnext =>
    simp [hasOutline, hfirst, hsecond, hnext]

theorem not_isContent (h : b.Still) : ∀ st ∈ b.statements, st.isContent = false := by
  induction h with
  | done => exact List.forall_mem_nil _
  | line control next ih => exact List.forall_mem_cons.2 ⟨rfl, ih⟩
  | ifThen isHeader first next hfirst hnext => exact List.forall_mem_append.2 ⟨hfirst, hnext⟩
  | ifThenElse isHeader first second next hfirst hsecond hnext =>
    exact List.forall_mem_append.2 ⟨hfirst, List.forall_mem_append.2 ⟨hsecond, hnext⟩⟩

theorem lines (h : b.Still) : Throughout Control b.lines := by
  induction h with
  | done => exact throughout_nil
  | line control next ih => exact throughout_cons.2 ⟨control, ih⟩
  | ifThen isHeader first next hfirst hnext =>
    simp (disch := decide) [Block.lines, isHeader.control, hfirst, hnext, control_of_start]
  | ifThenElse isHeader first second next hfirst hsecond hnext =>
    simp (disch := decide) [Block.lines, isHeader.control, hfirst, hsecond, hnext, control_of_start]

end Block.Still

/-- Nothing but the font, the color and the operands of `CACHE` has changed. -/
def State.Rests (s t : State) : Prop :=
  ∃ font color cache, t = { s with sec := { s.sec with font, color, cache } }

theorem State.Rests.refl (s : State) : s.Rests s := ⟨_, _, _, rfl⟩

theorem State.Rests.trans {s t u : State} (h : s.Rests t) (h' : t.Rests u) : s.Rests u := by
  obtain ⟨_, _, _, rfl⟩ := h
  obtain ⟨font, color, cache, rfl⟩ := h'
  exact ⟨font, color, cache, rfl⟩

structure Emission.Still (s : State) (r : Emission) : Prop where
  block : r.block.Still
  state : s.Rests r.state

theorem Emission.still_mk {s t : State} {b : Block} (hb : b.Still) (ht : s.Rests t) :
    Emission.Still s ⟨b, t⟩ := ⟨hb, ht⟩

theorem State.still_emitAction {a : Action} (h : a.isStill = true) (s : State) (e : Env)
    (expand : Expansion) :
    (s.emitAction e expand a).Still s := by
  cases a with
  | assign a =>
    have htexts : ∀ t ∈ (assignStatement? a).toList, Control t := fun t ht =>
      control_assignStatement? (Option.mem_toList.1 ht)
    refine ⟨?_, .refl s⟩
    rw [emitAction, Option.toList_map]
    exact .ofTexts htexts
  | generic name args =>
    refine ⟨.ofTexts (control_genericLines (by simpa [Action.isStill] using h) args), ?_⟩
    simp only [emitAction, emitGeneric, Emission.many]
    split
    · exact ⟨_, _, _, rfl⟩
    · exact .refl s
  | font name => exact ⟨.done, _, _, _, rfl⟩
  | color name => exact ⟨.done, _, _, _, rfl⟩
  | text o => cases h
  | call c => cases h
  | move x y => cases h
  | newLine amount => cases h
  | box args => cases h

theorem Flow.still_emit {f : Flow} (h : ∀ a ∈ f.actions, a.isStill = true) (e : Env)
    (expand : Expansion) (s : State) : (f.emit (e.emitter expand) s).Still s := by
  induction f generalizing s with
  | done => exact ⟨.done, .refl s⟩
  | act a rest ih =>
    obtain ⟨ha, hrest⟩ := List.forall_mem_cons.1 h
    have hclosed : s.opensOutline a = false := by
      simp [State.opensOutline, Action.isOutput_of_isStill ha]
    have hfirst : (e.emitter expand a s).Still s := s.still_emitAction ha e expand
    have hothers := ih hrest (e.emitter expand a s).state
    simp only [Flow.emit, hclosed]
    exact Emission.still_mk (hfirst.block.append hothers.block) (hfirst.state.trans hothers.state)
  | branch condition yes rest hy hr =>
    obtain ⟨hyes, hrest⟩ := List.forall_mem_append.1 h
    have hfirst := hy hyes s
    have hothers := hr hrest (yes.emit (e.emitter expand) s).state
    have hheader := (Condition.ofAtoms condition).isHeader_ifLine
    simp only [Flow.emit]
    exact Emission.still_mk (.before (.ifThen hheader hfirst.block hothers.block) condition)
      (hfirst.state.trans hothers.state)
  | branchElse condition yes no rest hy hn hr =>
    obtain ⟨hyes, hno, hrest⟩ := List.forall_mem_append.1 h |>.imp_right List.forall_mem_append.1
    have hfirst := hy hyes s
    have hsecond := hn hno (yes.emit (e.emitter expand) s).state
    have hothers :=
      hr hrest (no.emit (e.emitter expand) (yes.emit (e.emitter expand) s).state).state
    have hheader := (Condition.ofAtoms condition).isHeader_ifLine
    simp only [Flow.emit]
    exact Emission.still_mk (.before (.ifThenElse hheader hfirst.block hsecond.block hothers.block)
      condition)
      ((hfirst.state.trans hsecond.state).trans hothers.state)
  | scope body rest hb hr =>
    obtain ⟨hbody, hrest⟩ := List.forall_mem_append.1 h
    have hfirst := hb hbody s
    have hothers := hr hrest (body.emit (e.emitter expand) s).state
    simp only [Flow.emit]
    exact Emission.still_mk (hfirst.block.append hothers.block) (hfirst.state.trans hothers.state)
  | stray body rest hb hr =>
    obtain ⟨hbody, hrest⟩ := List.forall_mem_append.1 h
    have hfirst := hb hbody s
    have hothers := hr hrest (body.emit (e.emitter expand) s).state
    simp only [Flow.emit]
    exact Emission.still_mk
      (.line (control_of_start (by decide)) (hfirst.block.append hothers.block))
      (hfirst.state.trans hothers.state)

theorem still_emit {cs : List Command} (h : needsFormat cs = false) (e : Env) (s : State) :
    (s.emit e cs).Still s := by
  rw [State.emit_eq]
  refine Flow.still_emit (fun a ha => ?_) e _ s
  rw [actions_ofCommands] at ha
  exact isStill_of_not_needsFormat h a ha

/-- The states differ in their sections only, and so a format that begins a section of its own is
the same. -/
def State.Aside (s t : State) : Prop := t = { s with sec := t.sec }

theorem State.Aside.refl (s : State) : s.Aside s := rfl

theorem State.Aside.trans {s t u : State} (h : s.Aside t) (h' : t.Aside u) : s.Aside u := by
  unfold Aside at *
  rw [h', h]

theorem State.Rests.aside {s t : State} (h : s.Rests t) : s.Aside t := by
  obtain ⟨font, color, cache, rfl⟩ := h
  rfl

theorem State.Aside.beginSection {s t : State} (h : s.Aside t) (e : Env) (x y : Float) :
    t.beginSection e x y = s.beginSection e x y := by
  rw [h]
  rfl

/-- With the cases that need no format left out, the same bodies are written for the others, and
what is on the page and the formats that wait are the same. -/
theorem caseBodies_filter (e : Env) (cases : List Case) {s t : State} (h : s.Aside t) :
    let kept := caseBodies e (cases.filter (needsFormat ·.commands)) s
    let whole := caseBodies e cases t
    kept.bodies.Sublist whole.bodies ∧
      whole.statements.filter Statement.isContent = kept.statements.filter Statement.isContent ∧
      kept.state.Aside whole.state := by
  induction cases generalizing s t with
  | nil => exact ⟨.slnil, rfl, h⟩
  | cons c rest ih =>
    have hbegin := h.beginSection e caseOrigin.1 caseOrigin.2
    cases hneed : needsFormat c.commands with
    | true =>
      obtain ⟨hbodies, hcontent, hstate⟩ :=
        ih (State.Aside.refl ((s.beginSection e caseOrigin.1 caseOrigin.2).emit e c.commands).state)
      rw [List.filter_cons_of_pos (by exact hneed)]
      simp only [caseBodies, hbegin, Bodies.statements, List.flatMap_cons, List.filter_append]
      exact ⟨hbodies.cons_cons _, congrArg _ hcontent, hstate⟩
    | false =>
      have hstill := still_emit hneed e (t.beginSection e caseOrigin.1 caseOrigin.2)
      have hnone :
          (((t.beginSection e caseOrigin.1 caseOrigin.2).emit e c.commands).block.statements).filter
          Statement.isContent = [] :=
        List.filter_eq_nil_iff.2 fun st hst => by simp [hstill.block.not_isContent st hst]
      have hsection : t.Aside (t.beginSection e caseOrigin.1 caseOrigin.2) := rfl
      obtain ⟨hbodies, hcontent, hstate⟩ := ih (h.trans (hsection.trans hstill.state.aside))
      rw [List.filter_cons_of_neg (by simp [hneed])]
      simp only [caseBodies, Bodies.statements, List.flatMap_cons, List.filter_append, hnone,
        List.nil_append]
      exact ⟨hbodies.cons _, hcontent, hstate⟩

theorem bodies_routineBodies_withSection (e : Env) (x y : Float) (most : Nat) (s : State)
    (sec : Section) :
    (routineBodies e x y most { s with sec }).bodies = (routineBodies e x y most s).bodies := by
  induction most generalizing s with
  | zero => rfl
  | succ most ih =>
    cases hwaiting : s.waiting with
    | nil => simp only [routineBodies, State.nextWaiting?, hwaiting]
    | cons name rest =>
      simp only [routineBodies, State.nextWaiting?, hwaiting]
      cases hbody : e.project.subroutine? name with
      | none => exact ih { s with waiting := rest }
      | some body => rfl

theorem State.Aside.lines_routineFormats {s t : State} (h : s.Aside t) (e : Env) (x y : Float) :
    (routineFormats e x y t).lines = (routineFormats e x y s).lines := by
  have hbodies : (allRoutineBodies e x y t).bodies = (allRoutineBodies e x y s).bodies := by
    rw [h]
    exact bodies_routineBodies_withSection e x y _ s t.sec
  simp only [routineFormats, Bodies.lines, hbodies]

def ownCases (d : Document) : List Case := d.cases.filter (!·.isDefault)

theorem formatCases_eq (d : Document) :
    formatCases d = (ownCases d).filter (needsFormat ·.commands) := by
  simp [formatCases, ownCases, List.filter_filter, Bool.and_comm]

/-- A case that needs no format writes lines of control only: no outline, nothing that stands on the
page and no call. Of the state only the font, the color and the operands of `CACHE` change. So in
the program of a document, with a format for every case in place of those that need one, nothing
else would stand on the page, and the formats of subroutines would be the same. -/
theorem unneeded_format_is_empty (e : Env) :
    (∀ (cs : List Command) (s : State), needsFormat cs = false →
      let r := s.emit e cs
      r.block.hasOutline = false ∧ (∀ st ∈ r.block.statements, ∃ text, st = .plain text) ∧
        (∀ line ∈ r.block.lines, Control line.text) ∧
        ∃ font color cache, r.state = { s with sec := { s.sec with font, color, cache } }) ∧
    ∀ s : State,
      let kept := caseBodies e (formatCases e.project.document) s
      let whole := caseBodies e (ownCases e.project.document) s
      kept.bodies.Sublist whole.bodies ∧
        whole.statements.filter Statement.isContent = kept.statements.filter Statement.isContent ∧
        whole.state = { kept.state with sec := whole.state.sec } ∧
        ∀ x y, (routineFormats e x y whole.state).lines
          = (routineFormats e x y kept.state).lines := by
  constructor
  · intro cs s hneed
    have hstill := still_emit hneed e s
    refine ⟨hstill.block.hasOutline_eq, fun st hst => ?_, fun line hline => ?_, hstill.state⟩
    · have hcontent := hstill.block.not_isContent st hst
      cases st with
      | plain text => exact ⟨text, rfl⟩
      | _ => cases hcontent
    · exact hstill.block.lines _ (List.mem_map_of_mem hline)
  · intro s
    rw [formatCases_eq]
    obtain ⟨hbodies, hcontent, hstate⟩ :=
      caseBodies_filter e (ownCases e.project.document) (.refl s)
    exact ⟨hbodies, hcontent, hstate, hstate.lines_routineFormats e⟩

/-- A flat branch with a step in its condition and a block `ELSE`, behind which the font is another
one. -/
theorem unneeded_format_is_empty_branch :
    let cs : List Command :=
      [.ifFlat {} ["/N", "++", "N", "gt", "2"], .act {} (.assign ⟨.set, "/A", some "(x)", false⟩),
        .elseBlock {} [.act {} (.font "F2"), .act {} (.generic "NEWBACK" [])], .endIf {},
        .define {} "R" [.act {} (.color "RED")], .act {} (.generic "CACHE" ["(a.jpg)"])]
    let s : State := .initial {}
    let r := s.emit {} cs
    needsFormat cs = false ∧ r.block.hasOutline = false ∧
      (∀ st ∈ r.block.statements, ∃ text, st = .plain text) ∧
      texts r.block.lines = ["N = N + 1;", "IF ISTRUE(N > 2);", "THEN;", "A = 'x';", "ELSE;",
        "USE LP NEXT SIDE BACK;", "ENDIF;"] ∧
      r.state.sec.font = "F2" ∧ r.state.sec.cursor = s.sec.cursor ∧ r.state.requested = [] := by
  intro cs s r
  have hneed : needsFormat cs = false := by decide +kernel
  obtain ⟨houtline, hplain, -, _, _, _, hstate⟩ := (unneeded_format_is_empty {}).1 cs s hneed
  change r.state = _ at hstate
  exact ⟨hneed, houtline,
    hplain, by decide +kernel, by decide +kernel, by rw [hstate], by rw [hstate]; rfl⟩

end Docdef

end VippDocdef
