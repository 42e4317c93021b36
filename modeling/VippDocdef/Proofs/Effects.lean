import VippDocdef.Proofs.Steps
import VippDocdef.Proofs.Visits

/-! Which statements an action writes. Only a drawing action writes shapes and the point that they
are relative to, and a segment stands at a place that the cursor gives. -/

set_option autoImplicit false

namespace VippDocdef.Docdef

def Statement.isShape : Statement → Bool
  | .box .. | .rule .. => true
  | _ => false

/-- Neither a shape nor the point for shapes, and if it is a segment, at a place of a cursor. -/
def Statement.Placed : Statement → Prop
  | .anchor | .box .. | .rule .. => False
  | .segment _ place => ∃ c : Cursor, place = c.segmentPlace ∨ place = c.drawingPlace
  | _ => True

/-- Whether the open outline has its point for shapes; `none` if no outline is open. -/
def State.point? (s : State) : Option Bool :=
  if s.sec.outlineOpen then some s.sec.anchored else none

/-- Everything that an action can do to shapes and their point, where `expand` writes the bodies of
subroutines. -/
inductive Effect (e : Env) (expand : Expansion) (a : Action) (s : State) (r : Emission) : Prop where
  | row {ss : List Statement} (block : r.block = .ofList ss) (placed : ∀ st ∈ ss, st.Placed)
      (point : r.state.point? = s.point?)
  | shapes {ss : List Statement} (isOutput : a.isOutput = true)
      (block : r.block = .ofList (s.anchorStatements ++ ss)) (shapes : ∀ st ∈ ss, st.isShape = true)
      (point : r.state.point? = s.point?.map fun _ => true)
  | expansion {note : String} {body : List Command} {inside : State} (isOutput : a.isOutput = true)
      (entered : inside.point? = s.point?)
      (block : r.block = .statement (.plain note) (expand body inside).block)
      (point : r.state.point? = (expand body inside).state.point?)

section

variable {e : Env} {expand : Expansion} {a : Action} {s t : State}

theorem effect_quiet (h : t.point? = s.point?) : Effect e expand a s (.quiet t) :=
  @Effect.row e expand a s _ [] rfl (List.forall_mem_nil _) h

theorem effect_one {st : Statement} (hst : st.Placed) (h : t.point? = s.point?) :
    Effect e expand a s (.one st t) :=
  @Effect.row e expand a s _ [st] rfl (List.forall_mem_singleton.2 hst) h

theorem effect_plain {texts : List String} (h : t.point? = s.point?) :
    Effect e expand a s (.many (texts.map .plain) t) :=
  .row rfl (List.forall_mem_map.2 fun _ _ => trivial) h

theorem effect_printPlain (text : String) (align : Option Alignment) :
    Effect e expand a s (s.printPlain e text align) := by
  unfold State.printPlain
  split
  · exact effect_one trivial rfl
  split
  · exact effect_one trivial rfl
  · exact effect_one trivial rfl

theorem Effect.around {u : State} {r : Emission} (h : Effect e expand a t r)
    (hpoint : t.point? = s.point?)
    (hanchor : t.anchorStatements = s.anchorStatements) (hstate : u.point? = r.state.point?) :
    Effect e expand a s ⟨r.block, u⟩ := by
  cases h with
  | row block placed point => exact .row block placed (hstate.trans (point.trans hpoint))
  | shapes isOutput block shapes point =>
    exact .shapes isOutput (hanchor ▸ block) shapes (hstate.trans (hpoint ▸ point))
  | expansion isOutput entered block point =>
    exact .expansion isOutput (entered.trans hpoint) block (hstate.trans point)

theorem effect_emitText (o : TextOutput) : Effect e expand a s (s.emitText e o) := by
  unfold State.emitText
  split
  · exact effect_quiet rfl
  · exact effect_one trivial rfl
  · exact effect_one trivial rfl
  · exact effect_one trivial rfl
  unfold State.printLiteral
  split
  · exact effect_printPlain _ _
  · split
    · exact effect_printPlain _ _
    · exact (effect_printPlain _ _).around rfl rfl rfl
  · refine effect_one ?_ rfl
    split <;> trivial

theorem effect_emitNewLine (amount : Option String) :
    Effect e expand a s (s.emitNewLine amount) := by
  unfold State.emitNewLine
  split
  · split
    · exact effect_quiet rfl
    · exact effect_one trivial rfl
  · exact effect_one trivial rfl

theorem isShape_of_shape? {x y length thick style : String} {st : Statement}
    (h : shape? e x y length thick style = some st) : st.isShape = true := by
  simp only [shape?, Option.pure_def, Option.bind_eq_bind, Option.bind_eq_some_iff] at h
  obtain ⟨x, -, y, -, length, -, hst⟩ := h
  rw [← Option.some.inj hst, shape]
  split <;> rfl

theorem effect_emitBox (ha : a.isOutput = true) (args : List String) :
    Effect e expand a s (s.emitBox e args) := by
  unfold State.emitBox
  split
  · refine .shapes ha rfl (fun st hst => isShape_of_shape? (Option.mem_toList.1 hst)) ?_
    cases hopen : s.sec.outlineOpen <;> simp [State.point?, Emission.many, hopen]
  · exact effect_quiet rfl

theorem effect_emitImage (c : ResourceCall) : Effect e expand a s (s.emitImage c) := by
  unfold State.emitImage
  split
  · exact effect_quiet rfl
  · exact effect_one trivial rfl

theorem effect_emitSubroutine (ha : a.isOutput = true) (name : String) :
    Effect e expand a s (s.emitSubroutine e expand name) := by
  unfold State.emitSubroutine
  split
  · exact effect_one ⟨_, .inl rfl⟩ rfl
  split
  · refine effect_one trivial ?_
    unfold State.request
    split <;> rfl
  split
  · exact effect_one trivial rfl
  · next inside henter =>
    refine .expansion ha ?_ rfl rfl
    unfold State.enter? at henter
    split at henter
    · cases henter
    · rw [← Option.some.inj henter]
      rfl

theorem effect_emitFile (ha : a.isOutput = true) (cache : List String) (file : String) :
    Effect e expand a s (s.emitFile e expand cache file) := by
  unfold State.emitFile
  split
  · exact effect_emitSubroutine ha _
  · exact effect_one trivial rfl
  · exact effect_one ⟨_, .inr rfl⟩ rfl
  · exact effect_one ⟨_, .inl rfl⟩ rfl

theorem effect_emitSegment (ha : a.isOutput = true) (c : ResourceCall) :
    Effect e expand a s (s.emitSegment e expand c) := by
  unfold State.emitSegment
  dsimp only
  split
  · exact effect_quiet rfl
  · exact (effect_emitFile ha _ _).around rfl rfl rfl

theorem effect_emitAction (a : Action) : Effect e expand a s (s.emitAction e expand a) := by
  cases a with
  | text o => exact effect_emitText o
  | newLine amount => exact effect_emitNewLine amount
  | box args => exact effect_emitBox rfl args
  | call c =>
    unfold State.emitAction
    dsimp only
    split
    · exact effect_emitSegment rfl c
    · exact effect_emitImage c
  | assign a =>
    have h : Effect e expand (.assign a) s (.many ((assignStatement? a).toList.map .plain) s) :=
      effect_plain rfl
    rwa [← Option.toList_map] at h
  | generic name args =>
    refine effect_plain ?_
    split <;> rfl
  | move x y =>
    refine effect_quiet ?_
    unfold State.move
    split
    · rfl
    · rfl
    · split <;> rfl
  | font name => exact effect_quiet rfl
  | color name => exact effect_quiet rfl

end

end VippDocdef.Docdef
