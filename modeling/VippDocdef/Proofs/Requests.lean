import Mathlib.Data.List.Perm.Subperm
import VippDocdef.Docdef.Program
import VippDocdef.Proofs.Steps
import VippDocdef.Proofs.Visits

/-! Subroutines that are called and the formats that are written for them. The calls of a program,
those in the formats of subroutines included, are to the subroutines that got a format. -/

set_option autoImplicit false

namespace VippDocdef.Docdef

/-- The subroutines whose formats are `ready` or still to be written are those that ever asked for
one, each of them once. -/
structure State.Queued (e : Env) (s : State) (ready : List String) : Prop where
  perm : (ready ++ s.waiting).Perm s.requested
  nodup : s.requested.Nodup
  defined : ∀ name ∈ s.requested, ∃ body, e.project.subroutine? name = some body

/-- From the state `s` to the state `t`, the subroutines that the statements call asked for a
format. -/
structure Asks (e : Env) (s : State) (written : List Statement) (t : State) : Prop where
  requested : ∀ name, name ∈ t.requested ↔ name ∈ s.requested ∨ .routine name ∈ written
  queued : ∀ ready, s.Queued e ready → t.Queued e ready

namespace Asks

variable {e : Env} {s t u : State} {written written' : List Statement}

theorem of_eq (hw : t.waiting = s.waiting) (hr : t.requested = s.requested) : Asks e s [] t where
  requested name := by simp [hr]
  queued ready h := by
    refine ⟨?_, ?_, ?_⟩
    · rw [hw, hr]
      exact h.perm
    · rw [hr]
      exact h.nodup
    · rw [hr]
      exact h.defined

theorem trans (first : Asks e s written t) (second : Asks e t written' u) :
    Asks e s (written ++ written') u where
  requested name := by
    rw [second.requested, first.requested, List.mem_append, or_assoc]
  queued ready h := second.queued ready (first.queued ready h)

theorem before (h : Asks e t written u) (hw : t.waiting = s.waiting)
    (hr : t.requested = s.requested) : Asks e s written u :=
  (of_eq hw hr).trans h

theorem behind (h : Asks e s written t) (hw : u.waiting = t.waiting)
    (hr : u.requested = t.requested) : Asks e s written u := by
  simpa using h.trans (of_eq hw hr)

theorem congr (h : Asks e s written t)
    (hcalls : ∀ name, Statement.routine name ∈ written' ↔ .routine name ∈ written) :
    Asks e s written' t where
  requested name := by rw [h.requested, hcalls]
  queued := h.queued

end Asks

theorem State.mem_request (s : State) (name other : String) :
    other ∈ (s.request name).requested ↔ other ∈ s.requested ∨ other = name := by
  unfold request
  split
  · next h =>
    have hname : name ∈ s.requested := by simpa using h
    refine ⟨.inl, ?_⟩
    rintro (hother | rfl)
    · exact hother
    · exact hname
  · simp [or_comm]

theorem State.Queued.request {e : Env} {s : State} {ready : List String} (h : s.Queued e ready)
    {name : String} {body : List Command} (hbody : e.project.subroutine? name = some body) :
    (s.request name).Queued e ready := by
  unfold State.request
  split
  · exact h
  · next hnew =>
    refine ⟨?_, ?_, ?_⟩
    · show (ready ++ (s.waiting ++ [name])).Perm (name :: s.requested)
      rw [← List.append_assoc]
      exact (List.perm_append_singleton name _).trans (h.perm.cons name)
    · exact List.nodup_cons.2 ⟨by simpa using hnew, h.nodup⟩
    · rintro other (_ | ⟨_, hother⟩)
      · exact ⟨body, hbody⟩
      · exact h.defined other hother

theorem asks_request {e : Env} (s : State) {name : String} {body : List Command}
    (hbody : e.project.subroutine? name = some body) :
    Asks e s [.routine name] (s.request name) where
  requested other := by rw [State.mem_request]; simp
  queued ready h := h.request hbody

theorem Block.statements_ofList (ss : List Statement) : (Block.ofList ss).statements = ss := by
  induction ss with
  | nil => rfl
  | cons s rest ih => exact congrArg (s :: ·) ih

theorem Step.asks {e : Env} {expand : Expansion} {a : Action} {s : State} {r : Emission}
    (hx : ∀ cs t, Asks e t (expand cs t).block.statements (expand cs t).state)
    (h : Step e expand a s r) : Asks e s r.block.statements r.state := by
  cases h with
  | row row prints =>
    rw [row.block, Block.statements_ofList]
    refine (Asks.of_eq row.stays.waiting row.stays.requested).congr fun name => ?_
    simp [row.noCall name]
  | call isOutput defined block state =>
    rw [block]
    exact (asks_request s defined).behind state.waiting state.requested
  | @expansion name note body inside isOutput defined fresh isNote entered block state =>
    have hbody : Asks e s _ _ := (hx body inside).before entered.waiting entered.requested
    refine (hbody.behind state.waiting state.requested).congr fun name => ?_
    simp [block, Block.statements]

theorem Run.asks {e : Env} {act : Emitter}
    (hact : ∀ a s, Asks e s (act a s).block.statements (act a s).state) {s t : State}
    {actions : List Action} {written : List Statement} (h : Run act s actions written t) :
    Asks e s written t := by
  induction h with
  | stop s => exact .of_eq rfl rfl
  | hand a next ih => exact (hact a _).trans ih
  | hoist condition next ih => exact ih.congr fun name => by simp
  | note next ih => exact ih.congr fun name => by simp
  | openOutline closed next ih => exact ih.before rfl rfl
  | closeOutline next ih => exact ih.before rfl rfl

theorem asks_emitNested (e : Env) (depth : Nat) (cs : List Command) (s : State) :
    Asks e s (emitNested e depth cs s).block.statements (emitNested e depth cs s).state := by
  induction depth generalizing cs s with
  | zero => exact .of_eq rfl rfl
  | succ depth ih =>
    exact Run.asks (fun a t => (t.step_emitAction e _ a).asks ih) (Flow.run_emit _ _ s)

theorem asks_emit (e : Env) (cs : List Command) {s t : State} (hw : t.waiting = s.waiting)
    (hr : t.requested = s.requested) :
    Asks e s (t.emit e cs).block.statements (t.emit e cs).state :=
  (asks_emitNested e e.nesting cs t).before hw hr

namespace Bodies

def names (b : Bodies) : List String := b.bodies.map (·.1)

def statements (b : Bodies) : List Statement := b.bodies.flatMap (·.2.statements)

end Bodies

theorem asks_caseBodies (e : Env) (cases : List Case) (s : State) :
    Asks e s (caseBodies e cases s).statements (caseBodies e cases s).state := by
  induction cases generalizing s with
  | nil => exact .of_eq rfl rfl
  | cons c rest ih => exact (asks_emit e c.commands (by rfl) (by rfl)).trans (ih _)

theorem asks_formBody (e : Env) (f : Form) (s : State) :
    Asks e s (formBody e f s).block.statements (formBody e f s).state :=
  (asks_emit e f.commands (by rfl) (by rfl)).behind (by rfl) (by rfl)

theorem asks_routineBody (e : Env) (x y : Float) (name : String) (body : List Command) (s : State) :
    Asks e s (routineBody e x y name body s).block.statements
      (routineBody e x y name body s).state := by
  unfold routineBody State.enter?
  dsimp only
  split <;> exact (asks_emit e body (by rfl) (by rfl)).behind (by rfl) (by rfl)

theorem mem_subroutineNames {p : Project} {name : String} {body : List Command}
    (h : p.subroutine? name = some body) : name ∈ p.subroutineNames := by
  have hkeys {t : Table (List Command)} (ht : t.get? name = some body) : name ∈ t.keys :=
    List.mem_map_of_mem (Table.get?_eq_some.1 ht)
  unfold Project.subroutineNames
  rcases Option.or_eq_some_iff.1 h with h | ⟨-, h⟩
  · exact List.mem_append_left _ (hkeys h)
  · obtain ⟨f, hf, hbody⟩ := List.exists_of_findSome?_eq_some h
    exact List.mem_append_right _ (List.mem_flatMap_of_mem hf (hkeys hbody))

theorem State.Queued.length_le {e : Env} {s : State} {ready : List String} (h : s.Queued e ready) :
    ready.length ≤ e.project.subroutineNames.length := by
  have hsub : s.requested ⊆ e.project.subroutineNames := by
    intro name hname
    obtain ⟨body, hbody⟩ := h.defined name hname
    exact mem_subroutineNames hbody
  have hle := (List.subperm_of_subset h.nodup hsub).length_le
  have hperm := h.perm.length_eq
  rw [List.length_append] at hperm
  omega

theorem State.Queued.next {e : Env} {s s' : State} {ready : List String} {name : String}
    (h : s.Queued e ready) (hnext : s.nextWaiting? = some (name, s')) :
    s'.Queued e (ready ++ [name]) ∧ s'.requested = s.requested ∧
      ∃ body, e.project.subroutine? name = some body := by
  unfold nextWaiting? at hnext
  split at hnext
  · cases hnext
  · next first rest hwaiting =>
    obtain ⟨rfl, rfl⟩ := Prod.mk.inj (Option.some.inj hnext)
    refine ⟨⟨?_, h.nodup, h.defined⟩, rfl, ?_⟩
    · have hperm := h.perm
      rw [hwaiting] at hperm
      simpa using hperm
    · apply h.defined
      rw [← h.perm.mem_iff, hwaiting]
      simp

/-- The formats of the subroutines that wait, and of those that they ask for, are all written. -/
structure Drained (e : Env) (s : State) (ready : List String) (b : Bodies) : Prop where
  queued : b.state.Queued e (ready ++ b.names)
  waiting : b.state.waiting = []
  requested : ∀ name, name ∈ b.state.requested ↔ name ∈ s.requested ∨ .routine name ∈ b.statements

theorem drained_routineBodies (e : Env) (x y : Float) {most : Nat} {s : State} {ready : List String}
    (hq : s.Queued e ready) (hmost : e.project.subroutineNames.length < ready.length + most) :
    Drained e s ready (routineBodies e x y most s) := by
  induction most generalizing s ready with
  | zero =>
    -- cannot be: more formats would be ready than there are subroutines
    have hle := hq.length_le
    omega
  | succ most ih =>
    cases hnext : s.nextWaiting? with
    | none =>
      have hwaiting : s.waiting = [] := by
        unfold State.nextWaiting? at hnext
        split at hnext
        · assumption
        · cases hnext
      simp only [routineBodies, hnext]
      exact ⟨by simpa [Bodies.names] using hq, hwaiting, by simp [Bodies.statements]⟩
    | some next =>
      obtain ⟨name, s'⟩ := next
      obtain ⟨hq', hrequested, body, hbody⟩ := hq.next hnext
      have hfirst := asks_routineBody e x y name body s'
      have hlength : (ready ++ [name]).length = ready.length + 1 := by simp
      obtain ⟨hqueued, hwaiting, hcalls⟩ := ih (hfirst.queued _ hq') (by omega)
      simp only [routineBodies, hnext, hbody]
      refine ⟨?_, hwaiting, fun other => ?_⟩
      · simpa [Bodies.names] using hqueued
      · rw [hcalls, hfirst.requested, hrequested]
        simp [Bodies.statements, or_assoc]

theorem queued_initial (e : Env) : (State.initial e).Queued e [] :=
  ⟨.nil, .nil, by simp [State.initial]⟩

theorem names_allRoutineBodies {e : Env} {s : State} {before : List Statement}
    (h : Asks e (.initial e) before s) (x y : Float) :
    (allRoutineBodies e x y s).names.Nodup ∧ ∀ name, name ∈ (allRoutineBodies e x y s).names ↔
      .routine name ∈ before ++ (allRoutineBodies e x y s).statements := by
  have hq := h.queued [] (queued_initial e)
  obtain ⟨hqueued, hwaiting, hcalls⟩ : Drained e s [] (allRoutineBodies e x y s) :=
    drained_routineBodies e x y hq (by simp [Env.nesting]; omega)
  have hperm := hqueued.perm
  rw [hwaiting, List.append_nil, List.nil_append] at hperm
  refine ⟨hperm.nodup_iff.2 hqueued.nodup, fun name => ?_⟩
  rw [hperm.mem_iff, hcalls, h.requested]
  simp [State.initial]

end VippDocdef.Docdef
