import Mathlib.Data.List.Dedup
import VippDocdef.Proofs.Requests

/-! Walks inside walks. A short subroutine is expanded where it is called, by a walk of its body
inside the walk of its caller; a long one waits for a format of its own. However the subroutines of
a project call each other, every walk ends, and so does the loop over those that wait. -/

set_option autoImplicit false

namespace VippDocdef.Docdef

namespace State

/-- The subroutine that an action expands in this state, with its commands. -/
def expands? (s : State) (e : Env) : Action → Option (String × List Command)
  | .call c =>
    let file := segmentFile s.sec.cache c.name
    let name := (segmentKind file).1
    if c.kind = .segment ∧ file ≠ "" ∧ (segmentKind file).2 = .bare ∧ name ∉ s.expanding then
      ((e.project.subroutine? name).filter (·.length ≤ e.settings.inlineThreshold)).map (name, ·)
    else none
  | _ => none

def within (s : State) (name : String) : State :=
  { s with sec := { s.sec with cache := [] }, expanding := name :: s.expanding }

def pasted (name : String) (body : List Command) (inner : Emission) : Emission :=
  ⟨.statement (.plain s!"/* Inlined subroutine: {name} ({body.length} commands) */") inner.block,
    inner.state.leave.withCursor (·.release)⟩

variable {s : State} {e : Env} {a : Action} {name : String} {body : List Command}

theorem expands?_call {c : ResourceCall} (h : s.expands? e (.call c) = some (name, body)) :
    c.kind = .segment ∧ segmentFile s.sec.cache c.name ≠ "" ∧
      segmentKind (segmentFile s.sec.cache c.name) = (name, .bare) ∧ name ∉ s.expanding ∧
      e.project.subroutine? name = some body ∧ body.length ≤ e.settings.inlineThreshold := by
  simp only [expands?] at h
  split at h
  · next hcall =>
    obtain ⟨hkind, hfile, hbare, hfresh⟩ := hcall
    obtain ⟨found, hfound, hpair⟩ := Option.map_eq_some_iff.1 h
    obtain ⟨rfl, rfl⟩ := Prod.mk.inj hpair
    obtain ⟨hdefined, hshort⟩ := Option.filter_eq_some_iff.1 hfound
    exact ⟨hkind, hfile, Prod.ext rfl hbare, hfresh, hdefined, by simpa using hshort⟩
  · cases h

theorem subroutine?_of_expands? (h : s.expands? e a = some (name, body)) :
    e.project.subroutine? name = some body := by
  cases a with
  | call c => exact (expands?_call h).2.2.2.2.1
  | _ => cases h

theorem emitAction_of_expands? (h : s.expands? e a = some (name, body)) (expand : Expansion) :
    s.emitAction e expand a = pasted name body (expand body (s.within name)) := by
  cases a with
  | call c =>
    obtain ⟨hkind, hfile, hsegment, hfresh, hdefined, hshort⟩ := expands?_call h
    have hlong : ¬ e.settings.inlineThreshold < body.length := by omega
    simp [emitAction, hkind, emitSegment, hfile, emitFile, hsegment, emitSubroutine,
      hdefined, hlong, enter?, hfresh, pasted, within]
  | _ => cases h

theorem emitAction_of_not_expands? (h : s.expands? e a = none) (expand expand' : Expansion) :
    s.emitAction e expand a = s.emitAction e expand' a := by
  cases a with
  | call c =>
    unfold emitAction
    dsimp only
    split
    · next hkind =>
      unfold emitSegment
      dsimp only
      split
      · rfl
      · next hfile =>
        unfold emitFile
        split
        · next stem hsegment =>
          unfold emitSubroutine
          dsimp only
          split
          · rfl
          · next body hbody =>
            split
            · rfl
            · next hshort =>
              -- a short subroutine that is defined is expanded, unless it is being expanded
              have hstack : stem ∈ s.expanding := by
                by_contra hfresh
                simp [expands?, hkind, hfile, hsegment, hfresh, hbody] at h
                exact hshort h
              simp [enter?, hstack]
        · rfl
        · rfl
        · rfl
    · rfl
  | _ => rfl

end State

/-- The actions of a flow, each with the state in which it is handed on. -/
def Flow.handed (act : Emitter) : Flow → State → List (Action × State)
  | .done, _ => []
  | .act a rest, s =>
    let start := if s.opensOutline a then s.openOutline else s
    (a, start) :: rest.handed act (act a start).state
  | .branch _ yes rest, s => yes.handed act s ++ rest.handed act (yes.emit act s).state
  | .branchElse _ yes no rest, s =>
    let first := yes.emit act s
    yes.handed act s
      ++ (no.handed act first.state ++ rest.handed act (no.emit act first.state).state)
  | .scope body rest, s | .stray body rest, s =>
    body.handed act s ++ rest.handed act (body.emit act s).state

/-- Two ways of writing actions that agree where both are asked write the same. -/
theorem Flow.emit_eq_of_handed {act act' : Emitter} (f : Flow) (s : State)
    (h : ∀ a t, (a, t) ∈ f.handed act s → (a, t) ∈ f.handed act' s → act a t = act' a t) :
    f.emit act s = f.emit act' s ∧ f.handed act s = f.handed act' s := by
  induction f generalizing s with
  | done => exact ⟨rfl, rfl⟩
  | act a rest ih =>
    have hfirst := h a _ List.mem_cons_self List.mem_cons_self
    obtain ⟨hemit, hhanded⟩ := ih (act a (if s.opensOutline a then s.openOutline else s)).state
      fun b t hb hb' => h b t (List.mem_cons_of_mem _ hb) (List.mem_cons_of_mem _ (hfirst ▸ hb'))
    refine ⟨?_, by simp only [Flow.handed, ← hfirst, hhanded]⟩
    by_cases ha : s.opensOutline a = true
    · rw [if_pos ha] at hfirst hemit
      simp only [Flow.emit, if_pos ha, ← hfirst, hemit]
    · rw [if_neg ha] at hfirst hemit
      simp only [Flow.emit, if_neg ha, ← hfirst, hemit]
  | branch condition yes rest hy hr =>
    obtain ⟨hyes, hyes'⟩ := hy s fun a t ha ha' =>
      h a t (List.mem_append_left _ ha) (List.mem_append_left _ ha')
    obtain ⟨hrest, hrest'⟩ := hr (yes.emit act s).state fun a t ha ha' =>
      h a t (List.mem_append_right _ ha) (List.mem_append_right _ (hyes ▸ ha'))
    exact ⟨by simp only [Flow.emit, ← hyes, hrest], by simp only [Flow.handed, ← hyes,
      hyes', hrest']⟩
  | branchElse condition yes no rest hy hn hr =>
    obtain ⟨hyes, hyes'⟩ := hy s fun a t ha ha' =>
      h a t (List.mem_append_left _ ha) (List.mem_append_left _ ha')
    have hothers (a : Action) (t : State)
        (ha : (a, t) ∈ no.handed act (yes.emit act s).state
          ++ rest.handed act (no.emit act (yes.emit act s).state).state)
        (ha' : (a, t) ∈ no.handed act' (yes.emit act s).state
          ++ rest.handed act' (no.emit act' (yes.emit act s).state).state) : act a t = act' a t :=
      h a t (List.mem_append_right _ ha) (List.mem_append_right _ (hyes ▸ ha'))
    obtain ⟨hno, hno'⟩ := hn (yes.emit act s).state fun a t ha ha' =>
      hothers a t (List.mem_append_left _ ha) (List.mem_append_left _ ha')
    obtain ⟨hrest, hrest'⟩ := hr (no.emit act (yes.emit act s).state).state fun a t ha ha' =>
      hothers a t (List.mem_append_right _ ha) (List.mem_append_right _ (hno ▸ ha'))
    exact ⟨by simp only [Flow.emit, ← hyes, ← hno, hrest],
      by simp only [Flow.handed, ← hyes, ← hno, hyes', hno', hrest']⟩
  | scope body rest hb hr | stray body rest hb hr =>
    obtain ⟨hbody, hbody'⟩ := hb s fun a t ha ha' =>
      h a t (List.mem_append_left _ ha) (List.mem_append_left _ ha')
    obtain ⟨hrest, hrest'⟩ := hr (body.emit act s).state fun a t ha ha' =>
      h a t (List.mem_append_right _ ha) (List.mem_append_right _ (hbody ▸ ha'))
    exact ⟨by simp only [Flow.emit, ← hbody, hrest],
      by simp only [Flow.handed, ← hbody, hbody', hrest']⟩

theorem State.expanding_request (s : State) (name : String) :
    (s.request name).expanding = s.expanding := by
  unfold request
  split <;> rfl

theorem Step.expanding_eq {e : Env} {expand : Expansion} {a : Action} {s : State} {r : Emission}
    (hx : ∀ cs t, (expand cs t).state.expanding = t.expanding) (h : Step e expand a s r) :
    r.state.expanding = s.expanding := by
  cases h with
  | row row prints => exact row.stays.expanding
  | call isOutput defined block state => rw [state.expanding, s.expanding_request]
  | @expansion name note body inside isOutput defined fresh isNote entered block state =>
    -- the body leaves the stack with its own name on top, and that is taken off
    have hbody : (expand body inside).state.expanding = name :: s.expanding :=
      (hx body inside).trans entered.expanding
    rw [state.expanding]
    exact congrArg List.tail hbody

theorem Run.expanding_eq {act : Emitter} (hact : ∀ a s, (act a s).state.expanding = s.expanding)
    {s t : State} {actions : List Action} {written : List Statement}
    (h : Run act s actions written t) :
    t.expanding = s.expanding := by
  induction h with
  | stop s => rfl
  | hand a next ih => exact ih.trans (hact a _)
  | hoist condition next ih => exact ih
  | note next ih => exact ih
  | openOutline closed next ih => exact ih
  | closeOutline next ih => exact ih

theorem Flow.expanding_handed {act : Emitter}
    (hact : ∀ a s, (act a s).state.expanding = s.expanding)
    {f : Flow} {s t : State} {a : Action} (h : (a, t) ∈ f.handed act s) :
    t.expanding = s.expanding := by
  have hemit (f : Flow) (s : State) : (f.emit act s).state.expanding = s.expanding :=
    (f.run_emit act s).expanding_eq hact
  induction f generalizing s with
  | done => cases h
  | act b rest ih =>
    have hstart : (if s.opensOutline b then s.openOutline else s).expanding = s.expanding := by
      split <;> rfl
    rcases List.mem_cons.1 h with heq | h
    · obtain ⟨rfl, rfl⟩ := Prod.mk.inj heq
      exact hstart
    · exact (ih h).trans ((hact b _).trans hstart)
  | branch condition yes rest hy hr =>
    rcases List.mem_append.1 h with h | h
    · exact hy h
    · exact (hr h).trans (hemit yes s)
  | branchElse condition yes no rest hy hn hr =>
    rcases List.mem_append.1 h with h | h
    · exact hy h
    · rcases List.mem_append.1 h with h | h
      · exact (hn h).trans (hemit yes s)
      · exact (hr h).trans ((hemit no _).trans (hemit yes s))
  | scope body rest hb hr | stray body rest hb hr =>
    rcases List.mem_append.1 h with h | h
    · exact hb h
    · exact (hr h).trans (hemit body s)

theorem expanding_emitNested (e : Env) (depth : Nat) (cs : List Command) (s : State) :
    (emitNested e depth cs s).state.expanding = s.expanding := by
  induction depth generalizing cs s with
  | zero => rfl
  | succ depth ih =>
    refine Run.expanding_eq (fun a t => ?_) (Flow.run_emit _ _ s)
    exact (t.step_emitAction e _ a).expanding_eq ih

/-- Only subroutines are being expanded, and none of them inside itself. -/
structure State.Nested (e : Env) (s : State) : Prop where
  nodup : s.expanding.Nodup
  defined : ∀ name ∈ s.expanding, ∃ body, e.project.subroutine? name = some body

/-- The number of names that stand for a subroutine. -/
def routineCount (p : Project) : Nat := p.subroutineNames.dedup.length

theorem length_le_routineCount {p : Project} {names : List String} (hnodup : names.Nodup)
    (hdefined : ∀ name ∈ names, ∃ body, p.subroutine? name = some body) :
    names.length ≤ routineCount p := by
  have hsub : names ⊆ p.subroutineNames.dedup := by
    intro name hname
    obtain ⟨body, hbody⟩ := hdefined name hname
    exact List.mem_dedup.2 (mem_subroutineNames hbody)
  exact (List.subperm_of_subset hnodup hsub).length_le

namespace State.Nested

variable {e : Env} {s t : State}

theorem of_eq (h : s.Nested e) (ht : t.expanding = s.expanding) : t.Nested e :=
  ⟨ht ▸ h.nodup, ht ▸ h.defined⟩

theorem within (h : s.Nested e) {a : Action} {name : String} {body : List Command}
    (hx : s.expands? e a = some (name, body)) : (s.within name).Nested e := by
  cases a with
  | call c =>
    obtain ⟨-, -, -, hfresh, hdefined, -⟩ := expands?_call hx
    refine ⟨List.nodup_cons.2 ⟨hfresh, h.nodup⟩, ?_⟩
    exact List.forall_mem_cons.2 ⟨⟨body, hdefined⟩, h.defined⟩
  | _ => cases hx

theorem length_le (h : s.Nested e) : s.expanding.length ≤ routineCount e.project :=
  length_le_routineCount h.nodup h.defined

end State.Nested

/-- `Walks e depth cs s r`: the walk of `cs` from `s` ends and writes `r`. Where it expands a
subroutine, the walk of the body has ended before; `depth` walks stand inside each other at most. -/
inductive Walks (e : Env) : (depth : Nat) → List Command → State → Emission → Prop where
  | walk {depth : Nat} {cs : List Command} {s : State} (expand : Expansion)
      (inner : ∀ a t, (a, t) ∈ (Flow.ofCommands cs).handed (e.emitter expand) s →
        ∀ name body, t.expands? e a = some (name, body) →
          Walks e depth body (t.within name) (expand body (t.within name))) :
      Walks e (depth + 1) cs s ((Flow.ofCommands cs).emit (e.emitter expand) s)

theorem Walks.unique {e : Env} {depth depth' : Nat} {cs : List Command} {s : State}
    {r r' : Emission} (h : Walks e depth cs s r) (h' : Walks e depth' cs s r') : r = r' := by
  induction h generalizing depth' r' with
  | @walk depth cs s expand inner ih =>
    cases h' with
    | walk expand' inner' =>
      refine (Flow.emit_eq_of_handed _ s fun a t ha ha' => ?_).1
      show t.emitAction e expand a = t.emitAction e expand' a
      cases hx : t.expands? e a with
      | none => exact State.emitAction_of_not_expands? hx expand expand'
      | some found =>
        obtain ⟨name, body⟩ := found
        rw [State.emitAction_of_expands? hx, State.emitAction_of_expands? hx,
          ih a t ha name body hx (inner' a t ha' name body hx)]

/-- The names that are not being expanded bound how many more walks can be inside. -/
theorem walks_emitNested {e : Env} {depth : Nat} {cs : List Command} {s : State} (hs : s.Nested e)
    (hdepth : routineCount e.project < depth + s.expanding.length) :
    Walks e depth cs s (emitNested e depth cs s) := by
  induction depth generalizing cs s with
  | zero =>
    have hle := hs.length_le
    omega
  | succ depth ih =>
    refine .walk (emitNested e depth) fun a t ht name body hx => ?_
    have hexpanding : t.expanding = s.expanding := by
      refine Flow.expanding_handed (fun b u => ?_) ht
      exact (u.step_emitAction e _ b).expanding_eq (expanding_emitNested e depth)
    have hlength : (t.within name).expanding.length = s.expanding.length + 1 := by
      simp [State.within, hexpanding]
    exact ih ((hs.of_eq hexpanding).within hx) (by omega)

theorem routineCount_lt_nesting (e : Env) : routineCount e.project < e.nesting := by
  have hle := (List.dedup_sublist e.project.subroutineNames).length_le
  unfold routineCount Env.nesting
  omega

theorem walks_emit {e : Env} {s : State} (hs : s.Nested e) (cs : List Command) (depth : Nat)
    (hdepth : routineCount e.project < depth + s.expanding.length) :
    Walks e depth cs s (s.emit e cs) := by
  have hlt := routineCount_lt_nesting e
  have hemit : Walks e e.nesting cs s (s.emit e cs) := walks_emitNested hs (by omega)
  have hwalks : Walks e depth cs s (emitNested e depth cs s) := walks_emitNested hs hdepth
  exact hwalks.unique hemit ▸ hwalks

def Env.walker (e : Env) : Emitter := e.emitter fun cs s => s.emit e cs

theorem Env.expanding_walker (e : Env) (a : Action) (s : State) :
    (e.walker a s).state.expanding = s.expanding :=
  (s.step_emitAction e _ a).expanding_eq (expanding_emitNested e e.nesting)

/-- `Passes e inside cs s t`: the walk of `cs` from `s` comes through the state `t`, where `inside`
expansions are under way. -/
inductive Passes (e : Env) : (inside : Nat) → List Command → State → State → Prop where
  | start (cs : List Command) (s : State) : Passes e 0 cs s s
  | before {cs : List Command} {s t : State} {a : Action}
      (handed : (a, t) ∈ (Flow.ofCommands cs).handed e.walker s) : Passes e 0 cs s t
  | behind {cs : List Command} {s t : State} {a : Action}
      (handed : (a, t) ∈ (Flow.ofCommands cs).handed e.walker s) :
        Passes e 0 cs s (e.walker a t).state
  | within {inside : Nat} {cs : List Command} {s t u : State} {a : Action} {name : String}
      {body : List Command} (handed : (a, t) ∈ (Flow.ofCommands cs).handed e.walker s)
      (expands : t.expands? e a = some (name, body))
        (next : Passes e inside body (t.within name) u) :
      Passes e (inside + 1) cs s u

theorem Passes.nested {e : Env} {inside : Nat} {cs : List Command} {s t : State}
    (h : Passes e inside cs s t) (hs : s.Nested e) :
    t.Nested e ∧ t.expanding.length = inside + s.expanding.length := by
  have hhanded {cs : List Command} {s t : State} {a : Action}
      (ha : (a, t) ∈ (Flow.ofCommands cs).handed e.walker s) : t.expanding = s.expanding :=
    Flow.expanding_handed e.expanding_walker ha
  induction h with
  | start cs s => exact ⟨hs, by omega⟩
  | before ha => exact ⟨hs.of_eq (hhanded ha), by rw [hhanded ha]; omega⟩
  | @behind cs s t a ha =>
    have hbehind : (e.walker a t).state.expanding = s.expanding :=
      (e.expanding_walker a t).trans (hhanded ha)
    exact ⟨hs.of_eq hbehind, by rw [hbehind]; omega⟩
  | @within inside cs s t u a name body ha hx next ih =>
    obtain ⟨hnested, hlength⟩ := ih ((hs.of_eq (hhanded ha)).within hx)
    refine ⟨hnested, ?_⟩
    rw [hlength, State.within, List.length_cons, hhanded ha]
    omega

theorem emit_eq_walker {e : Env} {s : State} (hs : s.Nested e) (cs : List Command) :
    s.emit e cs = (Flow.ofCommands cs).emit e.walker s := by
  have hlt := routineCount_lt_nesting e
  have hwalks : Walks e (e.nesting + 1) cs s ((Flow.ofCommands cs).emit e.walker s) := by
    refine .walk (fun cs t => t.emit e cs) fun a t ht name body hx => ?_
    have hexpanding : t.expanding = s.expanding := Flow.expanding_handed e.expanding_walker ht
    exact walks_emit ((hs.of_eq hexpanding).within hx) body e.nesting (by omega)
  exact (walks_emit hs cs e.nesting (by omega)).unique hwalks

/-- A walk ends with what is written for its commands. On its way the subroutines that are being
expanded are different ones of the project, as many as expansions are under way, and behind it they
are those before it. -/
structure Ends (e : Env) (cs : List Command) (s : State) : Prop where
  walks : Walks e (routineCount e.project + 1 - s.expanding.length) cs s (s.emit e cs)
  unique : ∀ depth r, Walks e depth cs s r → r = s.emit e cs
  unfolds : s.emit e cs = (Flow.ofCommands cs).emit e.walker s
  restores : (s.emit e cs).state.expanding = s.expanding
  passes : ∀ inside t, Passes e inside cs s t → t.Nested e ∧
    t.expanding.length = inside + s.expanding.length ∧ t.expanding.length ≤ routineCount e.project

theorem State.Nested.ends {e : Env} {s : State} (hs : s.Nested e) (cs : List Command) :
    Ends e cs s := by
  have hle := hs.length_le
  have hwalks := walks_emit hs cs (routineCount e.project + 1 - s.expanding.length) (by omega)
  refine ⟨hwalks, fun depth r hr => hr.unique hwalks, emit_eq_walker hs cs,
    expanding_emitNested e e.nesting cs s, fun inside t ht => ?_⟩
  obtain ⟨hnested, hlength⟩ := ht.nested hs
  exact ⟨hnested, hlength, hnested.length_le⟩

/-- `WalksCases e depth cases s b`: the walks of the cases, one after the other from `s`, all end
and write the bodies `b`. -/
inductive WalksCases (e : Env) (depth : Nat) : List Case → State → Bodies → Prop where
  | nil (s : State) : WalksCases e depth [] s ⟨[], s⟩
  | cons {c : Case} {rest : List Case} {s : State} {r : Emission} {b : Bodies}
      (walk : Walks e depth c.commands (s.beginSection e caseOrigin.1 caseOrigin.2) r)
      (next : WalksCases e depth rest r.state b) :
      WalksCases e depth (c :: rest) s ⟨(c.key, r.block) :: b.bodies, b.state⟩

def State.inFormat (s : State) (e : Env) (x y : Float) (name : String) : State :=
  ((s.beginSection e x y).enter? name).getD (s.beginSection e x y)

/-- `Drains e depth x y rounds s b`: from `s`, the loop over the subroutines that wait ends after
`rounds` turns with none that waits, and writes the bodies `b`. -/
inductive Drains (e : Env) (depth : Nat) (x y : Float) :
    (rounds : Nat) → State → Bodies → Prop where
  | stop {s : State} (idle : s.nextWaiting? = none) : Drains e depth x y 0 s ⟨[], s⟩
  | skip {rounds : Nat} {s t : State} {name : String} {b : Bodies}
      (taken : s.nextWaiting? = some (name, t)) (undefined : e.project.subroutine? name = none)
      (next : Drains e depth x y rounds t b) : Drains e depth x y (rounds + 1) s b
  | format {rounds : Nat} {s t : State} {name : String} {body : List Command} {r : Emission}
      {b : Bodies}
      (taken : s.nextWaiting? = some (name, t)) (defined : e.project.subroutine? name = some body)
      (walk : Walks e depth body (t.inFormat e x y name) r)
      (next : Drains e depth x y rounds r.state.leave b) :
      Drains e depth x y (rounds + 1) s ⟨(name, r.block) :: b.bodies, b.state⟩

theorem nested_of_nil {e : Env} {s : State} (h : s.expanding = []) : s.Nested e :=
  ⟨h ▸ .nil, by simp [h]⟩

theorem walksCases_caseBodies {e : Env} {s : State} (hs : s.expanding = []) (cases : List Case) :
    WalksCases e (routineCount e.project + 1) cases s (caseBodies e cases s) ∧
      (caseBodies e cases s).state.expanding = [] := by
  induction cases generalizing s with
  | nil => exact ⟨.nil s, hs⟩
  | cons c rest ih =>
    have hstart : (s.beginSection e caseOrigin.1 caseOrigin.2).expanding = [] := hs
    have hwalk := walks_emit (e := e) (nested_of_nil hstart) c.commands (routineCount e.project + 1)
      (by omega)
    obtain ⟨hrest, hstate⟩ := ih ((expanding_emitNested e e.nesting c.commands _).trans hstart)
    exact ⟨.cons hwalk hrest, hstate⟩

theorem State.expanding_of_nextWaiting? {s t : State} {name : String}
    (h : s.nextWaiting? = some (name, t)) : t.expanding = s.expanding := by
  unfold nextWaiting? at h
  split at h
  · cases h
  · obtain ⟨-, rfl⟩ := Prod.mk.inj (Option.some.inj h)
    rfl

theorem drains_routineBodies {e : Env} (x y : Float) {most : Nat} {s : State} {ready : List String}
    (hs : s.expanding = []) (hq : s.Queued e ready)
    (hmost : e.project.subroutineNames.length < ready.length + most) :
    Drains e (routineCount e.project + 1) x y (routineBodies e x y most s).names.length s
      (routineBodies e x y most s) := by
  induction most generalizing s ready with
  | zero =>
    have hle := hq.length_le
    omega
  | succ most ih =>
    cases hnext : s.nextWaiting? with
    | none =>
      simp only [routineBodies, hnext]
      exact .stop hnext
    | some next =>
      obtain ⟨name, t⟩ := next
      obtain ⟨hq', -, body, hbody⟩ := hq.next hnext
      have ht : t.expanding = [] := (State.expanding_of_nextWaiting? hnext).trans hs
      have hstart : (t.inFormat e x y name).expanding = [name] := by
        simp [State.inFormat, State.enter?, State.beginSection, ht]
      have hnested : (t.inFormat e x y name).Nested e := ⟨by simp [hstart], by simp [hstart, hbody]⟩
      have hwalk := walks_emit hnested body (routineCount e.project + 1) (by omega)
      have hbehind : (routineBody e x y name body t).state.expanding = [] :=
        congrArg List.tail ((expanding_emitNested e e.nesting body _).trans hstart)
      have hlength : (ready ++ [name]).length = ready.length + 1 := by simp
      have hrest := ih hbehind ((asks_routineBody e x y name body t).queued _ hq') (by omega)
      simp only [routineBodies, hnext, hbody]
      exact .format (r := (t.inFormat e x y name).emit e body) hnext hbody hwalk hrest

/-- The loop over the subroutines that wait ends after no more turns than there are subroutines, and
takes none of them twice. -/
structure Finishes (e : Env) (x y : Float) (s : State) : Prop where
  drains : Drains e (routineCount e.project + 1) x y (allRoutineBodies e x y s).names.length s
    (allRoutineBodies e x y s)
  nodup : (allRoutineBodies e x y s).names.Nodup
  most : (allRoutineBodies e x y s).names.length ≤ routineCount e.project

theorem finishes_of_asks {e : Env} {s : State} {before : List Statement}
    (h : Asks e (.initial e) before s) (hs : s.expanding = []) (x y : Float) :
    Finishes e x y s := by
  have hq := h.queued [] (queued_initial e)
  have hmost : e.project.subroutineNames.length
      < ([] : List String).length + (s.waiting.length + e.nesting) := by
    unfold Env.nesting
    omega
  have hnodup := (names_allRoutineBodies h x y).1
  obtain ⟨hqueued, hwaiting, -⟩ : Drained e s [] (allRoutineBodies e x y s) :=
    drained_routineBodies e x y hq hmost
  refine ⟨drains_routineBodies x y hs hq hmost, hnodup,
    length_le_routineCount hnodup fun name hname => ?_⟩
  apply hqueued.defined
  rw [← hqueued.perm.mem_iff]
  exact List.mem_append_left _ hname

/-- Translation ends, however the subroutines of the project call themselves and each other and
whatever the threshold is that divides those that are expanded from those that are called. -/
theorem translation_ends (settings : Settings) (p : Project) :
    (∀ (renames : Option RenameTable) (cs : List Command) (s : State),
      s.Nested { settings, project := p, renames } →
      Ends { settings, project := p, renames } cs s) ∧
    (let e : Env := { settings, project := p }
      let cases := caseBodies e (formatCases p.document) (.initial e)
      WalksCases e (routineCount p + 1) (formatCases p.document) (.initial e) cases ∧
        Finishes e caseOrigin.1 caseOrigin.2 cases.state) ∧
    ∀ f : Form,
      let e : Env := { settings, project := p, renames := f.renames }
      Finishes e 0 0 (formBody e f (.initial e)).state := by
  refine ⟨fun renames cs s hs => hs.ends cs, ?_, ?_⟩
  · intro e cases
    obtain ⟨hcases, hstate⟩ := walksCases_caseBodies (e := e) (s := .initial e) rfl
      (formatCases p.document)
    exact ⟨hcases, finishes_of_asks (asks_caseBodies e _ _) hstate _ _⟩
  · intro f e
    refine finishes_of_asks (asks_formBody e f _) ?_ 0 0
    exact expanding_emitNested e e.nesting f.commands _

/-- Two short subroutines that call each other, one of which calls itself too. -/
theorem translation_ends_mutual :
    let call (name : String) : Command := .act {} (.call ⟨.segment, name, []⟩)
    let p : Project :=
      { document :=
          { subroutines := .ofList [("ONE", [call "TWO", call "ONE"]), ("TWO", [call "ONE"])] } }
    let e : Env := { project := p }
    let s : State := .initial e
    s.Nested e ∧ routineCount p = 2 ∧
      Walks e 3 [call "ONE"] s (s.emit e [call "ONE"]) ∧
      (s.emit e [call "ONE"]).state.expanding = [] ∧
      ((s.emit e [call "ONE"]).block.lines.map (·.text)).filter (·.toList.head? = some '/') =
        ["/* Inlined subroutine: ONE (2 commands) */", "/* Inlined subroutine: TWO (1 commands) */",
          "/* Recursive subroutine call: ONE */", "/* Recursive subroutine call: ONE */"] := by
  intro call p e s
  have hs : s.Nested e := nested_of_nil rfl
  have hcount : routineCount p = 2 := by decide +kernel
  obtain ⟨hwalks, -, -, hrestores, -⟩ := (translation_ends {} p).1 none [call "ONE"] s hs
  have hdepth : routineCount p + 1 - s.expanding.length = 3 := by
    rw [hcount]
    rfl
  exact ⟨hs, hcount, hdepth ▸ hwalks, hrestores, by decide +kernel⟩

end VippDocdef.Docdef
