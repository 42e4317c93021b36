import VippDocdef.Docdef.Walk

/-! What a walk does with the actions of a command list. However the markers of branches are
arranged, every action outside the definitions is handed on once, in the order of the source. -/

set_option autoImplicit false

namespace VippDocdef

namespace Command

mutual

def leavesOf : Command → List Action
  | .act _ a => [a]
  | .ifBlock _ _ body | .elseBlock _ body => leaves body
  | .ifFlat _ _ | .elseFlat _ | .endIf _ | .define _ _ _ => []

def leaves : List Command → List Action
  | [] => []
  | c :: cs => leavesOf c ++ leaves cs

end

inductive Visit where
  | test (condition : List String)
  | act (a : Action)

def Visit.action? : Visit → Option Action
  | .test _ => none
  | .act a => some a

def Visit.condition? : Visit → Option (List String)
  | .test condition => some condition
  | .act _ => none

mutual

def visitsOf : Command → List Visit
  | .act _ a => [.act a]
  | .ifBlock _ condition body => .test condition :: visits body
  | .ifFlat _ condition => [.test condition]
  | .elseBlock _ body => visits body
  | .elseFlat _ | .endIf _ | .define _ _ _ => []

/-- The conditions and the actions of a command list, depth first and outside its definitions. -/
def visits : List Command → List Visit
  | [] => []
  | c :: cs => visitsOf c ++ visits cs

end

mutual

theorem leavesOf_eq : (c : Command) → leavesOf c = (visitsOf c).filterMap Visit.action?
  | .act _ _ | .ifFlat _ _ | .elseFlat _ | .endIf _ | .define _ _ _ => rfl
  | .ifBlock _ _ body | .elseBlock _ body => leaves_eq body

theorem leaves_eq : (cs : List Command) → leaves cs = (visits cs).filterMap Visit.action?
  | [] => rfl
  | c :: cs => by rw [leaves, visits, List.filterMap_append, leavesOf_eq c, leaves_eq cs]

end

def conditions (cs : List Command) : List (List String) := (visits cs).filterMap Visit.condition?

end Command

namespace Docdef
open Command (leaves leavesOf visits visitsOf Visit)

theorem visits_untilEndIf (depth : Nat) (cs : List Command) :
    visits (untilEndIf depth cs).1 ++ visits (untilEndIf depth cs).2 = visits cs := by
  fun_induction untilEndIf depth cs with
  | case1 => rfl
  | case2 depth p c rest split ih => simpa [visits, visitsOf] using ih
  | case3 p rest => simp [visits, visitsOf]
  | case4 depth p rest split ih => simpa [visits, visitsOf] using ih
  | case5 depth c rest h₁ h₂ h₃ split ih => simpa [visits] using ih

def FlatIf.noVisits (f : FlatIf) : List Visit :=
  f.no.elim [] fun no => visits no.1 ++ visits no.2

/-- The branches of a flat `IF` and what follows it tile its siblings. -/
theorem visits_flatIf (depth : Nat) (cs : List Command) :
    visits (FlatIf.read depth cs).yes
      ++ ((FlatIf.read depth cs).noVisits ++ visits (FlatIf.read depth cs).after) = visits cs := by
  fun_induction FlatIf.read depth cs with
  | case1 => rfl
  | case2 depth p c rest ih => simpa [FlatIf.cons, FlatIf.noVisits, visits, visitsOf] using ih
  | case3 p rest => simp [FlatIf.noVisits, visits, visitsOf]
  | case4 depth p rest ih => simpa [FlatIf.cons, FlatIf.noVisits, visits, visitsOf] using ih
  | case5 p rest split =>
    have h := visits_untilEndIf 0 rest
    simpa [FlatIf.noVisits, visits, visitsOf, split] using h
  | case6 p body rest split =>
    have h := visits_untilEndIf 0 rest
    simpa [FlatIf.noVisits, visits, visitsOf, split] using h
  | case7 depth c rest h₁ h₂ h₃ h₄ h₅ ih =>
    simpa [FlatIf.cons, FlatIf.noVisits, visits] using ih

def FlatIf.noLeaves (f : FlatIf) : List Action :=
  f.no.elim [] fun no => leaves no.1 ++ leaves no.2

theorem FlatIf.noLeaves_eq (f : FlatIf) : f.noLeaves = f.noVisits.filterMap Visit.action? := by
  unfold noLeaves noVisits
  cases f.no with
  | none => rfl
  | some no => simp [Command.leaves_eq]

theorem leaves_flatIf (depth : Nat) (cs : List Command) :
    leaves (FlatIf.read depth cs).yes
      ++ ((FlatIf.read depth cs).noLeaves ++ leaves (FlatIf.read depth cs).after) = leaves cs := by
  simp only [Command.leaves_eq, FlatIf.noLeaves_eq, ← List.filterMap_append, visits_flatIf]

def Flow.visits : Flow → List Visit
  | .done => []
  | .act a rest => .act a :: rest.visits
  | .branch condition yes rest => .test condition :: (yes.visits ++ rest.visits)
  | .branchElse condition yes no rest =>
    .test condition :: (yes.visits ++ (no.visits ++ rest.visits))
  | .scope body rest | .stray body rest => body.visits ++ rest.visits

theorem visits_ofCommands (cs : List Command) : (Flow.ofCommands cs).visits = visits cs := by
  fun_induction Flow.ofCommands cs with
  | case1 => rfl
  | case2 p a rest ih => simp [Flow.visits, visits, visitsOf, ih]
  | case3 p c yes q no rest hyes hno hrest =>
    simp [Flow.visits, visits, visitsOf, hyes, hno, hrest]
  | case4 p c yes rest _ hyes hrest => simp [Flow.visits, visits, visitsOf, hyes, hrest]
  | case5 p c rest _ hno hyes hafter =>
    have h := visits_flatIf 0 rest
    simp only [FlatIf.noVisits, hno, Option.elim_none, List.nil_append] at h
    simpa [Flow.visits, visits, visitsOf, hyes, hafter] using h
  | case6 p c rest _ body siblings hno hyes hbody hsiblings hafter =>
    have h := visits_flatIf 0 rest
    simp only [FlatIf.noVisits, hno, Option.elim_some] at h
    simpa [Flow.visits, visits, visitsOf, hyes, hbody, hsiblings, hafter] using h
  | case7 p body rest hbody hrest => simp [Flow.visits, visits, visitsOf, hbody, hrest]
  | case8 p rest ih => simpa [visits, visitsOf] using ih
  | case9 p rest ih => simpa [visits, visitsOf] using ih
  | case10 p name body rest ih => simpa [visits, visitsOf] using ih

def Flow.actions : Flow → List Action
  | .done => []
  | .act a rest => a :: rest.actions
  | .branch _ yes rest => yes.actions ++ rest.actions
  | .branchElse _ yes no rest => yes.actions ++ (no.actions ++ rest.actions)
  | .scope body rest | .stray body rest => body.actions ++ rest.actions

theorem Flow.actions_eq (f : Flow) : f.actions = f.visits.filterMap Visit.action? := by
  induction f <;> simp_all [actions, visits, Visit.action?, List.filterMap_cons]

theorem actions_ofCommands (cs : List Command) : (Flow.ofCommands cs).actions = leaves cs := by
  rw [Flow.actions_eq, visits_ofCommands, Command.leaves_eq]

def Block.statements : Block → List Statement
  | .done => []
  | .statement s rest => s :: rest.statements
  | .ifThen _ yes rest => yes.statements ++ rest.statements
  | .ifThenElse _ yes no rest => yes.statements ++ (no.statements ++ rest.statements)
  | .outline body rest => body.statements ++ rest.statements

@[simp] theorem Block.statements_append (a b : Block) :
    (a ++ b).statements = a.statements ++ b.statements := by
  show (a.append b).statements = _
  induction a <;> simp_all [Block.append, Block.statements]

@[simp] theorem Condition.statements_before (c : Condition) (b : Block) :
    (c.before b).statements = c.hoisted.map .plain ++ b.statements := by
  unfold Condition.before
  induction c.hoisted with
  | nil => rfl
  | cons text rest ih => simp [Block.statements, ih]

/-- `Run act s actions written t`: from the state `s`, the actions are handed to `act` one after the
other, each in the state that the one before it left, and nothing else is written than what they
write, what conditions hoist and the notes on stray `ELSE`s. Between two actions an outline may open
or end. -/
inductive Run (act : Emitter) : State → List Action → List Statement → State → Prop where
  | stop (s : State) : Run act s [] [] s
  | hand {s t : State} {actions : List Action} {written : List Statement} (a : Action)
      (next : Run act (act a s).state actions written t) :
      Run act s (a :: actions) ((act a s).block.statements ++ written) t
  | hoist {s t : State} {actions : List Action} {written : List Statement} (condition : List String)
      (next : Run act s actions written t) :
      Run act s actions ((Condition.ofAtoms condition).hoisted.map .plain ++ written) t
  | note {s t : State} {actions : List Action} {written : List Statement}
      (next : Run act s actions written t) : Run act s actions (.plain strayElse :: written) t
  | openOutline {s t : State} {actions : List Action} {written : List Statement}
      (closed : s.sec.outlineOpen = false) (next : Run act s.openOutline actions written t) :
      Run act s actions written t
  | closeOutline {s t : State} {actions : List Action} {written : List Statement}
      (next : Run act s.closeOutline actions written t) : Run act s actions written t

theorem Run.append {act : Emitter} {s t u : State} {actions actions' : List Action}
    {written written' : List Statement} (first : Run act s actions written t)
    (second : Run act t actions' written' u) :
    Run act s (actions ++ actions') (written ++ written') u := by
  induction first with
  | stop s => exact second
  | hand a next ih => rw [List.append_assoc]; exact .hand a (ih second)
  | hoist condition next ih => rw [List.append_assoc]; exact .hoist condition (ih second)
  | note next ih => exact .note (ih second)
  | openOutline closed next ih => exact .openOutline closed (ih second)
  | closeOutline next ih => exact .closeOutline (ih second)

theorem Flow.run_emit (act : Emitter) (f : Flow) (s : State) :
    Run act s f.actions (f.emit act s).block.statements (f.emit act s).state := by
  induction f generalizing s with
  | done => exact .stop s
  | act a rest ih =>
    by_cases ha : s.opensOutline a = true
    · have hs : s.sec.outlineOpen = false := by
        simp only [State.opensOutline, Bool.and_eq_true, Bool.not_eq_true'] at ha
        exact ha.2
      -- the outline lasts to the end of the list, so the rest runs inside it
      have hr := (ih (act a s.openOutline).state).append (.closeOutline (.stop _))
      simpa [Flow.emit, ha, Flow.actions, Block.statements] using Run.openOutline hs (.hand a hr)
    · simpa [Flow.emit, ha, Flow.actions] using Run.hand a (ih (act a s).state)
  | branch condition yes rest hy hr =>
    have h := (hy s).append (hr _)
    simpa [Flow.emit, Flow.actions, Block.statements] using Run.hoist condition h
  | branchElse condition yes no rest hy hn hr =>
    have h := (hy s).append ((hn _).append (hr _))
    simpa [Flow.emit, Flow.actions, Block.statements] using Run.hoist condition h
  | scope body rest hb hr =>
    simpa [Flow.emit, Flow.actions, Block.statements] using (hb s).append (hr _)
  | stray body rest hb hr =>
    simpa [Flow.emit, Flow.actions, Block.statements] using Run.note ((hb s).append (hr _))

theorem Flow.emit_congr {act act' : Emitter} {f : Flow}
    (h : ∀ a ∈ f.actions, ∀ s, act a s = act' a s) (s : State) : f.emit act s = f.emit act' s := by
  induction f generalizing s with
  | done => rfl
  | act a rest ih =>
    have ha := h a (by simp [Flow.actions])
    have hr := ih fun b hb => h b (by simp [Flow.actions, hb])
    simp only [Flow.emit, ha, hr]
  | branch condition yes rest hy hr =>
    have hy := hy fun b hb => h b (by simp [Flow.actions, hb])
    have hr := hr fun b hb => h b (by simp [Flow.actions, hb])
    simp only [Flow.emit, hy, hr]
  | branchElse condition yes no rest hy hn hr =>
    have hy := hy fun b hb => h b (by simp [Flow.actions, hb])
    have hn := hn fun b hb => h b (by simp [Flow.actions, hb])
    have hr := hr fun b hb => h b (by simp [Flow.actions, hb])
    simp only [Flow.emit, hy, hn, hr]
  | scope body rest hb hr | stray body rest hb hr =>
    have hb := hb fun b hb => h b (by simp [Flow.actions, hb])
    have hr := hr fun b hb => h b (by simp [Flow.actions, hb])
    simp only [Flow.emit, hb, hr]

theorem emitNested_congr {e e' : Env}
    (h : ∀ (expand : Expansion) (a : Action) (s : State), s.emitAction e expand a
      = s.emitAction e' expand a)
    (depth : Nat) : emitNested e depth = emitNested e' depth := by
  induction depth with
  | zero => rfl
  | succ depth ih =>
    funext commands s
    simp only [emitNested, ih]
    exact Flow.emit_congr (fun a _ t => h _ a t) s

theorem State.emitAction_congr {a : Action} (h : ∀ c, a ≠ .call c) (s : State) (e : Env)
    (expand expand' : Expansion) : s.emitAction e expand a = s.emitAction e expand' a := by
  cases a with
  | call c => exact absurd rfl (h c)
  | _ => rfl

/-- The walk of a list without calls is the flow of its commands, and this hands on every action
outside the definitions once and in the order of the source, whatever is then done with it. -/
theorem emit_hands_on_leaves (cs : List Command) (hcs : ∀ c, Action.call c ∉ leaves cs) :
    (∀ (e : Env) (expand : Expansion) (s : State),
      s.emit e cs = (Flow.ofCommands cs).emit (e.emitter expand) s) ∧
    ∀ (act : Emitter) (s : State),
      Run act s (leaves cs) ((Flow.ofCommands cs).emit act s).block.statements
        ((Flow.ofCommands cs).emit act s).state := by
  constructor
  · intro e expand s
    rw [State.emit_eq]
    apply Flow.emit_congr
    intro a ha t
    rw [actions_ofCommands] at ha
    apply State.emitAction_congr
    rintro c rfl
    exact hcs c ha
  · intro act s
    rw [← actions_ofCommands]
    exact Flow.run_emit act _ s

/-- A flat `IF` with a block `ELSE`, a second `ELSE` and no `ENDIF`. -/
theorem emit_hands_on_leaves_unclosed :
    let cs : List Command :=
      [.ifFlat {} ["A"], .act {} (.text ⟨"SH", "(a)", false, none, none, none⟩),
        .elseBlock {} [.act {} (.newLine none)],
        .define {} "S" [.act {} (.font "F1")], .elseFlat {},
        .ifBlock {} ["B"] [.act {} (.text ⟨"SH", "(b)", false, none, none, none⟩)]]
    let actions : List Action :=
      [.text ⟨"SH", "(a)", false, none, none, none⟩, .newLine none,
        .text ⟨"SH", "(b)", false, none, none, none⟩]
    (∀ c, Action.call c ∉ actions) ∧ ∀ (act : Emitter) (s : State),
      Run act s actions ((Flow.ofCommands cs).emit act s).block.statements
        ((Flow.ofCommands cs).emit act s).state := by
  intro cs actions
  have ha : leaves cs = actions := by decide
  have hc : ∀ c, Action.call c ∉ actions := by simp [actions]
  refine ⟨hc, fun act s => ?_⟩
  rw [← ha]
  exact (emit_hands_on_leaves cs (ha ▸ hc)).2 act s

end Docdef

end VippDocdef
