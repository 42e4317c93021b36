import VippDocdef.Command

/-! The control flow of a command list. Branches in the flat form reach over their siblings up to
the matching `ENDIF`; the first `ELSE` among them that belongs to no inner branch divides them. -/

set_option autoImplicit false

namespace VippDocdef.Docdef

inductive Flow where
  | done
  | act (action : Action) (rest : Flow)
  | branch (condition : List String) (yes : Flow) (rest : Flow)
  | branchElse (condition : List String) (yes no : Flow) (rest : Flow)
  | scope (body : Flow) (rest : Flow)
  /-- The body of an `ELSE` that no `IF` stands before. -/
  | stray (body : Flow) (rest : Flow)
  deriving DecidableEq, Repr

/-- The siblings of a flat `ELSE` up to the `ENDIF` that ends it, and those behind; `depth` inner
branches are open. -/
def untilEndIf : (depth : Nat) → List Command → List Command × List Command
  | _, [] => ([], [])
  | depth, .ifFlat p c :: rest =>
    let split := untilEndIf (depth + 1) rest
    (.ifFlat p c :: split.1, split.2)
  | 0, .endIf _ :: rest => ([], rest)
  | depth + 1, .endIf p :: rest =>
    let split := untilEndIf depth rest
    (.endIf p :: split.1, split.2)
  | depth, c :: rest =>
    let split := untilEndIf depth rest
    (c :: split.1, split.2)

structure FlatIf where
  yes : List Command
  /-- The body of the `ELSE`, if it owns one, and the siblings behind it. -/
  no : Option (List Command × List Command) := none
  after : List Command

def FlatIf.cons (c : Command) (f : FlatIf) : FlatIf := { f with yes := c :: f.yes }

/-- Divides the siblings of a flat `IF`; `depth` inner branches are open. -/
def FlatIf.read : (depth : Nat) → List Command → FlatIf
  | _, [] => ⟨[], none, []⟩
  | depth, .ifFlat p c :: rest => (FlatIf.read (depth + 1) rest).cons (.ifFlat p c)
  | 0, .endIf _ :: rest => ⟨[], none, rest⟩
  | depth + 1, .endIf p :: rest => (FlatIf.read depth rest).cons (.endIf p)
  | 0, .elseFlat _ :: rest =>
    let split := untilEndIf 0 rest
    ⟨[], some ([], split.1), split.2⟩
  | 0, .elseBlock _ body :: rest =>
    let split := untilEndIf 0 rest
    ⟨[], some (body, split.1), split.2⟩
  | depth, c :: rest => (FlatIf.read depth rest).cons c

theorem sizeOf_untilEndIf (depth : Nat) (cs : List Command) :
    sizeOf (untilEndIf depth cs).1 ≤ sizeOf cs ∧ sizeOf (untilEndIf depth cs).2 ≤ sizeOf cs := by
  fun_induction untilEndIf depth cs with
  | case1 => simp
  | case3 _ rest => simp; omega
  | case2 depth p c rest split ih => simp only [split, List.cons.sizeOf_spec]; omega
  | case4 depth p rest split ih => simp only [split, List.cons.sizeOf_spec]; omega
  | case5 depth c rest _ _ _ split ih => simp only [split, List.cons.sizeOf_spec]; omega

theorem sizeOf_flatIf (depth : Nat) (cs : List Command) :
    sizeOf (FlatIf.read depth cs).yes ≤ sizeOf cs
      ∧ sizeOf (FlatIf.read depth cs).after ≤ sizeOf cs
      ∧ ∀ no, (FlatIf.read depth cs).no = some no →
          sizeOf no.1 ≤ sizeOf cs ∧ sizeOf no.2 ≤ sizeOf cs := by
  fun_induction FlatIf.read depth cs with
  | case1 => simp
  | case2 depth p c rest ih =>
    simp only [FlatIf.cons, List.cons.sizeOf_spec]
    refine ⟨by omega, by omega, fun no h => ?_⟩
    have := ih.2.2 no h
    omega
  | case3 p rest => simp; omega
  | case4 depth p rest ih =>
    simp only [FlatIf.cons, List.cons.sizeOf_spec]
    refine ⟨by omega, by omega, fun no h => ?_⟩
    have := ih.2.2 no h
    omega
  | case5 p rest split =>
    have := sizeOf_untilEndIf 0 rest
    simp only [split, Option.some.injEq, List.cons.sizeOf_spec, forall_eq']
    simp; omega
  | case6 p body rest split =>
    have := sizeOf_untilEndIf 0 rest
    simp only [split, Option.some.injEq, List.cons.sizeOf_spec, forall_eq']
    simp; omega
  | case7 depth c rest _ _ _ _ _ ih =>
    simp only [FlatIf.cons, List.cons.sizeOf_spec]
    refine ⟨by omega, by omega, fun no h => ?_⟩
    have := ih.2.2 no h
    omega

namespace Flow

/-- The flow of a command list. Definitions and markers that nothing belongs to leave no trace. -/
def ofCommands : List Command → Flow
  | [] => .done
  | .act _ a :: rest => .act a (ofCommands rest)
  | .ifBlock _ condition yes :: .elseBlock _ no :: rest =>
    .branchElse condition (ofCommands yes) (ofCommands no) (ofCommands rest)
  | .ifBlock _ condition yes :: rest => .branch condition (ofCommands yes) (ofCommands rest)
  | .ifFlat _ condition :: rest =>
    have _size := sizeOf_flatIf 0 rest
    match _h : (FlatIf.read 0 rest).no with
    | none =>
      .branch condition (ofCommands (FlatIf.read 0 rest).yes)
        (ofCommands (FlatIf.read 0 rest).after)
    | some (body, siblings) =>
      .branchElse condition (ofCommands (FlatIf.read 0 rest).yes)
        (.scope (ofCommands body) (ofCommands siblings))
        (ofCommands (FlatIf.read 0 rest).after)
  | .elseBlock _ body :: rest => .stray (ofCommands body) (ofCommands rest)
  | .elseFlat _ :: rest | .endIf _ :: rest | .define .. :: rest => ofCommands rest
termination_by cs => sizeOf cs
decreasing_by all_goals (simp_all; try omega)

end Flow

end VippDocdef.Docdef
