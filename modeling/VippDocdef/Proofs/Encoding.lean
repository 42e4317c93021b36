import VippDocdef.Docdef.Walk
import VippDocdef.Proofs.Siblings

/-! The two forms of branches. A tree of structured statements can be written with flat branches,
with blocks and with any mixture of both, and the walk of the commands does not depend on the
choice. -/

set_option autoImplicit false

namespace VippDocdef

def Command.isLeaf : Command → Bool
  | .act _ _ | .define _ _ _ => true
  | .ifFlat _ _ | .ifBlock _ _ _ | .elseFlat _ | .elseBlock _ _ | .endIf _ => false

namespace Docdef

/-- A sequence of structured statements: single commands, and branches over further sequences. -/
inductive Tree where
  | done
  | leaf (command : Command) (isLeaf : command.isLeaf = true) (rest : Tree)
  | branch (condition : List String) (yes : Tree) (rest : Tree)
  | branchElse (condition : List String) (yes no : Tree) (rest : Tree)

/-- `Encodes inFlat t cs`: the commands are a way to write the tree. Each branch takes the flat form
or the block form. `inFlat` says that the sequence is itself a branch in the flat form; there, a
branch with an `ELSE` takes the flat form. -/
inductive Encodes : (inFlat : Bool) → Tree → List Command → Prop where
  | done (inFlat : Bool) : Encodes inFlat .done []
  | leaf {inFlat : Bool} {c : Command} {rest : Tree} {cs : List Command} (isLeaf : c.isLeaf = true)
      (hrest : Encodes inFlat rest cs) : Encodes inFlat (.leaf c isLeaf rest) (c :: cs)
  | flat {inFlat : Bool} {yes rest : Tree} {ys cs : List Command} (p q : Position)
      (condition : List String) (hyes : Encodes true yes ys) (hrest : Encodes inFlat rest cs) :
      Encodes inFlat (.branch condition yes rest) (.ifFlat p condition :: (ys ++ .endIf q :: cs))
  | flatElse {inFlat : Bool} {yes no rest : Tree} {ys ns cs : List Command} (p q r : Position)
      (condition : List String) (hyes : Encodes true yes ys) (hno : Encodes true no ns)
      (hrest : Encodes inFlat rest cs) :
      Encodes inFlat (.branchElse condition yes no rest)
        (.ifFlat p condition :: (ys ++ .elseFlat q :: (ns ++ .endIf r :: cs)))
  | block {inFlat : Bool} {yes rest : Tree} {ys cs : List Command} (p : Position)
      (condition : List String) (hyes : Encodes false yes ys) (hrest : Encodes inFlat rest cs) :
      Encodes inFlat (.branch condition yes rest) (.ifBlock p condition ys :: cs)
  | blockElse {yes no rest : Tree} {ys ns cs : List Command} (p q : Position)
      (condition : List String) (hyes : Encodes false yes ys) (hno : Encodes false no ns)
      (hrest : Encodes false rest cs) :
      Encodes false (.branchElse condition yes no rest)
        (.ifBlock p condition ys :: .elseBlock q ns :: cs)

theorem Encodes.innerAfter {inFlat : Bool} {t : Tree} {cs : List Command} (h : Encodes inFlat t cs)
    (hf : inFlat = true) (depth : Nat) : innerAfter? depth cs = some depth := by
  induction h generalizing depth with
  | done => rfl
  | @leaf _ c _ cs isLeaf hrest ih =>
    have hc : innerAfter? depth (c :: cs) = innerAfter? depth cs := by
      cases c <;> simp_all [Command.isLeaf, innerAfter?]
    rw [hc, ih hf]
  | flat p q condition hyes hrest ihyes ihrest =>
    simp [innerAfter?, innerAfter?_append (ihyes rfl (depth + 1)), ihrest hf]
  | flatElse p q r condition hyes hno hrest ihyes ihno ihrest =>
    simp [innerAfter?, innerAfter?_append (ihyes rfl (depth + 1)),
      innerAfter?_append (ihno rfl (depth + 1)), ihrest hf]
  | block p condition hyes hrest ihyes ihrest => simp [innerAfter?, ihrest hf]
  | blockElse => cases hf

theorem Encodes.head {inFlat : Bool} {t : Tree} {cs : List Command} (h : Encodes inFlat t cs)
    (q : Position) (no : List Command) : cs.head? ≠ some (.elseBlock q no) := by
  cases h <;> simp
  next isLeaf _ => rintro rfl; cases isLeaf

def Tree.flow : Tree → Flow
  | .done => .done
  | .leaf (.act _ a) _ rest => .act a rest.flow
  | .leaf _ _ rest => rest.flow
  | .branch condition yes rest => .branch condition yes.flow rest.flow
  | .branchElse condition yes no rest => .branchElse condition yes.flow no.flow rest.flow

theorem Encodes.emit_eq {inFlat : Bool} {t : Tree} {cs : List Command} (h : Encodes inFlat t cs)
    (act : Emitter) (s : State) : (Flow.ofCommands cs).emit act s = t.flow.emit act s := by
  induction h generalizing s with
  | done => simp [Flow.ofCommands, Tree.flow]
  | @leaf _ c _ cs isLeaf hrest ih =>
    cases c with
    | act p a => simp [Flow.ofCommands, Tree.flow, Flow.emit, ih]
    | define p name body => simp [Flow.ofCommands, Tree.flow, ih]
    | _ => cases isLeaf
  | flat p q condition hyes hrest ihyes ihrest =>
    rw [ofCommands_ifFlat_endIf (hyes.innerAfter rfl 0)]
    simp [Tree.flow, Flow.emit, ihyes, ihrest]
  | flatElse p q r condition hyes hno hrest ihyes ihno ihrest =>
    -- a flat `ELSE` has no body: its scope is empty and writes nothing
    rw [ofCommands_ifFlat_elseFlat (hyes.innerAfter rfl 0) (hno.innerAfter rfl 0)]
    simp [Tree.flow, Flow.emit, ihyes, ihno, ihrest, Emission.quiet]
  | block p condition hyes hrest ihyes ihrest =>
    rw [ofCommands_ifBlock hrest.head]
    simp [Tree.flow, Flow.emit, ihyes, ihrest]
  | blockElse p q condition hyes hno hrest ihyes ihno ihrest =>
    simp [Flow.ofCommands, Tree.flow, Flow.emit, ihyes, ihno, ihrest]

/-- Two ways to write a tree have the same statements and leave the same state. -/
theorem emit_eq_of_encodes {t : Tree} {cs cs' : List Command} (h : Encodes false t cs)
    (h' : Encodes false t cs') (e : Env) (s : State) : s.emit e cs = s.emit e cs' := by
  rw [State.emit_eq, State.emit_eq, h.emit_eq, h'.emit_eq]

/-- A branch in a branch, once with all markers as siblings and once with blocks around a flat
branch. -/
theorem emit_eq_of_encodes_nested :
    let a : Action := .newLine none
    let b : Action := .font "F1"
    let flat : List Command :=
      [.ifFlat {} ["A"], .ifFlat {} ["B"], .act {} a, .elseFlat {}, .act {} b, .endIf {},
        .elseFlat {}, .ifFlat {} ["C"], .act {} b, .endIf {}, .endIf {}, .act {} a]
    let mixed : List Command :=
      [.ifBlock {} ["A"] [.ifBlock {} ["B"] [.act {} a], .elseBlock {} [.act {} b]],
        .elseBlock {} [.ifFlat {} ["C"], .act {} b, .endIf {}], .act {} a]
    ∃ t, Encodes false t flat ∧ Encodes false t mixed ∧
      ∀ (e : Env) (s : State), s.emit e flat = s.emit e mixed := by
  intro a b flat mixed
  have leaf (inFlat : Bool) (x : Action) :
      Encodes inFlat (.leaf (.act {} x) rfl .done) [.act {} x] := .leaf rfl (.done inFlat)
  have hb := Encodes.flatElse {} {} {} ["B"] (leaf true a) (leaf true b) (.done true)
  have hc (inFlat : Bool) := Encodes.flat {} {} ["C"] (leaf true b) (.done inFlat)
  have h : Encodes false _ flat := .flatElse {} {} {} ["A"] hb (hc true) (leaf false a)
  have hb' := Encodes.blockElse {} {} ["B"] (leaf false a) (leaf false b) (.done false)
  have h' : Encodes false _ mixed := .blockElse {} {} ["A"] hb' (hc false) (leaf false a)
  exact ⟨_, h, h', emit_eq_of_encodes h h'⟩

end Docdef

end VippDocdef
