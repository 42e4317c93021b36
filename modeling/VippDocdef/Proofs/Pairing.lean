import VippDocdef.Proofs.Surroundings

/-! Block `IF`s with a block `ELSE` directly behind them. The two are walked as one branch, unless
they stand in a flat `IF` that still awaits its `ELSE`: that one takes the `ELSE` of the pair. -/

set_option autoImplicit false

namespace VippDocdef.Docdef

structure BlockPair where
  pos : Position := {}
  condition : List String
  yes : List Command
  elsePos : Position := {}
  no : List Command

namespace BlockPair

def opening (x : BlockPair) : List Command := [.ifBlock x.pos x.condition x.yes]

def commands (x : BlockPair) : List Command := x.opening ++ [.elseBlock x.elsePos x.no]

theorem innerAfter?_opening (depth : Nat) (x : BlockPair) :
    innerAfter? depth x.opening = some depth := by simp [opening, innerAfter?]

theorem uniform_opening : Uniform opening :=
  .of_innerAfter (by simp [opening]) fun depth => ⟨depth, innerAfter?_opening depth⟩

theorem uniform_commands : Uniform commands where
  head := by simp [commands, opening]
  read := fun depth => ⟨depth + 1, fun x back => rfl⟩
  untilEnd := fun depth => ⟨depth, fun x back => by simp [commands, opening, untilEndIf]⟩

end BlockPair

/-- Between these siblings, every pair is walked as one branch with an `ELSE`. -/
def Joined (before back : List Command) : Prop :=
  ∃ place rest, ∀ x : BlockPair, Flow.ofCommands (before ++ (x.commands ++ back))
    = Surroundings.plug place
        (.branchElse x.condition (.ofCommands x.yes) (.ofCommands x.no) rest)

/-- Between these siblings, the `IF` of every pair ends before its `ELSE`, which is that of the
branch around it. -/
def Split (before back : List Command) : Prop :=
  ∃ outer condition inner siblings rest, ∀ x : BlockPair,
    Flow.ofCommands (before ++ (x.commands ++ back))
      = Surroundings.plug outer
          (.branchElse condition
            (Surroundings.plug inner (.branch x.condition (.ofCommands x.yes) .done))
            (.scope (.ofCommands x.no) siblings) rest)

theorem joined_of_not_awaitsElse {before : List Command} (h : ¬ AwaitsElse before)
    (back : List Command) : Joined before back := by
  obtain ⟨place, back', -, hp⟩ :=
    BlockPair.uniform_commands.located before back fun ha => absurd ha h
  refine ⟨place, .ofCommands back', fun x => ?_⟩
  rw [hp]
  simp [BlockPair.commands, BlockPair.opening, Flow.ofCommands]

section Awaiting

variable {p : Position} {condition : List String} {inside : List Command}
  (h : innerAfter? 0 inside = some 0)
include h

theorem innerAfter?_inside (x : BlockPair) : innerAfter? 0 (inside ++ x.opening) = some 0 := by
  rw [innerAfter?_append h, x.innerAfter?_opening]

theorem innerAfter?_awaiting (depth : Nat) (x : BlockPair) :
    innerAfter? depth (.ifFlat p condition :: (inside ++ x.commands)) = some (depth + 1) := by
  rw [BlockPair.commands, ← List.append_assoc]
  exact innerAfter?_ifFlat_elseBlock (innerAfter?_inside h x) ..

theorem ofCommands_awaiting (x : BlockPair) (back : List Command) :
    Flow.ofCommands (.ifFlat p condition :: (inside ++ x.commands) ++ back)
      = .branchElse condition (.ofCommands (inside ++ x.opening))
          (.scope (.ofCommands x.no) (.ofCommands (untilEndIf 0 back).1))
          (.ofCommands (untilEndIf 0 back).2) := by
  rw [← ofCommands_ifFlat_elseBlock (innerAfter?_inside h x) p x.elsePos]
  simp [BlockPair.commands]

end Awaiting

theorem split_of_awaitsElse {before : List Command} (h : AwaitsElse before) (back : List Command) :
    Split before back := by
  obtain ⟨outer, p, condition, inside, rfl, hi⟩ := h
  -- for the siblings around it, the flat `IF` up to the end of the pair is one stretch
  have hu : Uniform fun x : BlockPair => .ifFlat p condition :: (inside ++ x.commands) :=
    .of_innerAfter (by simp) fun depth => ⟨depth + 1, innerAfter?_awaiting hi depth⟩
  obtain ⟨around, back', -, hp⟩ := hu.located outer back fun _ =>
    ⟨1, fun x back => FlatIf.read_append (innerAfter?_awaiting hi 0 x) back⟩
  obtain ⟨inner, none', hnone, hq⟩ := BlockPair.uniform_opening.located inside [] fun _ =>
    ⟨0, fun x back => FlatIf.read_append (x.innerAfter?_opening 0) back⟩
  obtain rfl := List.prefix_nil.1 hnone
  refine ⟨around, condition, inner, .ofCommands (untilEndIf 0 back').1,
    .ofCommands (untilEndIf 0 back').2, fun x => ?_⟩
  have ho : Flow.ofCommands (inside ++ x.opening)
      = inner.plug (.branch x.condition (.ofCommands x.yes) .done) := by
    simpa [BlockPair.opening, Flow.ofCommands] using hq x
  rw [← ho, ← ofCommands_awaiting hi x back', ← hp x]
  simp

def Flow.countElse (condition : List String) : Flow → Nat
  | .done => 0
  | .act _ rest => rest.countElse condition
  | .branch _ yes rest => yes.countElse condition + rest.countElse condition
  | .branchElse c yes no rest =>
    (if c = condition then 1 else 0) + yes.countElse condition + no.countElse condition
      + rest.countElse condition
  | .scope body rest | .stray body rest => body.countElse condition + rest.countElse condition

theorem Surroundings.countElse_plug (condition : List String) (place : Surroundings) :
    ∃ n, ∀ f, (place.plug f).countElse condition = n + f.countElse condition := by
  refine ⟨(place.plug .done).countElse condition, fun f => ?_⟩
  induction place <;> simp only [Surroundings.plug, Flow.countElse] <;> omega

theorem not_joined_of_split {before back : List Command} (h : Split before back) :
    ¬ Joined before back := by
  rintro ⟨place, rest, hj⟩
  obtain ⟨outer, condition, inner, siblings, after, hs⟩ := h
  -- of two pairs, only one has the counted condition: the counts differ if joined, and not if split
  let x (condition : List String) : BlockPair := ⟨{}, condition, [], {}, []⟩
  obtain ⟨n, hn⟩ := place.countElse_plug ["A"]
  obtain ⟨m, hm⟩ := outer.countElse_plug ["A"]
  obtain ⟨k, hk⟩ := inner.countElse_plug ["A"]
  have count (c : List String) := congrArg (Flow.countElse ["A"]) ((hj (x c)).symm.trans (hs (x c)))
  have hA := count ["A"]
  have hB := count ["B"]
  simp [x, hn, hm, hk, Flow.countElse, Flow.ofCommands] at hA hB
  omega

theorem lines_of_joined {before back : List Command} (h : Joined before back) (x : BlockPair)
    (e : Env) (s : State) :
    ∃ t : State, Within (ifElseLines x.condition (t.emit e x.yes).block.lines
        ((t.emit e x.yes).state.emit e x.no).block.lines)
      (s.emit e (before ++ (x.commands ++ back))).block.lines := by
  obtain ⟨place, rest, hj⟩ := h
  simp only [State.emit_eq, hj]
  obtain ⟨t, ht⟩ := place.lines_plug (e.emitter (emitNested e e.project.subroutineNames.length))
    (.branchElse x.condition (.ofCommands x.yes) (.ofCommands x.no) rest) s
  rw [Flow.lines_branchElse] at ht
  exact ⟨t, ht.of_append⟩

theorem lines_of_split {before back : List Command} (h : Split before back) (x : BlockPair)
    (e : Env) (s : State) :
    ∃ (condition : List String) (yes siblings : List Line) (t u : State),
      Within (ifElseLines condition yes ((u.emit e x.no).block.lines ++ siblings))
        (s.emit e (before ++ (x.commands ++ back))).block.lines ∧
      Within (ifLines x.condition (t.emit e x.yes).block.lines) yes := by
  obtain ⟨outer, condition, inner, siblings, rest, hs⟩ := h
  simp only [State.emit_eq, hs]
  let act := e.emitter (emitNested e e.project.subroutineNames.length)
  let own := Flow.branch x.condition (.ofCommands x.yes) .done
  obtain ⟨r, hr⟩ := outer.lines_plug act
    (.branchElse condition (inner.plug own) (.scope (.ofCommands x.no) siblings) rest) s
  obtain ⟨t, ht⟩ := inner.lines_plug act own r
  rw [Flow.lines_branchElse, Flow.lines_scope] at hr
  rw [Flow.lines_branch] at ht
  exact ⟨condition, _, _, t, _, hr.of_append, ht.of_append⟩

/-- The bodies of a pair are the two branches of one `IF` exactly if the siblings before it do not
await an `ELSE`. If they do, the `IF` of the pair ends without one, and the second body is written
first behind the `ELSE` of the branch around it. -/
theorem joined_iff_not_awaitsElse (before back : List Command) :
    (Joined before back ↔ ¬ AwaitsElse before) ∧ (Split before back ↔ AwaitsElse before) ∧
    (¬ AwaitsElse before → ∀ (x : BlockPair) (e : Env) (s : State),
      ∃ t : State, Within (ifElseLines x.condition (t.emit e x.yes).block.lines
          ((t.emit e x.yes).state.emit e x.no).block.lines)
        (s.emit e (before ++ (x.commands ++ back))).block.lines) ∧
    (AwaitsElse before → ∀ (x : BlockPair) (e : Env) (s : State),
      ∃ (condition : List String) (yes siblings : List Line) (t u : State),
        Within (ifElseLines condition yes ((u.emit e x.no).block.lines ++ siblings))
          (s.emit e (before ++ (x.commands ++ back))).block.lines ∧
        Within (ifLines x.condition (t.emit e x.yes).block.lines) yes) := by
  have hj : ¬ AwaitsElse before → Joined before back := fun h => joined_of_not_awaitsElse h back
  have hs : AwaitsElse before → Split before back := fun h => split_of_awaitsElse h back
  refine ⟨⟨fun h ha => not_joined_of_split (hs ha) h, hj⟩, ⟨fun h => ?_, hs⟩,
    fun h => lines_of_joined (hj h), fun h => lines_of_split (hs h)⟩
  by_cases ha : AwaitsElse before
  · exact ha
  · exact absurd (hj ha) (not_joined_of_split h)

/-- Behind the `ELSE` of a flat `IF`, a pair keeps its own. -/
theorem joined_iff_not_awaitsElse_second :
    let before : List Command := [.ifFlat {} ["VAR_A"], .elseFlat {}]
    ¬ AwaitsElse before ∧ Joined before [.endIf {}] := by
  intro before
  have h : ¬ AwaitsElse before := by
    rintro ⟨outer, p, condition, inside, hb, hi⟩
    cases outer with
    | nil =>
      obtain ⟨-, rfl⟩ := List.cons_eq_cons.1 hb
      cases hi
    | cons c outer =>
      obtain ⟨-, hb⟩ := List.cons_eq_cons.1 hb
      cases outer with
      | nil => cases (List.cons_eq_cons.1 hb).1
      | cons d outer => simp at hb
  exact ⟨h, (joined_iff_not_awaitsElse before [.endIf {}]).1.2 h⟩

/-- In a flat `IF` without an `ELSE` of its own, the second body of a pair is run when the condition
around it fails, and not when that of the pair does. -/
theorem flatIf_takes_else_of_pair :
    let set (value : String) : Command := .act {} (.assign ⟨.set, "/VAR_X", some value, false⟩)
    let x : BlockPair := ⟨{}, ["VAR_B"], [set "1"], {}, [set "2"]⟩
    let before : List Command := [.ifFlat {} ["VAR_A"]]
    ((State.initial {}).emit {} (before ++ (x.commands ++ [.endIf {}]))).block.lines
      = [⟨0, "IF VAR_A;"⟩, ⟨0, "THEN;"⟩, ⟨1, "IF VAR_B;"⟩, ⟨1, "THEN;"⟩, ⟨2, "VAR_X = 1;"⟩,
          ⟨1, "ENDIF;"⟩, ⟨0, "ELSE;"⟩, ⟨1, "VAR_X = 2;"⟩, ⟨0, "ENDIF;"⟩] ∧
    ¬ Joined before [.endIf {}] := by
  intro set x before
  have h : AwaitsElse before := ⟨[], {}, ["VAR_A"], [], rfl, rfl⟩
  exact ⟨by decide +kernel, not_joined_of_split (split_of_awaitsElse h [.endIf {}])⟩

end VippDocdef.Docdef
