import VippDocdef.Proofs.Siblings
import VippDocdef.Proofs.Visits

/-! Places in a flow. A stretch of siblings that the branches around it do not divide stands
somewhere in the flow of the whole list. What stands around it there does not depend on the stretch,
and what stands in front of it not on the siblings behind either. -/

set_option autoImplicit false

namespace VippDocdef.Docdef
open Command (leaves leavesOf)

/-- A flow with one place left open, in the list itself or in the flat branches around the place. -/
inductive Surroundings where
  | here
  | act (action : Action) (place : Surroundings)
  | branch (condition : List String) (yes : Flow) (place : Surroundings)
  | branchElse (condition : List String) (yes no : Flow) (place : Surroundings)
  | stray (body : Flow) (place : Surroundings)
  /-- In the only branch. -/
  | only (condition : List String) (place : Surroundings) (rest : Flow)
  | first (condition : List String) (place : Surroundings) (no rest : Flow)
  /-- In the second branch, behind the body of the `ELSE`. -/
  | second (condition : List String) (yes body : Flow) (place : Surroundings) (rest : Flow)

def Surroundings.plug : Surroundings → Flow → Flow
  | .here, f => f
  | .act a place, f => .act a (place.plug f)
  | .branch condition yes place, f => .branch condition yes (place.plug f)
  | .branchElse condition yes no place, f => .branchElse condition yes no (place.plug f)
  | .stray body place, f => .stray body (place.plug f)
  | .only condition place rest, f => .branch condition (place.plug f) rest
  | .first condition place no rest, f => .branchElse condition (place.plug f) no rest
  | .second condition yes body place rest, f =>
    .branchElse condition yes (.scope body (place.plug f)) rest

def Surroundings.opening : Surroundings → Surroundings
  | .here => .here
  | .act a place => .act a place.opening
  | .branch condition yes place => .branch condition yes place.opening
  | .branchElse condition yes no place => .branchElse condition yes no place.opening
  | .stray body place => .stray body place.opening
  | .only condition place _ | .first condition place _ _ => .only condition place.opening .done
  | .second condition yes body place _ => .second condition yes body place.opening .done

def Surroundings.front : Surroundings → List Action
  | .here => []
  | .act a place => a :: place.front
  | .branch _ yes place => yes.actions ++ place.front
  | .branchElse _ yes no place => yes.actions ++ (no.actions ++ place.front)
  | .stray body place => body.actions ++ place.front
  | .only _ place _ | .first _ place _ _ => place.front
  | .second _ yes body place _ => yes.actions ++ (body.actions ++ place.front)

theorem Surroundings.front_opening (place : Surroundings) : place.opening.front = place.front := by
  induction place <;> simp_all [opening, front]

def Surroundings.behind : Surroundings → List Action
  | .here => []
  | .act _ place | .branch _ _ place | .branchElse _ _ _ place | .stray _ place => place.behind
  | .only _ place rest => place.behind ++ rest.actions
  | .first _ place no rest => place.behind ++ (no.actions ++ rest.actions)
  | .second _ _ _ place rest => place.behind ++ rest.actions

theorem Surroundings.actions_plug (place : Surroundings) (f : Flow) :
    (place.plug f).actions = place.front ++ (f.actions ++ place.behind) := by
  induction place <;> simp_all [plug, front, behind, Flow.actions]

/-- The state in which the walk comes to the place. -/
def Surroundings.entry (act : Emitter) : Surroundings → State → State
  | .here, s => s
  | .act a place, s => place.entry act (act a (if s.opensOutline a then s.openOutline else s)).state
  | .branch _ yes place, s => place.entry act (yes.emit act s).state
  | .branchElse _ yes no place, s => place.entry act (no.emit act (yes.emit act s).state).state
  | .stray body place, s => place.entry act (body.emit act s).state
  | .only _ place _, s | .first _ place _ _, s => place.entry act s
  | .second _ yes body place _, s => place.entry act (body.emit act (yes.emit act s).state).state

theorem Surroundings.entry_opening (act : Emitter) (place : Surroundings) (s : State) :
    place.opening.entry act s = place.entry act s := by
  induction place generalizing s <;> simp_all [opening, entry]

def ifLines (condition : List String) (yes : List Line) : List Line :=
  flush (Condition.ofAtoms condition).hoisted
    ++ flush [(Condition.ofAtoms condition).ifLine, "THEN;"] ++ indented yes ++ flush ["ENDIF;"]

def ifElseLines (condition : List String) (yes no : List Line) : List Line :=
  flush (Condition.ofAtoms condition).hoisted
    ++ flush [(Condition.ofAtoms condition).ifLine, "THEN;"] ++ indented yes ++ flush ["ELSE;"]
    ++ indented no ++ flush ["ENDIF;"]

theorem Flow.lines_branch (act : Emitter) (condition : List String) (yes rest : Flow) (s : State) :
    ((Flow.branch condition yes rest).emit act s).block.lines
      = ifLines condition (yes.emit act s).block.lines
        ++ (rest.emit act (yes.emit act s).state).block.lines := by
  simp [Flow.emit, Condition.lines_before, Block.lines, ifLines]

theorem Flow.lines_branchElse (act : Emitter) (condition : List String) (yes no rest : Flow)
    (s : State) :
    ((Flow.branchElse condition yes no rest).emit act s).block.lines
      = ifElseLines condition (yes.emit act s).block.lines
          (no.emit act (yes.emit act s).state).block.lines
        ++ (rest.emit act (no.emit act (yes.emit act s).state).state).block.lines := by
  simp [Flow.emit, Condition.lines_before, Block.lines, ifElseLines]

theorem Flow.lines_scope (act : Emitter) (body rest : Flow) (s : State) :
    ((Flow.scope body rest).emit act s).block.lines
      = (body.emit act s).block.lines ++ (rest.emit act (body.emit act s).state).block.lines := by
  simp [Flow.emit]

/-- Some lines stand among others, at one indentation. -/
def Within (inner outer : List Line) : Prop :=
  ∃ depth above below, outer = above ++ inner.map (Line.deeper depth) ++ below

theorem Within.of_append {inner more outer : List Line} (h : Within (inner ++ more) outer) :
    Within inner outer := by
  obtain ⟨depth, above, below, rfl⟩ := h
  exact ⟨depth, above, more.map (Line.deeper depth) ++ below, by simp⟩

theorem Flow.exists_emit_eq {f : Flow} (h : f.actions = []) :
    ∃ b, ∀ (act : Emitter) (s : State), f.emit act s = ⟨b, s⟩ := by
  induction f with
  | done => exact ⟨.done, fun _ _ => rfl⟩
  | act a rest ih => cases h
  | branch condition yes rest hy hr =>
    obtain ⟨hyes, hrest⟩ := List.append_eq_nil_iff.1 h
    obtain ⟨b, hb⟩ := hy hyes
    obtain ⟨d, hd⟩ := hr hrest
    exact ⟨_, fun act s => by simp only [Flow.emit, hb, hd]; rfl⟩
  | branchElse condition yes no rest hy hn hr =>
    obtain ⟨hyes, hothers⟩ := List.append_eq_nil_iff.1 h
    obtain ⟨hno, hrest⟩ := List.append_eq_nil_iff.1 hothers
    obtain ⟨b, hb⟩ := hy hyes
    obtain ⟨c, hc⟩ := hn hno
    obtain ⟨d, hd⟩ := hr hrest
    exact ⟨_, fun act s => by simp only [Flow.emit, hb, hc, hd]; rfl⟩
  | scope body rest hb hr | stray body rest hb hr =>
    obtain ⟨hbody, hrest⟩ := List.append_eq_nil_iff.1 h
    obtain ⟨b, hb⟩ := hb hbody
    obtain ⟨d, hd⟩ := hr hrest
    exact ⟨_, fun act s => by simp only [Flow.emit, hb, hd]; rfl⟩

/-- What stands around the lines of a place, and becomes of the state behind it, comes from that
state alone; from nothing at all where no action stands behind the place. -/
theorem Surroundings.emit_plug (act : Emitter) (place : Surroundings) (s : State) :
    ∃ (depth : Nat) (above : List Line) (below : State → List Line) (final : State → State),
      (∀ f : Flow, ((place.plug f).emit act s).block.lines
          = above ++ (f.emit act (place.entry act s)).block.lines.map (Line.deeper depth)
            ++ below (f.emit act (place.entry act s)).state ∧
        ((place.plug f).emit act s).state = final (f.emit act (place.entry act s)).state) ∧
      (place.behind = [] → ∀ u v, below u = below v) := by
  induction place generalizing s with
  | here =>
    refine ⟨0, [], fun _ => [], id, fun f => ⟨?_, rfl⟩, fun _ _ _ => rfl⟩
    simp [plug, entry, show Line.deeper 0 = id from funext Line.deeper_zero]
  | act a place ih =>
    by_cases ha : s.opensOutline a = true
    · obtain ⟨depth, above, below, final, hplug, hbelow⟩ := ih (act a s.openOutline).state
      refine ⟨1 + depth, Block.outlineHead ++ indented ((act a s.openOutline).block.lines ++ above),
        fun u => indented (below u) ++ flush ["ENDIO;"], fun u => (final u).closeOutline,
        fun f => ?_, fun h u v => by simp only [hbelow h u v]⟩
      obtain ⟨hlines, hstate⟩ := hplug f
      simp [plug, Flow.emit, entry, ha, Block.lines, indented, hlines, hstate, Function.comp_def]
    · obtain ⟨depth, above, below, final, hplug, hbelow⟩ := ih (act a s).state
      refine ⟨depth, (act a s).block.lines ++ above, below, final, fun f => ?_, hbelow⟩
      obtain ⟨hlines, hstate⟩ := hplug f
      simp [plug, Flow.emit, entry, ha, hlines, hstate]
  | branch condition yes place ih =>
    obtain ⟨depth, above, below, final, hplug, hbelow⟩ := ih (yes.emit act s).state
    refine ⟨depth, ifLines condition (yes.emit act s).block.lines ++ above, below, final,
      fun f => ?_, hbelow⟩
    obtain ⟨hlines, hstate⟩ := hplug f
    refine ⟨?_, by simp only [plug, Flow.emit, entry, hstate]⟩
    rw [plug, Flow.lines_branch, hlines]
    simp [entry]
  | branchElse condition yes no place ih =>
    obtain ⟨depth, above, below, final, hplug, hbelow⟩ :=
      ih (no.emit act (yes.emit act s).state).state
    refine ⟨depth, ifElseLines condition (yes.emit act s).block.lines
        (no.emit act (yes.emit act s).state).block.lines ++ above, below, final, fun f =>
          ?_, hbelow⟩
    obtain ⟨hlines, hstate⟩ := hplug f
    refine ⟨?_, by simp only [plug, Flow.emit, entry, hstate]⟩
    rw [plug, Flow.lines_branchElse, hlines]
    simp [entry]
  | stray body place ih =>
    obtain ⟨depth, above, below, final, hplug, hbelow⟩ := ih (body.emit act s).state
    refine ⟨depth, (Statement.plain strayElse).lines ++ (body.emit act s).block.lines ++ above,
      below, final, fun f => ⟨?_, (hplug f).2⟩, hbelow⟩
    simp [plug, Flow.emit, entry, Block.lines, (hplug f).1]
  | only condition place rest ih =>
    obtain ⟨depth, above, below, final, hplug, hbelow⟩ := ih s
    refine ⟨1 + depth, flush (Condition.ofAtoms condition).hoisted
        ++ flush [(Condition.ofAtoms condition).ifLine, "THEN;"] ++ indented above,
      fun u => indented (below u) ++ flush ["ENDIF;"] ++ (rest.emit act (final u)).block.lines,
      fun u => (rest.emit act (final u)).state, fun f => ?_, fun h u v => ?_⟩
    · obtain ⟨hlines, hstate⟩ := hplug f
      refine ⟨?_, by simp only [plug, Flow.emit, entry, hstate]⟩
      rw [plug, Flow.lines_branch, hlines, hstate]
      simp [ifLines, indented, entry, Function.comp_def]
    · obtain ⟨hplace, hrest⟩ := List.append_eq_nil_iff.1 h
      obtain ⟨b, hb⟩ := Flow.exists_emit_eq hrest
      simp only [hbelow hplace u v, hb]
  | first condition place no rest ih =>
    obtain ⟨depth, above, below, final, hplug, hbelow⟩ := ih s
    refine ⟨1 + depth, flush (Condition.ofAtoms condition).hoisted
        ++ flush [(Condition.ofAtoms condition).ifLine, "THEN;"] ++ indented above,
      fun u => indented (below u) ++ flush ["ELSE;"] ++ indented (no.emit act (final u)).block.lines
        ++ flush ["ENDIF;"] ++ (rest.emit act (no.emit act (final u)).state).block.lines,
      fun u => (rest.emit act (no.emit act (final u)).state).state, fun f => ?_, fun h u v => ?_⟩
    · obtain ⟨hlines, hstate⟩ := hplug f
      refine ⟨?_, by simp only [plug, Flow.emit, entry, hstate]⟩
      rw [plug, Flow.lines_branchElse, hlines, hstate]
      simp [ifElseLines, indented, entry, Function.comp_def]
    · obtain ⟨hplace, hothers⟩ := List.append_eq_nil_iff.1 h
      obtain ⟨hno, hrest⟩ := List.append_eq_nil_iff.1 hothers
      obtain ⟨b, hb⟩ := Flow.exists_emit_eq hno
      obtain ⟨d, hd⟩ := Flow.exists_emit_eq hrest
      simp only [hbelow hplace u v, hb, hd]
  | second condition yes body place rest ih =>
    obtain ⟨depth, above, below, final, hplug, hbelow⟩ :=
      ih (body.emit act (yes.emit act s).state).state
    refine ⟨1 + depth, flush (Condition.ofAtoms condition).hoisted
        ++ flush [(Condition.ofAtoms condition).ifLine, "THEN;"]
        ++ indented (yes.emit act s).block.lines ++ flush ["ELSE;"]
        ++ indented ((body.emit act (yes.emit act s).state).block.lines ++ above),
      fun u => indented (below u) ++ flush ["ENDIF;"] ++ (rest.emit act (final u)).block.lines,
      fun u => (rest.emit act (final u)).state, fun f => ?_, fun h u v => ?_⟩
    · obtain ⟨hlines, hstate⟩ := hplug f
      refine ⟨?_, by simp only [plug, Flow.emit, entry, hstate]⟩
      rw [plug, Flow.lines_branchElse, Flow.lines_scope, hlines]
      simp [Flow.emit, ifElseLines, indented, entry, Function.comp_def, hstate]
    · obtain ⟨hplace, hrest⟩ := List.append_eq_nil_iff.1 h
      obtain ⟨b, hb⟩ := Flow.exists_emit_eq hrest
      simp only [hbelow hplace u v, hb]

theorem Surroundings.lines_plug (place : Surroundings) (act : Emitter) (f : Flow) (s : State) :
    ∃ t, Within (f.emit act t).block.lines ((place.plug f).emit act s).block.lines := by
  obtain ⟨depth, above, below, final, hplug, -⟩ := place.emit_plug act s
  exact ⟨place.entry act s, depth, above, _, (hplug f).1⟩

/-- Some siblings end inside a flat `IF` that has had no `ELSE` yet, at the level of its own
markers. -/
def AwaitsElse (before : List Command) : Prop :=
  ∃ outer p condition inside, before = outer ++ .ifFlat p condition :: inside ∧
    innerAfter? 0 inside = some 0

theorem AwaitsElse.of_suffix {before part : List Command} (h : AwaitsElse part)
    (suffix : part <:+ before) : AwaitsElse before := by
  obtain ⟨outer, p, condition, inside, rfl, hi⟩ := h
  obtain ⟨more, rfl⟩ := suffix
  exact ⟨more ++ outer, p, condition, inside, by simp, hi⟩

def EndsInIf (before : List Command) : Prop :=
  ∃ p condition yes, before.getLast? = some (.ifBlock p condition yes)

theorem EndsInIf.of_suffix {before part : List Command} (h : EndsInIf part)
    (suffix : part <:+ before) :
    EndsInIf before := by
  obtain ⟨p, condition, yes, h⟩ := h
  obtain ⟨more, rfl⟩ := suffix
  exact ⟨p, condition, yes, by rw [List.getLast?_append, h, Option.some_or]⟩

/-- The readers of flat branches go over a stretch in one way for all its variants. Only a branch in
which an `ELSE` may come next, with no other branch open in it, can take something out of the
stretch. -/
structure Passed {ι : Type} (stretch : ι → List Command) : Prop where
  read : ∀ depth, ∃ inner, ∀ x back,
    FlatIf.read (depth + 1) (stretch x ++ back) = (FlatIf.read inner back).prepend (stretch x)
  untilEnd : ∀ depth, ∃ inner, ∀ x back, untilEndIf depth (stretch x ++ back)
    = (stretch x ++ (untilEndIf inner back).1, (untilEndIf inner back).2)

/-- A stretch that is passed, and that no block `IF` before it takes for its `ELSE`. -/
structure Uniform {ι : Type} (stretch : ι → List Command) : Prop extends Passed stretch where
  head : ∀ x back q no, (stretch x ++ back).head? ≠ some (.elseBlock q no)

theorem Passed.of_innerAfter {ι : Type} {stretch : ι → List Command}
    (h : ∀ depth, ∃ inner, ∀ x, innerAfter? depth (stretch x) = some inner) : Passed stretch where
  read := by
    intro depth
    obtain ⟨inner, hi⟩ := h (depth + 1)
    exact ⟨inner, fun x back => FlatIf.read_append (hi x) back⟩
  untilEnd := by
    intro depth
    obtain ⟨inner, hi⟩ := h depth
    exact ⟨inner, fun x back => untilEndIf_append (hi x) back⟩

theorem Uniform.of_innerAfter {ι : Type} {stretch : ι → List Command}
    (head : ∀ x back q no, (stretch x ++ back).head? ≠ some (.elseBlock q no))
    (h : ∀ depth, ∃ inner, ∀ x, innerAfter? depth (stretch x) = some inner) : Uniform stretch where
  toPassed := .of_innerAfter h
  head := head

def Parted {ι : Type} (stretch : ι → List Command) (back : List Command) : Prop :=
  ∀ x q no, (stretch x ++ back).head? ≠ some (.elseBlock q no)

theorem Parted.of_isPrefix {ι : Type} {stretch : ι → List Command} {back back' : List Command}
    (h : Parted stretch back) (hb : back' <+: back) : Parted stretch back' := by
  intro x q no
  have hx := h x q no
  cases hs : stretch x with
  | nil =>
    rw [hs, List.nil_append] at hx
    cases back' with
    | nil => simp
    | cons c more =>
      obtain ⟨others, rfl⟩ := hb
      exact hx
  | cons c more => simpa [hs] using hx

/-- Whichever variant of the stretch stands between these siblings, it has the same place in the
flow, together with the first of the siblings behind it. -/
def Located {ι : Type} (stretch : ι → List Command) (before back : List Command) : Prop :=
  ∃ place back', back' <+: back ∧ ∀ x, Flow.ofCommands (before ++ (stretch x ++ back))
    = Surroundings.plug place (Flow.ofCommands (stretch x ++ back'))

/-- The stretch has its place behind these siblings whatever follows it, and in front of the place
stands always the same. -/
def Placed {ι : Type} (stretch : ι → List Command) (before : List Command) : Prop :=
  ∃ opening : Surroundings, opening.front = leaves before ∧
    ∀ back, (EndsInIf before → Parted stretch back) →
      ∃ place back', Surroundings.opening place = opening ∧ back' <+: back ∧
        ∀ x, Flow.ofCommands (before ++ (stretch x ++ back))
          = place.plug (Flow.ofCommands (stretch x ++ back'))

namespace Placed

variable {ι : Type} {stretch : ι → List Command} {p : Position} {condition : List String}
  {before part rest : List Command}

theorem widen (h : Placed stretch part) (suffix : part <:+ before)
    (frame : Surroundings → Surroundings)
    (hfront : ∀ place : Surroundings, place.front = leaves part →
      (frame place).front = leaves before)
    (hframe : ∀ back, (EndsInIf before → Parted stretch back) →
      ∃ (back' : List Command) (wide : Surroundings → Surroundings), back' <+: back ∧
        (∀ place, (wide place).opening = frame place.opening) ∧
        ∀ x place f, Flow.ofCommands (part ++ (stretch x ++ back')) = place.plug f →
          Flow.ofCommands (before ++ (stretch x ++ back)) = (wide place).plug f) :
    Placed stretch before := by
  obtain ⟨opening, hopening, hplaces⟩ := h
  refine ⟨frame opening, hfront opening hopening, fun back hback => ?_⟩
  obtain ⟨back', wide, hb, hwide, hflow⟩ := hframe back hback
  obtain ⟨place, back'', rfl, hb', hp⟩ :=
    hplaces back' fun hends => (hback (hends.of_suffix suffix)).of_isPrefix hb
  exact ⟨wide place, back'', hwide place, hb'.trans hb, fun x => hflow x place _ (hp x)⟩

theorem frame (h : Placed stretch part) (suffix : part <:+ before)
    (frame : Surroundings → Surroundings)
    (hfront : ∀ place : Surroundings, place.front = leaves part →
      (frame place).front = leaves before)
    (hopening : ∀ place, (frame place).opening = frame place.opening)
    (hflow : ∀ back, (EndsInIf before → Parted stretch back) → ∀ x place f,
      Flow.ofCommands (part ++ (stretch x ++ back)) = place.plug f →
        Flow.ofCommands (before ++ (stretch x ++ back)) = (frame place).plug f) :
    Placed stretch before :=
  h.widen suffix frame hfront fun back hback =>
    ⟨back, frame, List.prefix_rfl, hopening, hflow back hback⟩

theorem ifBlock {yes : List Command} (h : Placed stretch rest)
    (hrest : ∀ q no more, rest ≠ .elseBlock q no :: more) :
    Placed stretch (.ifBlock p condition yes :: rest) := by
  refine h.frame (List.suffix_cons _ _) (.branch condition (.ofCommands yes)) ?_ (fun _ => rfl) ?_
  · intro place hplace
    simp [Surroundings.front, leaves, leavesOf, actions_ofCommands, hplace]
  · intro back hback x place f hp
    have hhead (q : Position) (no : List Command) :
        (rest ++ (stretch x ++ back)).head? ≠ some (.elseBlock q no) := by
      cases rest with
      | nil => exact hback ⟨p, condition, yes, rfl⟩ x q no
      | cons c more =>
        simp only [List.cons_append, List.head?_cons, ne_eq, Option.some.injEq]
        rintro rfl
        exact hrest q no more rfl
    rw [List.cons_append, ofCommands_ifBlock hhead, hp]
    rfl

theorem closed {yes post : List Command} {no : Option (List Command × List Command)}
    (suffix : post <:+ rest) (read : ∀ back, FlatIf.read 0 (rest ++ back) = ⟨yes, no, post ++ back⟩)
    (h : Placed stretch post) : Placed stretch (.ifFlat p condition :: rest) := by
  have hleaves := leaves_flatIf 0 (rest ++ [])
  rw [read] at hleaves
  have hsuffix : post <:+ .ifFlat p condition :: rest := suffix.trans (List.suffix_cons _ _)
  cases no with
  | none =>
    refine h.frame hsuffix (.branch condition (.ofCommands yes)) ?_ (fun _ => rfl) ?_
    · intro place hplace
      simpa [Surroundings.front, leaves, leavesOf, actions_ofCommands, hplace, FlatIf.noLeaves]
        using hleaves
    · intro back hback x place f hp
      rw [List.cons_append, ofCommands_ifFlat, read]
      simp only [hp, Surroundings.plug]
  | some no =>
    refine h.frame hsuffix
      (.branchElse condition (.ofCommands yes) (.scope (.ofCommands no.1) (.ofCommands no.2))) ?_
      (fun _ => rfl) ?_
    · intro place hplace
      simpa [Surroundings.front, leaves, leavesOf, actions_ofCommands, hplace, FlatIf.noLeaves,
        Flow.actions] using hleaves
    · intro back hback x place f hp
      rw [List.cons_append, ofCommands_ifFlat, read]
      simp only [hp, Surroundings.plug]

theorem second {yes body siblings : List Command} {inner inner' : Nat} (suffix : siblings <:+ rest)
    (read : ∀ back, FlatIf.read 0 (rest ++ back)
      = ⟨yes, some (body, siblings ++ (untilEndIf inner back).1), (untilEndIf inner back).2⟩)
    (untilEnd : ∀ x back, untilEndIf inner (stretch x ++ back)
      = (stretch x ++ (untilEndIf inner' back).1, (untilEndIf inner' back).2))
    (h : Placed stretch siblings) : Placed stretch (.ifFlat p condition :: rest) := by
  have hleaves := leaves_flatIf 0 (rest ++ [])
  rw [read] at hleaves
  refine h.widen (suffix.trans (List.suffix_cons _ _)) (fun place =>
    .second condition (.ofCommands yes) (.ofCommands body) place .done) ?_ fun back _ => ?_
  · intro place hplace
    simpa [Surroundings.front, leaves, leavesOf, actions_ofCommands, hplace, FlatIf.noLeaves,
      untilEndIf]
      using hleaves
  · refine ⟨_, fun place => .second condition (.ofCommands yes) (.ofCommands body) place
      (.ofCommands (untilEndIf inner' back).2), untilEndIf_isPrefix inner' back, fun _ => rfl, ?_⟩
    intro x place f hp
    rw [List.cons_append, ofCommands_ifFlat, read, untilEnd]
    simp only [hp, Surroundings.plug]

theorem first {inner inner' : Nat} (after : innerAfter? 0 rest = some inner)
    (read : ∀ x back, FlatIf.read inner (stretch x ++ back)
      = (FlatIf.read inner' back).prepend (stretch x))
    (h : Placed stretch rest) : Placed stretch (.ifFlat p condition :: rest) := by
  refine h.widen (List.suffix_cons _ _) (fun place => .only condition place .done)
    (fun place hplace => hplace) fun back _ => ?_
  have hread (x : ι) : FlatIf.read 0 (rest ++ (stretch x ++ back))
      = ((FlatIf.read inner' back).prepend (stretch x)).prepend rest := by
    rw [FlatIf.read_append after, read]
  cases hno : (FlatIf.read inner' back).no with
  | none =>
    refine ⟨_, fun place => .only condition place (.ofCommands (FlatIf.read inner' back).after),
      FlatIf.yes_isPrefix inner' back, fun _ => rfl, fun x place f hp => ?_⟩
    rw [List.cons_append, ofCommands_ifFlat, hread]
    simp only [FlatIf.prepend, hno, hp, Surroundings.plug]
  | some no =>
    refine ⟨_, fun place => .first condition place (.scope (.ofCommands no.1) (.ofCommands no.2))
        (.ofCommands (FlatIf.read inner' back).after),
      FlatIf.yes_isPrefix inner' back, fun _ => rfl, fun x place f hp => ?_⟩
    rw [List.cons_append, ofCommands_ifFlat, hread]
    simp only [FlatIf.prepend, hno, hp, Surroundings.plug]

end Placed

theorem Passed.placed {ι : Type} {stretch : ι → List Command} (h : Passed stretch)
    (before : List Command)
    (h0 : AwaitsElse before → ∃ inner, ∀ x back,
      FlatIf.read 0 (stretch x ++ back) = (FlatIf.read inner back).prepend (stretch x)) :
    Placed stretch before := by
  match before with
  | [] => exact ⟨.here, rfl, fun back _ => ⟨.here, back, rfl, List.prefix_rfl, fun x => rfl⟩⟩
  | .act p a :: rest =>
    have hr := h.placed rest fun ha => h0 (ha.of_suffix (List.suffix_cons _ _))
    refine hr.frame (List.suffix_cons _ _) (.act a) ?_ (fun _ => rfl) ?_
    · intro place hplace
      simp [Surroundings.front, leaves, leavesOf, hplace]
    · intro back _ x place f hp
      simp [Flow.ofCommands, Surroundings.plug, hp]
  | .elseBlock p body :: rest =>
    have hr := h.placed rest fun ha => h0 (ha.of_suffix (List.suffix_cons _ _))
    refine hr.frame (List.suffix_cons _ _) (.stray (.ofCommands body)) ?_ (fun _ => rfl) ?_
    · intro place hplace
      simp [Surroundings.front, leaves, leavesOf, actions_ofCommands, hplace]
    · intro back _ x place f hp
      simp [Flow.ofCommands, Surroundings.plug, hp]
  | .elseFlat _ :: rest | .endIf _ :: rest | .define _ _ _ :: rest =>
    have hr := h.placed rest fun ha => h0 (ha.of_suffix (List.suffix_cons _ _))
    refine hr.frame (List.suffix_cons _ _) id ?_ (fun _ => rfl) ?_
    · intro place hplace
      simpa [leaves, leavesOf] using hplace
    · intro back _ x place f hp
      simp [Flow.ofCommands, hp]
  | .ifBlock p condition yes :: rest =>
    by_cases hrest : ∃ q no more, rest = .elseBlock q no :: more
    · obtain ⟨q, no, more, rfl⟩ := hrest
      have hsuffix : more <:+ .ifBlock p condition yes :: .elseBlock q no :: more :=
        (List.suffix_cons _ _).trans (List.suffix_cons _ _)
      have hr := h.placed more fun ha => h0 (ha.of_suffix hsuffix)
      refine hr.frame hsuffix (.branchElse condition (.ofCommands yes) (.ofCommands no)) ?_
        (fun _ => rfl) ?_
      · intro place hplace
        simp [Surroundings.front, leaves, leavesOf, actions_ofCommands, hplace]
      · intro back _ x place f hp
        simp [Flow.ofCommands, Surroundings.plug, hp]
    · have hr := h.placed rest fun ha => h0 (ha.of_suffix (List.suffix_cons _ _))
      exact hr.ifBlock fun q no more hq => hrest ⟨q, no, more, hq⟩
  | .ifFlat p condition :: rest =>
    cases division 0 rest with
    | closed yes no post suffix read =>
      have hpost := suffix.length_le
      exact .closed suffix read (h.placed post fun ha =>
        h0 (ha.of_suffix (suffix.trans (List.suffix_cons _ _))))
    | second yes body siblings inner suffix read =>
      have hsiblings := suffix.length_le
      obtain ⟨inner', hu⟩ := h.untilEnd inner
      exact .second suffix read hu (h.placed siblings fun ha =>
        h0 (ha.of_suffix (suffix.trans (List.suffix_cons _ _))))
    | first inner after =>
      -- with no inner branch open, the stretch stands where the `ELSE` of this one may come
      have hread : ∃ inner', ∀ x back, FlatIf.read inner (stretch x ++ back)
          = (FlatIf.read inner' back).prepend (stretch x) := by
        cases inner with
        | zero => exact h0 ⟨[], p, condition, rest, rfl, after⟩
        | succ inner => exact h.read inner
      obtain ⟨inner', hr⟩ := hread
      exact .first after hr (h.placed rest fun ha => h0 (ha.of_suffix (List.suffix_cons _ _)))
termination_by before.length

theorem Uniform.located {ι : Type} {stretch : ι → List Command} (h : Uniform stretch)
    (before back : List Command)
    (h0 : AwaitsElse before → ∃ inner, ∀ x back,
      FlatIf.read 0 (stretch x ++ back) = (FlatIf.read inner back).prepend (stretch x)) :
    Located stretch before back := by
  obtain ⟨_, -, hplaces⟩ := h.placed before h0
  obtain ⟨place, back', -, hb, hp⟩ := hplaces back fun _ x => h.head x back
  exact ⟨place, back', hb, hp⟩

end VippDocdef.Docdef
