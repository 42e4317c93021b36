import VippDocdef.Proofs.Effects

/-! The point that boxes and rules are relative to. It is kept once in an outline, in front of the
first shape that is written. Where that one stands in a branch, shapes behind the branch are met
without it on the way around. -/

set_option autoImplicit false

namespace VippDocdef.Docdef

inductive Event where
  | opened
  | closed
  | statement (s : Statement)

def waysOn (firsts seconds : List (List Event)) : List (List Event) :=
  firsts.flatMap fun first => seconds.map (first ++ ·)

/-- All ways through a block: each branch is taken or not, whatever its condition says. -/
def Block.paths : Block → List (List Event)
  | .done => [[]]
  | .statement s rest => rest.paths.map (.statement s :: ·)
  | .ifThen _ yes rest => waysOn (yes.paths ++ [[]]) rest.paths
  | .ifThenElse _ yes no rest => waysOn (yes.paths ++ no.paths) rest.paths
  | .outline body rest =>
    waysOn (body.paths.map fun inside => .opened :: (inside ++ [.closed])) rest.paths

theorem mem_waysOn {firsts seconds : List (List Event)} {trace : List Event} :
    trace ∈ waysOn firsts seconds ↔ ∃ first ∈ firsts, ∃ second ∈ seconds,
      first ++ second = trace := by
  simp only [waysOn, List.mem_flatMap, List.mem_map]

def anchorLines : List String := ["POSY = $SL_CURRY;", "POSX = $SL_CURRX;"]

def Statement.isAnchor : Statement → Bool
  | .anchor => true
  | _ => false

def Statement.assignments : Statement → List String
  | .plain text => [text]
  | .anchor => Statement.anchor.lines.map (·.text)
  | _ => []

def Unbroken (trace : List Event) : Prop := ∀ x ∈ trace, ∃ s, x = .statement s

/-- In front of every shape, in the same outline, both assignments are met. -/
def Anchored (trace : List Event) : Prop :=
  ∀ before shape after, trace = before ++ .statement shape :: after → shape.isShape = true →
    ∃ outside inside, before = outside ++ inside ∧ Unbroken inside ∧
      ∀ line ∈ anchorLines, ∃ s, .statement s ∈ inside ∧ line ∈ s.assignments

def Event.isShape : Event → Bool
  | .statement s => s.isShape
  | _ => false

def Event.keeps (kept : Bool) : Event → Bool
  | .opened | .closed => false
  | .statement s => kept || s.isAnchor

def keptBehind (kept : Bool) (trace : List Event) : Bool := trace.foldl Event.keeps kept

def follows (kept : Bool) : List Event → Bool
  | [] => true
  | x :: rest => (!x.isShape || kept) && follows (x.keeps kept) rest

theorem keptBehind_append (kept : Bool) (a b : List Event) :
    keptBehind kept (a ++ b) = keptBehind (keptBehind kept a) b := List.foldl_append

theorem follows_append (kept : Bool) (a b : List Event) :
    follows kept (a ++ b) = (follows kept a && follows (keptBehind kept a) b) := by
  induction a generalizing kept with
  | nil => rfl
  | cons x a ih =>
    simp only [List.cons_append, follows, ih, Bool.and_assoc, keptBehind, List.foldl_cons]

theorem follows_iff {kept : Bool} {trace : List Event} :
    follows kept trace = true ↔ ∀ before shape after, trace = before ++ .statement shape :: after →
      shape.isShape = true → keptBehind kept before = true := by
  constructor
  · rintro h before shape after rfl hshape
    simp only [follows_append, follows, Event.isShape, hshape, Bool.not_true, Bool.false_or,
      Bool.and_eq_true] at h
    exact h.2.1
  · intro h
    induction trace generalizing kept with
    | nil => rfl
    | cons x trace ih =>
      rw [follows, Bool.and_eq_true]
      refine ⟨?_, ih fun before shape after heq => ?_⟩
      · cases x with
        | statement s =>
          have hs := h [] s trace rfl
          simp only [keptBehind, List.foldl_nil] at hs
          cases hshape : s.isShape <;> simp_all [Event.isShape]
        | _ => rfl
      · exact h (x :: before) shape after (by rw [heq, List.cons_append])

theorem keptBehind_iff {kept : Bool} {trace : List Event} :
    keptBehind kept trace = true ↔ kept = true ∧ Unbroken trace ∨
      ∃ outside inside, trace = outside ++ .statement .anchor :: inside ∧ Unbroken inside := by
  induction trace generalizing kept with
  | nil => simp [keptBehind, Unbroken]
  | cons x trace ih =>
    have hcons : keptBehind kept (x :: trace) = keptBehind (x.keeps kept) trace := rfl
    rw [hcons, ih]
    constructor
    · rintro (⟨hkeeps, htrace⟩ | ⟨outside, inside, rfl, hinside⟩)
      · cases x with
        | statement s =>
          cases hs : s.isAnchor with
          | true =>
            cases s <;> cases hs
            exact .inr ⟨[], trace, rfl, htrace⟩
          | false =>
            rw [Event.keeps, hs, Bool.or_false] at hkeeps
            exact .inl ⟨hkeeps, List.forall_mem_cons.2 ⟨⟨s, rfl⟩, htrace⟩⟩
        | _ => cases hkeeps
      · exact .inr ⟨x :: outside, inside, rfl, hinside⟩
    · rintro (⟨rfl, htrace⟩ | ⟨outside, inside, heq, hinside⟩)
      · obtain ⟨⟨s, rfl⟩, hrest⟩ := List.forall_mem_cons.1 htrace
        exact .inl ⟨rfl, hrest⟩
      · cases outside with
        | nil =>
          obtain ⟨rfl, rfl⟩ := List.cons.inj heq
          exact .inl ⟨by simp [Event.keeps, Statement.isAnchor], hinside⟩
        | cons y outside =>
          obtain ⟨-, rfl⟩ := List.cons.inj heq
          exact .inr ⟨outside, inside, rfl, hinside⟩

theorem anchored_of_follows {trace : List Event} (h : follows false trace = true) :
    Anchored trace := by
  intro before shape after heq hshape
  have hkept := keptBehind_iff.1 (follows_iff.1 h before shape after heq hshape)
  obtain ⟨outside, inside, rfl, hinside⟩ : ∃ outside inside,
      before = outside ++ .statement .anchor :: inside ∧ Unbroken inside := by simpa using hkept
  refine ⟨outside, _, rfl, List.forall_mem_cons.2 ⟨⟨_, rfl⟩, hinside⟩, fun line hline => ?_⟩
  exact ⟨.anchor, List.mem_cons_self, hline⟩

/-- Only the statement that keeps the point writes these assignments. -/
def OwnAnchors (statements : List Statement) : Prop :=
  ∀ s ∈ statements, s.isAnchor = false → ∀ line ∈ anchorLines, line ∉ s.assignments

theorem ownAnchors_of_all {statements : List Statement}
    (h : (statements.all fun s => s.isAnchor || anchorLines.all fun line => !s.assignments.contains
      line) = true) :
    OwnAnchors statements := by
  intro s hs hother line hline
  have hlines := List.all_eq_true.1 h s hs
  rw [hother, Bool.false_or] at hlines
  simpa using List.all_eq_true.1 hlines line hline

theorem follows_of_anchored {trace : List Event} {statements : List Statement}
    (hown : OwnAnchors statements) (hmem : ∀ s, .statement s ∈ trace → s ∈ statements)
    (h : Anchored trace) :
    follows false trace = true := by
  refine follows_iff.2 fun before shape after heq hshape => ?_
  obtain ⟨outside, inside, rfl, hinside, hlines⟩ := h before shape after heq hshape
  obtain ⟨s, hs, hline⟩ := hlines "POSY = $SL_CURRY;" (List.mem_cons_self ..)
  have hstatement : s ∈ statements := hmem s (heq ▸ by simp [hs])
  have hanchor : s.isAnchor = true := by
    cases hother : s.isAnchor with
    | true => rfl
    | false => exact absurd hline (hown s hstatement hother _ (List.mem_cons_self ..))
  obtain ⟨a, b, rfl⟩ := List.append_of_mem hs
  cases s <;> cases hanchor
  refine keptBehind_iff.2 (.inr ⟨outside ++ a, b, by simp, fun x hx => hinside x ?_⟩)
  exact List.mem_append_right _ (List.mem_cons_of_mem _ hx)

def Block.draws : Block → Bool
  | .done => false
  | .statement s rest => s.isShape || rest.draws
  | .ifThen _ yes rest => yes.draws || rest.draws
  | .ifThenElse _ yes no rest => yes.draws || no.draws || rest.draws
  | .outline _ rest => rest.draws

def Block.anchors : Block → Bool
  | .done => false
  | .statement s rest => s.isAnchor || rest.anchors
  | .ifThen _ yes rest => yes.anchors || rest.anchors
  | .ifThenElse _ yes no rest => yes.anchors || no.anchors || rest.anchors
  | .outline _ rest => rest.anchors

/-- Where the point is kept in a branch, no shape stands in the other branch or behind. -/
def Block.sheltered : Block → Bool
  | .done => true
  | .statement s rest => s.isAnchor || rest.sheltered
  | .ifThen _ yes rest => yes.sheltered && (!yes.anchors || !rest.draws) && rest.sheltered
  | .ifThenElse _ yes no rest =>
    yes.sheltered && no.sheltered && (!yes.anchors || !no.draws && !rest.draws)
      && (!no.anchors || !rest.draws) && rest.sheltered
  | .outline body rest => body.sheltered && rest.sheltered

/-- The order in which shapes and their point are written: `Drawn p b q` if `p` says in front of the
block, and `q` behind it, whether the point is kept in the open outline. -/
inductive Block.Drawn : Option Bool → Block → Option Bool → Prop where
  | done (p : Option Bool) : Drawn p .done p
  | anchor {q : Option Bool} {rest : Block} (next : Drawn (some true) rest q) :
      Drawn (some false) (.statement .anchor rest) q
  | shape {q : Option Bool} {s : Statement} {rest : Block} (isShape : s.isShape = true)
      (next : Drawn (some true) rest q) : Drawn (some true) (.statement s rest) q
  | other {p q : Option Bool} {s : Statement} {rest : Block} (noShape : s.isShape = false)
      (noAnchor : s.isAnchor = false) (next : Drawn p rest q) : Drawn p (.statement s rest) q
  | ifThen {p q r : Option Bool} {header : String} {yes rest : Block} (first : Drawn p yes q)
      (next : Drawn q rest r) : Drawn p (.ifThen header yes rest) r
  | ifThenElse {p q r t : Option Bool} {header : String} {yes no rest : Block}
      (first : Drawn p yes q)
      (second : Drawn q no r) (next : Drawn r rest t) : Drawn p (.ifThenElse header yes no rest) t
  | outline {q r : Option Bool} {body rest : Block} (within : Drawn (some false) body q)
      (next : Drawn none rest r) : Drawn none (.outline body rest) r

theorem Block.Drawn.append {p q r : Option Bool} {a b : Block} (ha : a.Drawn p q)
    (hb : b.Drawn q r) :
    (a ++ b).Drawn p r := by
  show (a.append b).Drawn p r
  induction ha with
  | done => exact hb
  | anchor next ih => exact .anchor (ih hb)
  | shape isShape next ih => exact .shape isShape (ih hb)
  | other noShape noAnchor next ih => exact .other noShape noAnchor (ih hb)
  | ifThen first next _ ih => exact .ifThen first (ih hb)
  | ifThenElse first second next _ _ ih => exact .ifThenElse first second (ih hb)
  | outline within next _ ih => exact .outline within (ih hb)

theorem Statement.Placed.isShape_eq {s : Statement} (h : s.Placed) : s.isShape = false := by
  unfold isShape
  split
  · exact h.elim
  · exact h.elim
  · rfl

theorem Statement.Placed.isAnchor_eq {s : Statement} (h : s.Placed) : s.isAnchor = false := by
  unfold isAnchor
  split
  · exact h.elim
  · rfl

theorem Block.drawn_placed {ss : List Statement} (h : ∀ s ∈ ss, s.Placed) (p : Option Bool) :
    (Block.ofList ss).Drawn p p := by
  induction ss with
  | nil => exact .done p
  | cons s rest ih =>
    obtain ⟨hs, hrest⟩ := List.forall_mem_cons.1 h
    exact .other hs.isShape_eq hs.isAnchor_eq (ih hrest)

theorem Block.drawn_shapes {ss : List Statement} (h : ∀ s ∈ ss, s.isShape = true) :
    (Block.ofList ss).Drawn (some true) (some true) := by
  induction ss with
  | nil => exact .done _
  | cons s rest ih =>
    obtain ⟨hs, hrest⟩ := List.forall_mem_cons.1 h
    exact .shape hs (ih hrest)

theorem Condition.drawn_before (c : Condition) {p q : Option Bool} {b : Block} (h : b.Drawn p q) :
    (c.before b).Drawn p q := by
  unfold before
  induction c.hoisted with
  | nil => exact h
  | cons text rest ih => exact .other rfl rfl ih

theorem State.anchorStatements_of_point? {s : State} {kept : Bool} (h : s.point? = some kept) :
    s.anchorStatements = if kept then [] else [.anchor] := by
  unfold point? at h
  split at h
  · rw [anchorStatements, Option.some.inj h]
  · cases h

theorem Effect.drawn {e : Env} {expand : Expansion} {a : Action} {s : State} {r : Emission}
    (hx : ∀ cs t, (expand cs t).block.Drawn t.point? (expand cs t).state.point?)
    (ha : a.isOutput = true → s.point?.isSome = true) (h : Effect e expand a s r) :
    r.block.Drawn s.point? r.state.point? := by
  cases h with
  | row block placed point =>
    rw [block, point]
    exact Block.drawn_placed placed _
  | shapes isOutput block shapes point =>
    obtain ⟨kept, hkept⟩ := Option.isSome_iff_exists.1 (ha isOutput)
    rw [block, point, hkept, State.anchorStatements_of_point? hkept]
    cases kept with
    | true => exact Block.drawn_shapes shapes
    | false => exact .anchor (Block.drawn_shapes shapes)
  | expansion isOutput entered block point =>
    rw [block, point, ← entered]
    exact .other rfl rfl (hx _ _)

theorem State.point?_of_open {s : State} (h : s.sec.outlineOpen = true) :
    s.point?.isSome = true := by
  simp [point?, h]

theorem Flow.drawn_emit {act : Emitter}
    (h : ∀ a s, (a.isOutput = true → s.point?.isSome = true) →
      (act a s).block.Drawn s.point? (act a s).state.point?) (f : Flow) (s : State) :
    (f.emit act s).block.Drawn s.point? (f.emit act s).state.point? := by
  induction f generalizing s with
  | done => exact .done _
  | act a rest ih =>
    by_cases ha : s.opensOutline a = true
    · have hs : s.point? = none := by simp_all [State.opensOutline, State.point?]
      have hfirst := h a s.openOutline fun _ => rfl
      simp only [Flow.emit, ha, if_true, hs]
      exact .outline (hfirst.append (ih _)) (.done none)
    · have hout : a.isOutput = true → s.point?.isSome = true := fun hout =>
        State.point?_of_open (by simp_all [State.opensOutline])
      simp only [Flow.emit, ha]
      exact (h a s hout).append (ih _)
  | branch condition yes rest hy hr =>
    simp only [Flow.emit]
    exact Condition.drawn_before _ (.ifThen (hy _) (hr _))
  | branchElse condition yes no rest hy hn hr =>
    simp only [Flow.emit]
    exact Condition.drawn_before _ (.ifThenElse (hy _) (hn _) (hr _))
  | scope body rest hb hr => exact (hb _).append (hr _)
  | stray body rest hb hr => exact .other rfl rfl ((hb _).append (hr _))

theorem drawn_emitNested (e : Env) (depth : Nat) (cs : List Command) (s : State) :
    (emitNested e depth cs s).block.Drawn s.point? (emitNested e depth cs s).state.point? := by
  induction depth generalizing cs s with
  | zero => exact .done _
  | succ depth ih => exact Flow.drawn_emit (fun a t ha => (effect_emitAction a).drawn ih ha) _ s

theorem Block.exists_path (b : Block) : ∃ trace, trace ∈ b.paths := by
  induction b with
  | done => exact ⟨[], List.mem_singleton_self _⟩
  | statement s rest ih =>
    obtain ⟨trace, h⟩ := ih
    exact ⟨_, List.mem_map_of_mem h⟩
  | ifThen header yes rest hy hr =>
    obtain ⟨trace, h⟩ := hr
    exact ⟨trace, mem_waysOn.2 ⟨[], by simp, trace, h, rfl⟩⟩
  | ifThenElse header yes no rest hy hn hr =>
    obtain ⟨first, hfirst⟩ := hy
    obtain ⟨trace, h⟩ := hr
    exact ⟨_, mem_waysOn.2 ⟨first, List.mem_append_left _ hfirst, trace, h, rfl⟩⟩
  | outline body rest hb hr =>
    obtain ⟨inside, hinside⟩ := hb
    obtain ⟨trace, h⟩ := hr
    exact ⟨_, mem_waysOn.2 ⟨_, List.mem_map_of_mem hinside, trace, h, rfl⟩⟩

theorem Block.mem_statements_of_path {b : Block} {trace : List Event} (h : trace ∈ b.paths)
    {s : Statement} (hs : .statement s ∈ trace) : s ∈ b.statements := by
  induction b generalizing trace with
  | done =>
    rw [List.mem_singleton.1 h] at hs
    cases hs
  | statement s' rest ih =>
    obtain ⟨trace, htrace, rfl⟩ := List.mem_map.1 h
    rcases List.mem_cons.1 hs with heq | hs
    · rw [Event.statement.inj heq]
      exact List.mem_cons_self
    · exact List.mem_cons_of_mem _ (ih htrace hs)
  | ifThen header yes rest hy hr =>
    obtain ⟨first, hfirst, second, hsecond, rfl⟩ := mem_waysOn.1 h
    rcases List.mem_append.1 hs with hs | hs
    · rcases List.mem_append.1 hfirst with hfirst | hfirst
      · exact List.mem_append_left _ (hy hfirst hs)
      · rw [List.mem_singleton.1 hfirst] at hs
        cases hs
    · exact List.mem_append_right _ (hr hsecond hs)
  | ifThenElse header yes no rest hy hn hr =>
    obtain ⟨first, hfirst, second, hsecond, rfl⟩ := mem_waysOn.1 h
    rcases List.mem_append.1 hs with hs | hs
    · rcases List.mem_append.1 hfirst with hfirst | hfirst
      · exact List.mem_append_left _ (hy hfirst hs)
      · exact List.mem_append_right _ (List.mem_append_left _ (hn hfirst hs))
    · exact List.mem_append_right _ (List.mem_append_right _ (hr hsecond hs))
  | outline body rest hb hr =>
    obtain ⟨first, hfirst, second, hsecond, rfl⟩ := mem_waysOn.1 h
    obtain ⟨inside, hinside, rfl⟩ := List.mem_map.1 hfirst
    rcases List.mem_append.1 hs with hs | hs
    · have hs : .statement s ∈ inside := by simpa using hs
      exact List.mem_append_left _ (hb hinside hs)
    · exact List.mem_append_right _ (hr hsecond hs)

def FollowsAll (kept : Bool) (traces : List (List Event)) : Prop :=
  ∀ trace ∈ traces, follows kept trace = true

theorem followsAll_append {kept : Bool} {a b : List (List Event)} :
    FollowsAll kept (a ++ b) ↔ FollowsAll kept a ∧ FollowsAll kept b := List.forall_mem_append

theorem followsAll_waysOn {kept kept' : Bool} {firsts seconds : List (List Event)}
    (hfirsts : firsts ≠ []) (hseconds : seconds ≠ [])
    (hkept : ∀ first ∈ firsts, keptBehind kept first = kept') :
    FollowsAll kept (waysOn firsts seconds) ↔ FollowsAll kept firsts ∧
      FollowsAll kept' seconds := by
  obtain ⟨first, hfirst⟩ := List.exists_mem_of_ne_nil _ hfirsts
  obtain ⟨second, hsecond⟩ := List.exists_mem_of_ne_nil _ hseconds
  constructor
  · intro h
    have hways (a : List Event) (ha : a ∈ firsts) (b : List Event) (hb : b ∈ seconds) :
        follows kept a = true ∧ follows kept' b = true := by
      have hab := h _ (mem_waysOn.2 ⟨a, ha, b, hb, rfl⟩)
      rwa [follows_append, hkept a ha, Bool.and_eq_true] at hab
    exact ⟨fun a ha => (hways a ha second hsecond).1, fun b hb => (hways first hfirst b hb).2⟩
  · rintro ⟨ha, hb⟩ trace htrace
    obtain ⟨a, hmema, b, hmemb, rfl⟩ := mem_waysOn.1 htrace
    rw [follows_append, hkept a hmema, ha a hmema, hb b hmemb]
    rfl

theorem Block.paths_ne_nil (b : Block) : b.paths ≠ [] := by
  obtain ⟨trace, h⟩ := b.exists_path
  exact List.ne_nil_of_mem h

theorem Statement.isAnchor_of_isShape {s : Statement} (h : s.isShape = true) :
    s.isAnchor = false := by
  cases s with
  | anchor => cases h
  | _ => rfl

theorem followsAll_cons {kept : Bool} {s : Statement} {b : Block} :
    FollowsAll kept (Block.statement s b).paths ↔
      (s.isShape = true → kept = true) ∧ FollowsAll (kept || s.isAnchor) b.paths := by
  obtain ⟨trace, htrace⟩ := b.exists_path
  have hstep (trace : List Event) : follows kept (.statement s :: trace) = true ↔
      (s.isShape = true → kept = true) ∧ follows (kept || s.isAnchor) trace = true := by
    rw [follows, Bool.and_eq_true]
    cases hs : s.isShape <;> simp [Event.isShape, Event.keeps, hs]
  simp only [FollowsAll, Block.paths, List.forall_mem_map, hstep]
  exact ⟨fun h => ⟨(h trace htrace).1, fun x hx => (h x hx).2⟩, fun h x hx => ⟨h.1, h.2 x hx⟩⟩

/-- What is written behind the point: on ways without it, it must not draw. -/
structure Block.Behind (b : Block) : Prop where
  anchors : b.anchors = false
  sheltered : b.sheltered = true
  leaves : ∀ kept, ∀ trace ∈ b.paths, keptBehind kept trace = kept
  ways : ∀ kept, FollowsAll kept b.paths ↔ kept = true ∨ b.draws = false

theorem Block.Behind.statement {s : Statement} {rest : Block} (hs : s.isAnchor = false)
    (h : rest.Behind) : (Block.statement s rest).Behind where
  anchors := by simp [Block.anchors, hs, h.anchors]
  sheltered := by simp [Block.sheltered, h.sheltered]
  leaves kept trace htrace := by
    obtain ⟨trace, hmem, rfl⟩ := List.mem_map.1 htrace
    have hcons : keptBehind kept (.statement s :: trace) = keptBehind (kept || s.isAnchor) trace :=
      rfl
    rw [hcons, hs, Bool.or_false, h.leaves kept trace hmem]
  ways kept := by
    rw [followsAll_cons, hs, Bool.or_false, h.ways, Block.draws]
    cases kept <;> cases s.isShape <;> simp

theorem Block.Behind.on_ways {f : List (List Event)} {d : Bool} {rest : Block} (hne : f ≠ [])
    (hkept : ∀ kept, ∀ first ∈ f, keptBehind kept first = kept)
    (hfollows : ∀ kept, FollowsAll kept f ↔ kept = true ∨ d = false) (h : rest.Behind) :
    (∀ kept, ∀ trace ∈ waysOn f rest.paths, keptBehind kept trace = kept) ∧
      ∀ kept, FollowsAll kept (waysOn f rest.paths) ↔ kept = true ∨ (d || rest.draws) = false := by
  refine ⟨fun kept trace htrace => ?_, fun kept => ?_⟩
  · obtain ⟨first, hfirst, second, hsecond, rfl⟩ := mem_waysOn.1 htrace
    rw [keptBehind_append, hkept kept first hfirst, h.leaves kept second hsecond]
  · rw [followsAll_waysOn hne rest.paths_ne_nil (hkept kept), hfollows, h.ways]
    cases kept <;> simp

theorem followsAll_nil (kept : Bool) : FollowsAll kept [[]] := by simp [FollowsAll, follows]

theorem Block.Drawn.behind {b : Block} {p q : Option Bool} (h : b.Drawn p q) (hp : p = some true) :
    q = some true ∧ b.Behind := by
  induction h with
  | done =>
    refine ⟨hp, rfl, rfl, ?_, ?_⟩
    · simp [Block.paths, keptBehind]
    · simp [Block.paths, followsAll_nil, Block.draws]
  | anchor => cases hp
  | shape isShape next ih =>
    exact ⟨(ih rfl).1, (ih rfl).2.statement (Statement.isAnchor_of_isShape isShape)⟩
  | other noShape noAnchor next ih => exact ⟨(ih hp).1, (ih hp).2.statement noAnchor⟩
  | @ifThen p q r header yes rest first next hfirst hnext =>
    obtain ⟨rfl, hyes⟩ := hfirst hp
    obtain ⟨rfl, hrest⟩ := hnext rfl
    have hways := Block.Behind.on_ways (f := yes.paths ++ [[]]) (d := yes.draws) (by simp)
      (fun kept => List.forall_mem_append.2 ⟨hyes.leaves kept, by simp [keptBehind]⟩)
      (fun kept => by rw [followsAll_append, hyes.ways]; simp [followsAll_nil]) hrest
    refine ⟨rfl, ?_, ?_, hways.1, hways.2⟩
    · simp [Block.anchors, hyes.anchors, hrest.anchors]
    · simp [Block.sheltered, hyes.sheltered, hrest.sheltered, hyes.anchors]
  | @ifThenElse p q r t header yes no rest first second next hfirst hsecond hnext =>
    obtain ⟨rfl, hyes⟩ := hfirst hp
    obtain ⟨rfl, hno⟩ := hsecond rfl
    obtain ⟨rfl, hrest⟩ := hnext rfl
    have hways := Block.Behind.on_ways (f := yes.paths ++ no.paths) (d := yes.draws || no.draws)
      (by simp [yes.paths_ne_nil])
      (fun kept => List.forall_mem_append.2 ⟨hyes.leaves kept, hno.leaves kept⟩)
      (fun kept => by rw [followsAll_append, hyes.ways, hno.ways]; cases kept <;> simp) hrest
    refine ⟨rfl, ?_, ?_, hways.1, hways.2⟩
    · simp [Block.anchors, hyes.anchors, hno.anchors, hrest.anchors]
    · simp [Block.sheltered, hyes.sheltered, hno.sheltered, hrest.sheltered, hyes.anchors,
        hno.anchors]
  | outline => cases hp

theorem keptBehind_outline (kept : Bool) (inside : List Event) :
    keptBehind kept (.opened :: (inside ++ [.closed])) = false := by
  rw [← List.cons_append, keptBehind_append]
  rfl

theorem Block.Drawn.before {b : Block} {p q : Option Bool} (h : b.Drawn p q) (hp : p ≠ some true)
    (hq : q ≠ some true) :
    b.anchors = false ∧ ∀ trace ∈ b.paths, keptBehind false trace = false := by
  -- from a kept point on it stays kept, so it is not kept in between
  have hbetween {b : Block} {p q : Option Bool} (h : b.Drawn p q) (hq : q ≠ some true) :
      p ≠ some true :=
    fun hp => hq (h.behind hp).1
  have hways {firsts seconds : List (List Event)}
      (hfirsts : ∀ a ∈ firsts, keptBehind false a = false)
      (hseconds : ∀ a ∈ seconds, keptBehind false a = false) :
      ∀ a ∈ waysOn firsts seconds, keptBehind false a = false := by
    intro trace htrace
    obtain ⟨first, hfirst, second, hsecond, rfl⟩ := mem_waysOn.1 htrace
    rw [keptBehind_append, hfirsts first hfirst, hseconds second hsecond]
  induction h with
  | done => exact ⟨rfl, by simp [Block.paths, keptBehind]⟩
  | anchor next ih => exact absurd rfl (hbetween next hq)
  | shape isShape next ih => exact absurd rfl hp
  | @other p q s rest noShape noAnchor next ih =>
    obtain ⟨hanchors, hkept⟩ := ih hp hq
    refine ⟨by simp [Block.anchors, noAnchor, hanchors], fun trace htrace => ?_⟩
    obtain ⟨trace, hmem, rfl⟩ := List.mem_map.1 htrace
    have hcons : keptBehind false (.statement s :: trace) = keptBehind s.isAnchor trace := rfl
    rw [hcons, noAnchor, hkept trace hmem]
  | ifThen first next hfirst hnext =>
    obtain ⟨hyes, hkept⟩ := hfirst hp (hbetween next hq)
    obtain ⟨hrest, hkept'⟩ := hnext (hbetween next hq) hq
    refine ⟨by simp [Block.anchors, hyes, hrest], hways (List.forall_mem_append.2
      ⟨hkept, ?_⟩) hkept'⟩
    exact List.forall_mem_singleton.2 rfl
  | ifThenElse first second next hfirst hsecond hnext =>
    have hr := hbetween next hq
    have hs := hbetween second hr
    obtain ⟨hyes, hkept⟩ := hfirst hp hs
    obtain ⟨hno, hkept'⟩ := hsecond hs hr
    obtain ⟨hrest, hkept''⟩ := hnext hr hq
    exact ⟨by simp [Block.anchors, hyes, hno, hrest],
      hways (List.forall_mem_append.2 ⟨hkept, hkept'⟩) hkept''⟩
  | outline within next hwithin hnext =>
    obtain ⟨hrest, hkept⟩ := hnext hp hq
    refine ⟨hrest, hways (List.forall_mem_map.2 fun inside _ => ?_) hkept⟩
    exact keptBehind_outline false inside

theorem Block.Drawn.anchors {b : Block} {p q : Option Bool} (h : b.Drawn p q) (hp : p ≠ some true)
    (hq : q = some true) : b.anchors = true := by
  induction h with
  | done => exact absurd hq hp
  | anchor next ih => rfl
  | shape isShape next ih => exact absurd rfl hp
  | other noShape noAnchor next ih => simp [Block.anchors, ih hp hq]
  | @ifThen p r q header yes rest first next hfirst hnext =>
    by_cases hr : r = some true
    · simp [Block.anchors, hfirst hp hr]
    · simp [Block.anchors, hnext hr hq]
  | @ifThenElse p r t q header yes no rest first second next hfirst hsecond hnext =>
    by_cases hr : r = some true
    · simp [Block.anchors, hfirst hp hr]
    by_cases ht : t = some true
    · simp [Block.anchors, hsecond hr ht]
    · simp [Block.anchors, hnext ht hq]
  | outline within next hwithin hnext => exact hnext hp hq

/-- If one of the first ways leaves the point out, what is behind them must not draw. -/
theorem Block.Behind.followsAll_on {firsts : List (List Event)} {rest : Block} (h : rest.Behind)
    {around : List Event} (haround : around ∈ firsts) (hkept : keptBehind false around = false) :
    FollowsAll false (waysOn firsts rest.paths) ↔ FollowsAll false firsts ∧ rest.draws = false := by
  have hdraws := h.ways false
  simp only [Bool.false_eq_true, false_or] at hdraws
  constructor
  · intro hall
    have hway {a : List Event} (ha : a ∈ firsts) {b : List Event} (hb : b ∈ rest.paths) :
        follows false a = true ∧ follows (keptBehind false a) b = true := by
      have hab := hall _ (mem_waysOn.2 ⟨a, ha, b, hb, rfl⟩)
      rwa [follows_append, Bool.and_eq_true] at hab
    obtain ⟨trace, htrace⟩ := rest.exists_path
    refine ⟨fun a ha => (hway ha htrace).1, hdraws.1 fun b hb => ?_⟩
    have hb := (hway haround hb).2
    rwa [hkept] at hb
  · rintro ⟨hfirsts, hrest⟩ trace htrace
    obtain ⟨a, ha, b, hb, rfl⟩ := mem_waysOn.1 htrace
    rw [follows_append, hfirsts a ha, (h.ways _).2 (.inr hrest) b hb]
    rfl

theorem Block.Drawn.followsAll_iff {b : Block} {p q : Option Bool} (h : b.Drawn p q)
    (hp : p ≠ some true) :
    FollowsAll false b.paths ↔ b.sheltered = true := by
  induction h with
  | done => exact iff_of_true (followsAll_nil false) rfl
  | anchor next ih =>
    refine iff_of_true (followsAll_cons.2 ⟨fun h => ?_, ?_⟩) rfl
    · cases h
    · exact ((next.behind rfl).2.ways true).2 (.inl rfl)
  | shape isShape next ih => exact absurd rfl hp
  | other noShape noAnchor next ih =>
    rw [followsAll_cons, noShape, noAnchor, Block.sheltered, noAnchor]
    simp [ih hp]
  | @ifThen p r q header yes rest first next hfirst hnext =>
    by_cases hr : r = some true
    · -- the way around the branch leaves the point out
      have hrest := (next.behind hr).2
      rw [Block.paths,
        hrest.followsAll_on (List.mem_append_right _ (List.mem_singleton_self [])) rfl,
        followsAll_append, hfirst hp, Block.sheltered, first.anchors hp hr, hrest.sheltered]
      simp [followsAll_nil]
    · obtain ⟨hanchors, hkept⟩ := first.before hp hr
      rw [Block.paths, followsAll_waysOn (by simp) rest.paths_ne_nil
        (List.forall_mem_append.2 ⟨hkept, List.forall_mem_singleton.2 rfl⟩), followsAll_append,
        hfirst hp, hnext hr, Block.sheltered, hanchors]
      simp [followsAll_nil]
  | @ifThenElse p r t q header yes no rest first second next hfirst hsecond hnext =>
    by_cases hr : r = some true
    · obtain ⟨ht, hno⟩ := second.behind hr
      have hrest := (next.behind ht).2
      obtain ⟨around, haround⟩ := no.exists_path
      rw [Block.paths, hrest.followsAll_on (List.mem_append_right _ haround)
        (hno.leaves false around haround), followsAll_append, hfirst hp, hno.ways, Block.sheltered,
        first.anchors hp hr, hno.anchors, hno.sheltered, hrest.sheltered]
      simp [and_assoc]
    obtain ⟨hanchors, hkept⟩ := first.before hp hr
    by_cases ht : t = some true
    · have hrest := (next.behind ht).2
      obtain ⟨around, haround⟩ := yes.exists_path
      rw [Block.paths, hrest.followsAll_on (List.mem_append_left _ haround) (hkept around haround),
        followsAll_append, hfirst hp, hsecond hr, Block.sheltered, hanchors, second.anchors hr ht,
        hrest.sheltered]
      simp
    · obtain ⟨hanchors', hkept'⟩ := second.before hr ht
      rw [Block.paths, followsAll_waysOn (by simp [yes.paths_ne_nil]) rest.paths_ne_nil
        (List.forall_mem_append.2 ⟨hkept, hkept'⟩), followsAll_append, hfirst hp,
        hsecond hr, hnext ht, Block.sheltered, hanchors, hanchors']
      simp
  | @outline q r body rest within next hwithin hnext =>
    have hinside :
        FollowsAll false (body.paths.map fun inside => .opened :: (inside ++ [.closed])) ↔
        FollowsAll false body.paths := by
      simp [FollowsAll, follows, follows_append, Event.isShape, Event.keeps]
    rw [Block.paths, followsAll_waysOn (by simp [body.paths_ne_nil]) rest.paths_ne_nil
      (List.forall_mem_map.2 fun inside _ => keptBehind_outline false inside), hinside,
      hwithin (by simp), hnext (by simp), Block.sheltered, Bool.and_eq_true]

theorem followsAll_emit (e : Env) {s : State} (hclosed : s.sec.outlineOpen = false)
    (cs : List Command) :
    FollowsAll false (s.emit e cs).block.paths ↔ (s.emit e cs).block.sheltered = true :=
  (drawn_emitNested e e.nesting cs s).followsAll_iff (by simp [State.point?, hclosed])

theorem sheltered_of_anchored {e : Env} {s : State} (hclosed : s.sec.outlineOpen = false)
    {cs : List Command} (hown : OwnAnchors (s.emit e cs).block.statements)
    (h : ∀ trace ∈ (s.emit e cs).block.paths, Anchored trace) :
    (s.emit e cs).block.sheltered = true := by
  refine (followsAll_emit e hclosed cs).1 fun trace htrace => ?_
  exact follows_of_anchored hown (fun _ hs => Block.mem_statements_of_path htrace hs)
    (h trace htrace)

/-- From a state without an open outline, the point is kept in front of every shape on every way, if
where it is kept in a branch, no shape stands in the other branch or behind it in the outline; and
only then, unless the source has the same assignments itself. -/
theorem shapes_anchored_iff (e : Env) (s : State) (cs : List Command)
    (hclosed : s.sec.outlineOpen = false) :
    ((s.emit e cs).block.sheltered = true → ∀ trace ∈ (s.emit e cs).block.paths, Anchored trace) ∧
    (OwnAnchors (s.emit e cs).block.statements →
      (∀ trace ∈ (s.emit e cs).block.paths, Anchored trace) →
      (s.emit e cs).block.sheltered = true) := by
  refine ⟨fun h trace htrace => ?_, fun hown h => sheltered_of_anchored hclosed hown h⟩
  exact anchored_of_follows ((followsAll_emit e hclosed cs).2 h trace htrace)

/-- A shape in front of a branch with another one, and a branch with a shape in an outline of its
own. -/
theorem shapes_anchored_iff_front :
    let text : Command := .act {} (.text ⟨"SH", "(x)", false, none, none, none⟩)
    let box : Command := .act {} (.box ["1", "2", "3", "4", "R_S1"])
    let cs : List Command :=
      [.ifBlock {} ["VAR_A"] [box], text, box, .ifBlock {} ["VAR_A"] [box], box]
    let block := (State.emit (.initial {}) {} cs).block
    (State.initial {}).sec.outlineOpen = false ∧ block.sheltered = true ∧
      OwnAnchors block.statements ∧
      block.paths.length = 4 ∧ ∀ trace ∈ block.paths, Anchored trace := by
  intro text box cs block
  have hsheltered : block.sheltered = true := by decide +kernel
  have hown : OwnAnchors block.statements := ownAnchors_of_all (by decide +kernel)
  exact ⟨rfl, hsheltered, hown, by decide +kernel, (shapes_anchored_iff {} _ cs rfl).1 hsheltered⟩

/-- Behind a branch with the first shape of the outline, a shape is met without the point on the way
around. -/
theorem anchor_lost_around_branch :
    let text : Command := .act {} (.text ⟨"SH", "(x)", false, none, none, none⟩)
    let box : Command := .act {} (.box ["1", "2", "3", "4", "R_S1"])
    let cs : List Command := [text, .ifBlock {} ["VAR_A"] [box], box]
    let block := (State.emit (.initial {}) {} cs).block
    OwnAnchors block.statements ∧ ∃ trace ∈ block.paths, ¬ Anchored trace := by
  intro text box cs block
  have hown : OwnAnchors block.statements := ownAnchors_of_all (by decide +kernel)
  refine ⟨hown, Classical.byContradiction fun h => ?_⟩
  have hall : ∀ trace ∈ block.paths, Anchored trace := fun trace htrace =>
    Classical.byContradiction fun hnot => h ⟨trace, htrace, hnot⟩
  have hbare : block.sheltered = false := by decide +kernel
  rw [sheltered_of_anchored rfl hown hall] at hbare
  cases hbare

end VippDocdef.Docdef
