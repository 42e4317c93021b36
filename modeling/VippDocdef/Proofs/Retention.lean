import Mathlib.Data.List.Forall2
import Mathlib.Data.List.TakeWhile
import Mathlib.Logic.IsEmpty.Basic
import VippDocdef.Proofs.Formulas

/-! What a condition keeps. Every operand of a condition is written into its expression or is
stepped by a statement before it, except beside a test of the space that is left in the frame: such
a test becomes the whole expression. -/

set_option autoImplicit false

namespace VippDocdef.Docdef

open Condition

def Steps (operand statement : String) : Prop :=
  ∃ sign ∈ ["+", "-"], statement = stepStatement (Text.dropLeading '/' operand) sign

theorem hoistStep_of_isStep {word : String} (h : isStep word = true) (hoisted : List String)
    (operand : String) (below : List String) :
    ∃ statement, Steps operand statement ∧
      hoistStep (hoisted, operand :: below) word = (statement :: hoisted, below) := by
  refine ⟨_, ⟨if word = "++" then "+" else "-", ?_, rfl⟩, ?_⟩
  · split <;> simp
  · exact if_pos h

theorem hoistStep_nil {word : String} (h : isStep word = true) (hoisted : List String) :
    hoistStep (hoisted, []) word = (hoisted, []) := if_pos h

theorem foldl_hoistStep_perm (words hoisted params : List String) :
    ∃ stepped statements : List String,
      (words.foldl hoistStep (hoisted, params)).1 = statements.reverse ++ hoisted ∧
      List.Forall₂ Steps stepped statements ∧
      (words.filter (!isStep ·) ++ params).Perm
        (stepped ++ (words.foldl hoistStep (hoisted, params)).2) := by
  induction words generalizing hoisted params with
  | nil => exact ⟨[], [], rfl, .nil, .refl _⟩
  | cons word rest ih =>
    rw [List.foldl_cons]
    cases hword : isStep word with
    | false =>
      rw [hoistStep_of_not_isStep hword, List.filter_cons_of_pos (by simp [hword])]
      obtain ⟨stepped, statements, hstatements, hsteps, hperm⟩ := ih hoisted (word :: params)
      exact ⟨stepped, statements, hstatements, hsteps, (List.perm_middle.symm).trans hperm⟩
    | true =>
      rw [List.filter_cons_of_neg (by simp [hword])]
      cases params with
      | nil =>
        rw [hoistStep_nil hword]
        exact ih hoisted []
      | cons operand below =>
        obtain ⟨statement, hstep, heq⟩ := hoistStep_of_isStep hword hoisted operand below
        rw [heq]
        obtain ⟨stepped, statements, hstatements, hsteps, hperm⟩ := ih (statement :: hoisted) below
        refine ⟨operand :: stepped, statement :: statements, ?_, .cons hstep hsteps, ?_⟩
        · rw [hstatements, List.reverse_cons, List.append_assoc, List.singleton_append]
        · exact List.perm_middle.trans (hperm.cons operand)

inductive Converts : String → String → Prop
  | relation {word symbol : String} (h : comparison? word = some symbol) : Converts word symbol
  | kept {word : String} (h : comparison? word = none) : Converts word word
  | wrapped {name : String} (h : startsVariable name = true) : Converts name s!"NOSPACE({name})"

/-- How an operand can stand in the expression: without a slash or in quotes, or wrapped as it
is. -/
inductive Writes : String → String → Prop
  | relation {word symbol : String} (h : comparison? word = some symbol) : Writes word symbol
  | logical {word symbol : String} (h : logical? word = some symbol) : Writes word symbol
  | term {word : String} (h : isOperator word = false) : Writes word (term word)
  | wrapped {name : String} (h : startsVariable name = true) : Writes name s!"NOSPACE({name})"

theorem mem_relations_of_comparison? {word symbol : String} (h : comparison? word = some symbol) :
    symbol ∈ relations := by
  unfold comparison? at h
  split at h <;> cases h <;> decide

theorem Converts.eq_of_startsVariable {source converted : String} (h : Converts source converted)
    (hname : startsVariable converted = true) : source = converted := by
  cases h with
  | relation hsymbol =>
    have hfree : ∀ symbol ∈ relations, startsVariable symbol = false := by decide
    simp [hfree converted (mem_relations_of_comparison? hsymbol)] at hname
  | kept => rfl
  | wrapped => simp [startsVariable_iff, toString] at hname

/-- Operand by operand; `sources` are the operands that have been converted already, backwards. -/
theorem convertFrom_converts {sources done : List String} (h : List.Forall₂ Converts sources done)
    (rest : List String) :
    List.Forall₂ Converts (sources.reverse ++ rest) (convertFrom done rest) := by
  induction rest generalizing sources done with
  | nil =>
    rw [List.append_nil, convertFrom]
    exact List.forall₂_reverse_iff.2 h
  | cons param rest ih =>
    have hshift (sources : List String) :
        sources.reverse ++ param :: rest = (param :: sources).reverse ++ rest := by simp
    rw [hshift]
    cases hparam : comparison? param with
    | none =>
      rw [convertFrom, hparam]
      exact ih (.cons (.kept hparam) h)
    | some op =>
      have hkept : List.Forall₂ Converts (param :: sources) (op :: done) :=
        .cons (.relation hparam) h
      rw [convertFrom.eq_def]
      simp only [hparam]
      split
      · next before earlier next more =>
        split
        · next hwraps =>
          obtain ⟨source, earlierSources, hsource, hearlier, rfl⟩ := List.forall₂_cons_right_iff.1 h
          have hname := startsVariable_of_wraps hwraps
          obtain rfl := hsource.eq_of_startsVariable hname
          exact ih (.cons (.relation hparam) (.cons (.wrapped hname) hearlier))
        · exact ih hkept
      · exact ih hkept

theorem Converts.writes {source converted : String} (h : Converts source converted) :
    Writes source (writeOperand converted) := by
  cases h with
  | relation hsymbol =>
    have hsame : ∀ symbol ∈ relations, writeOperand symbol = symbol := by decide +kernel
    rw [hsame converted (mem_relations_of_comparison? hsymbol)]
    exact .relation hsymbol
  | kept hnone =>
    unfold writeOperand
    cases hlogical : logical? source with
    | some symbol => exact .logical hlogical
    | none => exact .term (by simp [isOperator, hnone, hlogical])
  | wrapped hname =>
    rw [writeOperand_wrapped]
    exact .wrapped hname

theorem convertOperators_writes (params : List String) :
    List.Forall₂ Writes params ((convertOperators params).map writeOperand) := by
  have hconverts : List.Forall₂ Converts params (convertOperators params) :=
    convertFrom_converts .nil params
  rw [List.forall₂_map_right_iff]
  exact hconverts.imp fun _ _ h => h.writes

def frameTest (test threshold : String) : String :=
  "$SL_MAXY" ++ test ++ "$LP_HEIGHT-MM(" ++ threshold ++ ")"

/-- A test of the space left in the frame: the threshold on either side of the comparison. -/
inductive Tests : String → String → String → Prop
  | operatorLast {threshold op test : String} (plain : reversed? threshold = none) (h : reversed? op
    = some test) :
      Tests threshold op (frameTest test threshold)
  | operatorFirst {threshold op test : String} (h : reversed? op = some test) :
      Tests op threshold (frameTest test threshold)

theorem Tests.eq_frameTest {first second expression : String} (h : Tests first second expression) :
    ∃ test threshold, expression = frameTest test threshold := by
  cases h with
  | operatorLast => exact ⟨_, _, rfl⟩
  | operatorFirst => exact ⟨_, _, rfl⟩

/-- The first `FRLEFT` among operands makes a test, with other operands around it. -/
structure FrameTest (params : List String) where
  before : List String
  first : String
  second : String
  after : List String
  expression : String
  eq : params = before ++ "FRLEFT" :: first :: second :: after
  isFirst : "FRLEFT" ∉ before
  tests : Tests first second expression

theorem frameLeft?_append {before : List String} (hbefore : "FRLEFT" ∉ before)
    {first second expression : String} (h : Tests first second expression) (after : List String) :
    frameLeft? (before ++ "FRLEFT" :: first :: second :: after) = some expression := by
  have hdrop : (before ++ "FRLEFT" :: first :: second :: after).dropWhile (· ≠ "FRLEFT")
      = "FRLEFT" :: first :: second :: after := by
    rw [List.dropWhile_append_of_pos, List.dropWhile_cons_of_neg (by simp)]
    intro word hword
    have hne : word ≠ "FRLEFT" := fun heq => hbefore (heq ▸ hword)
    simpa using hne
  unfold frameLeft?
  rw [hdrop]
  cases h with
  | operatorLast plain hop => simp [plain, hop, frameTest, toString]
  | operatorFirst hop => simp [hop, frameTest, toString]

theorem FrameTest.frameLeft?_eq {params : List String} (t : FrameTest params) :
    frameLeft? params = some t.expression :=
  (congrArg frameLeft? t.eq).trans (frameLeft?_append t.isFirst t.tests t.after)

theorem isEmpty_frameTest_iff (params : List String) :
    IsEmpty (FrameTest params) ↔ frameLeft? params = none := by
  constructor
  · intro hempty
    rw [Option.eq_none_iff_forall_ne_some]
    intro expression h
    unfold frameLeft? at h
    split at h
    · next word first second after hdrop =>
      have hbefore : "FRLEFT" ∉ params.takeWhile (· ≠ "FRLEFT") := fun hmem => by
        simpa using List.mem_takeWhile_imp hmem
      have hparams :
          params = params.takeWhile (· ≠ "FRLEFT") ++ word :: first :: second :: after := by
        rw [← hdrop, List.takeWhile_append_dropWhile]
      have hword : word = "FRLEFT" := by
        have hhead := List.find?_not_eq_head?_dropWhile (· ≠ "FRLEFT") params
        rw [hdrop, List.head?_cons] at hhead
        simpa using List.find?_some hhead
      have htests : ∃ test, Tests first second test := by
        cases hfirst : reversed? first with
        | some test => exact ⟨_, .operatorFirst hfirst⟩
        | none =>
          simp only [hfirst, Option.isSome_none, Bool.false_eq_true, if_false,
            Option.map_eq_some_iff] at h
          obtain ⟨test, htest, -⟩ := h
          exact ⟨_, .operatorLast hfirst htest⟩
      obtain ⟨test, htest⟩ := htests
      exact hempty.elim ⟨_, first, second, after, test, hword ▸ hparams, hbefore, htest⟩
    · cases h
  · intro h
    exact ⟨fun t => by simp [t.frameLeft?_eq] at h⟩

def operandsIn (atoms : List String) : List String :=
  splitOperands (" ".intercalate (foldLogical atoms))

def remaining (atoms : List String) : List String :=
  (((operandsIn atoms).filter fun p => !ignoredWords.contains p).foldl hoistStep ([], [])).2.reverse

def standing (words : List String) : List String :=
  words.filter fun p => !isStep p && !ignoredWords.contains p

/-- Neither a word of a definition nor an operator nor a step. -/
def Counts (word : String) : Prop :=
  word ∉ ignoredWords ∧ isOperator word = false ∧ isStep word = false

/-- The operand is written in the expression, or is part of the frame test that the expression
is. -/
def StandsIn (operand expression : String) : Prop :=
  (∃ word, Writes operand word ∧ word.toList <:+: expression.toList) ∨
    ∃ first second, Tests first second expression ∧ operand ∈ ["FRLEFT", first, second]

theorem StandsIn.isInfix {operand expression : String} (h : StandsIn operand expression)
    (hoperator : isOperator operand = false) (hreversed : reversed? operand = none)
    (hframe : operand ≠ "FRLEFT") :
    (term operand).toList <:+: expression.toList ∨ operand.toList <:+: expression.toList := by
  rcases h with ⟨word, hwrites, hword⟩ | ⟨first, second, htests, hmem⟩
  · cases hwrites with
    | relation hsome => simp [comparison?_eq_none hoperator] at hsome
    | logical hsome => simp [logical?_eq_none hoperator] at hsome
    | term => exact .inl hword
    | wrapped =>
      have hname : operand.toList <:+: s!"NOSPACE({operand})".toList :=
        ⟨"NOSPACE(".toList, ")".toList, by simp [toString]⟩
      exact .inr (hname.trans hword)
  · have hthreshold (test : String) : operand.toList <:+: (frameTest test operand).toList :=
      ⟨("$SL_MAXY" ++ test ++ "$LP_HEIGHT-MM(").toList, ")".toList, by simp [frameTest]⟩
    simp only [List.mem_cons, hframe, List.not_mem_nil, or_false, false_or] at hmem
    cases htests with
    | operatorLast plain hop =>
      rcases hmem with rfl | rfl
      · exact .inr (hthreshold _)
      · simp [hop] at hreversed
    | operatorFirst hop =>
      rcases hmem with rfl | rfl
      · simp [hop] at hreversed
      · exact .inr (hthreshold _)

def Stepped (operand : String) (c : Condition) : Prop :=
  ∃ statement ∈ c.hoisted, Steps operand statement

theorem ofAtoms_hoisted (atoms : List String) :
    (ofAtoms atoms).hoisted
      = (((operandsIn atoms).filter fun p => !ignoredWords.contains p).foldl hoistStep
        ([], [])).1.reverse := by
  unfold ofAtoms operandsIn
  dsimp only
  split <;> rfl

theorem ofAtoms_expression (atoms : List String) :
    (ofAtoms atoms).expression = (frameLeft? (remaining atoms)).getD
      (" ".intercalate ((convertOperators (remaining atoms)).map writeOperand)) := by
  unfold ofAtoms remaining operandsIn
  dsimp only
  split
  · next h => rw [h, Option.getD_some]
  · next h => rw [h, Option.getD_none]

theorem perm_remaining (atoms : List String) :
    ∃ stepped : List String, List.Forall₂ Steps stepped (ofAtoms atoms).hoisted ∧
      (standing (operandsIn atoms)).Perm (stepped ++ remaining atoms) := by
  obtain ⟨stepped, statements, hstatements, hsteps, hperm⟩ :=
    foldl_hoistStep_perm ((operandsIn atoms).filter fun p => !ignoredWords.contains p) [] []
  refine ⟨stepped, ?_, ?_⟩
  · rw [ofAtoms_hoisted, hstatements, List.append_nil, List.reverse_reverse]
    exact hsteps
  · rw [List.append_nil, List.filter_filter] at hperm
    exact hperm.trans ((List.reverse_perm _).symm.append_left stepped)

theorem isInfix_join {words : List String} {word : String} (h : word ∈ words) :
    word.toList <:+: (" ".intercalate words).toList := by
  obtain ⟨before, after, rfl⟩ := List.append_of_mem h
  induction before with
  | nil =>
    cases after with
    | nil => simp
    | cons next more =>
      exact ⟨[],
        ' ' :: (" ".intercalate (next :: more)).toList, by simp [String.intercalate_cons_cons]⟩
  | cons first rest ih =>
    obtain ⟨left, right, heq⟩ := ih (by simp)
    refine ⟨first.toList ++ ' ' :: left, right, ?_⟩
    rw [List.cons_append, String.intercalate_cons_of_ne_nil (by simp), String.toList_append, ← heq]
    simp

theorem exists_of_forall₂ {α β : Type} {R : α → β → Prop} {sources : List α} {targets : List β}
    (h : List.Forall₂ R sources targets) {source : α} (hmem : source ∈ sources) :
    ∃ target ∈ targets, R source target := by
  induction h with
  | nil => cases hmem
  | cons hhead _ ih =>
    rcases List.mem_cons.1 hmem with rfl | hmem
    · exact ⟨_, List.mem_cons_self, hhead⟩
    · obtain ⟨target, htarget, hR⟩ := ih hmem
      exact ⟨target, List.mem_cons_of_mem _ htarget, hR⟩

theorem stepped_or_mem_remaining {atoms : List String} {o : String} (h : o ∈ operandsIn atoms)
    (ho : Counts o) :
    Stepped o (ofAtoms atoms) ∨ o ∈ remaining atoms := by
  obtain ⟨stepped, hsteps, hperm⟩ := perm_remaining atoms
  obtain ⟨hignored, -, hstep⟩ := ho
  have hmem : o ∈ standing (operandsIn atoms) := by
    rw [standing, List.mem_filter]
    exact ⟨h, by simp [hstep, hignored]⟩
  rcases List.mem_append.1 (hperm.mem_iff.1 hmem) with hstepped | hremains
  · exact .inl (exists_of_forall₂ hsteps hstepped)
  · exact .inr hremains

theorem mem_operandsIn_of_mem_remaining {atoms : List String} {o : String}
    (h : o ∈ remaining atoms) :
    o ∈ operandsIn atoms := by
  obtain ⟨stepped, -, hperm⟩ := perm_remaining atoms
  exact List.mem_of_mem_filter (hperm.mem_iff.2 (List.mem_append_right _ h))

theorem expression_of_isEmpty {atoms : List String} (h : IsEmpty (FrameTest (remaining atoms))) :
    ∃ words : List String, List.Forall₂ Writes (remaining atoms) words ∧
      (ofAtoms atoms).expression = " ".intercalate words := by
  refine ⟨_, convertOperators_writes _, ?_⟩
  rw [ofAtoms_expression, (isEmpty_frameTest_iff _).1 h, Option.getD_none]

theorem FrameTest.expression_eq {atoms : List String} (t : FrameTest (remaining atoms)) :
    (ofAtoms atoms).expression = t.expression := by
  rw [ofAtoms_expression, t.frameLeft?_eq, Option.getD_some]

/-- Apart from the words of definitions and the steps, each operand is stepped by a statement of its
own or remains. Without a frame test, all that remain are written in order; else the test alone is
the expression. So nothing is lost if and only if the operands around the test are stepped or stand
in the test as well. -/
theorem operands_kept_iff (atoms : List String) :
    let c : Condition := ofAtoms atoms
    (∃ stepped : List String, List.Forall₂ Steps stepped c.hoisted ∧
      (standing (operandsIn atoms)).Perm (stepped ++ remaining atoms)) ∧
    (IsEmpty (FrameTest (remaining atoms)) →
      ∃ words : List String, List.Forall₂ Writes (remaining atoms) words ∧
        c.expression = " ".intercalate words) ∧
    (∀ t : FrameTest (remaining atoms), c.expression = t.expression) ∧
    ((∀ o ∈ operandsIn atoms, Counts o → Stepped o c ∨ StandsIn o c.expression) ↔
      ∀ t : FrameTest (remaining atoms), ∀ o ∈ t.before ++ t.after, Counts o →
        Stepped o c ∨ StandsIn o t.expression) := by
  intro c
  refine ⟨perm_remaining atoms, expression_of_isEmpty, FrameTest.expression_eq, ?_, ?_⟩
  · intro hkept t o ho hcounts
    have hremains : o ∈ remaining atoms := by
      rw [t.eq]
      rcases List.mem_append.1 ho with hbefore | hafter
      · exact List.mem_append_left _ hbefore
      · simp [hafter]
    rw [← t.expression_eq]
    exact hkept o (mem_operandsIn_of_mem_remaining hremains) hcounts
  · intro hbeside o ho hcounts
    rcases stepped_or_mem_remaining ho hcounts with hstepped | hremains
    · exact .inl hstepped
    rcases isEmpty_or_nonempty (FrameTest (remaining atoms)) with hempty | ⟨⟨t⟩⟩
    · obtain ⟨words, hwords, hexpression⟩ := expression_of_isEmpty hempty
      obtain ⟨word, hword, hwrites⟩ := exists_of_forall₂ hwords hremains
      exact .inr (.inl ⟨word, hwrites, hexpression ▸ isInfix_join hword⟩)
    · have hplace : o ∈ t.before ++ t.after ∨ o ∈ ["FRLEFT", t.first, t.second] := by
        rw [t.eq] at hremains
        simp only [List.mem_append, List.mem_cons, List.not_mem_nil, or_false] at hremains ⊢
        tauto
      rw [t.expression_eq]
      rcases hplace with hbeside' | htest
      · exact hbeside t o hbeside' hcounts
      · exact .inr (.inr ⟨t.first, t.second, t.tests, htest⟩)

/-- A comparison and a step: all operands are kept. -/
theorem operands_kept_iff_step :
    let atoms : List String := ["VAR_A eq (IT'S)", "/COUNT ++ MM", "and"]
    operandsIn atoms = ["VAR_A", "eq", "(IT'S)", "and", "/COUNT", "++", "MM"] ∧
    remaining atoms = ["VAR_A", "eq", "(IT'S)", "and"] ∧
    ofAtoms atoms = ⟨["COUNT = COUNT + 1;"], "NOSPACE(VAR_A) == 'IT''S' AND", true⟩ ∧
    ∀ o ∈ operandsIn atoms, Counts o → Stepped o (ofAtoms atoms) ∨
    StandsIn o (ofAtoms atoms).expression := by
  intro atoms
  have hempty : IsEmpty (FrameTest (remaining atoms)) :=
    (isEmpty_frameTest_iff _).2 (by decide +kernel)
  exact ⟨by decide +kernel, by decide +kernel, by decide +kernel,
    (operands_kept_iff atoms).2.2.2.2 fun t => hempty.elim t⟩

/-- `VAR_A` is compared, and the frame is tested; the expression has the frame only. -/
theorem operand_lost_beside_frame_test :
    let atoms : List String := ["VAR_A eq (X)", "FRLEFT 40 lt", "and"]
    operandsIn atoms = ["VAR_A", "eq", "(X)", "and", "FRLEFT", "40", "lt"] ∧
    ofAtoms atoms = ⟨[], "$SL_MAXY>$LP_HEIGHT-MM(40)", true⟩ ∧
    Counts "VAR_A" ∧ ¬ Stepped "VAR_A" (ofAtoms atoms) ∧
    ¬ StandsIn "VAR_A" (ofAtoms atoms).expression := by
  intro atoms
  have hcondition : ofAtoms atoms = ⟨[], "$SL_MAXY>$LP_HEIGHT-MM(40)", true⟩ := by decide +kernel
  have hcounts : Counts "VAR_A" := ⟨by decide, by decide +kernel, by decide⟩
  refine ⟨by decide +kernel, hcondition, hcounts, ?_, ?_⟩
  · rintro ⟨statement, hstatement, -⟩
    rw [hcondition] at hstatement
    cases hstatement
  · intro hstands
    have hterm : term "VAR_A" = "VAR_A" := by decide +kernel
    have hwithin := hstands.isInfix hcounts.2.1 (by decide +kernel) (by decide)
    rw [hterm, or_self, hcondition] at hwithin
    exact absurd (hwithin.subset (by decide : 'V' ∈ "VAR_A".toList)) (by decide)

end VippDocdef.Docdef
