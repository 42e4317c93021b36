import Mathlib.Data.List.Nodup
import VippDocdef.Proofs.Formulas

/-! The grouping of conditions. A written condition has no parentheses around its parts, so it can
only be read with `AND` before `OR`. That is what was meant if no `or` stands below an `and`, and
only then. -/

set_option autoImplicit false

namespace VippDocdef.Docdef

open Condition

def quoteStep (inside : Bool) (c : Char) : Bool := if c = '\'' then !inside else inside

/-- The operands of an expression: its parts between blanks outside quotes. -/
def operandsOf (expression : String) : List String :=
  cutFrom quoteStep (! ·) false [] expression.toList

/-- What operands say if `AND` binds closer than `OR` and `v` tells which atoms hold. -/
def reading (v : List String → Bool) (operands : List String) : Bool :=
  (operands.splitOn "OR").any fun part => (part.splitOn "AND").all v

theorem reading_or (v : List String → Bool) (a b : List String) :
    reading v (a ++ "OR" :: b) = (reading v a || reading v b) := by
  simp only [reading, List.splitOn_append_cons_self, List.any_append]

theorem reading_eq_all {operands : List String} (h : "OR" ∉ operands) (v : List String → Bool) :
    reading v operands = (operands.splitOn "AND").all v := by
  simp only [reading, List.splitOn_eq_singleton h, List.any_cons, List.any_nil, Bool.or_false]

theorem reading_and {a b : List String} (ha : "OR" ∉ a) (hb : "OR" ∉ b) (v : List String → Bool) :
    reading v (a ++ "AND" :: b) = (reading v a && reading v b) := by
  have hab : "OR" ∉ a ++ "AND" :: b := by simp [ha, hb]
  rw [reading_eq_all hab, reading_eq_all ha, reading_eq_all hb, List.splitOn_append_cons_self,
    List.all_append]

def Operand.Unquoted : Operand → Prop
  | .word w => '\'' ∉ w.text.toList
  | .literal _ _ => True

def Atom.Unquoted : Atom → Prop
  | .flag w => '\'' ∉ w.text.toList
  | .comparison left _ right => left.Unquoted ∧ right.Unquoted

def Formula.leaves : Formula → List Atom
  | .atom a => [a]
  | .and left right | .or left right => left.leaves ++ right.leaves

def Formula.Unquoted (f : Formula) : Prop := ∀ a ∈ f.leaves, a.Unquoted

theorem bareName_subset (text : String) : (bareName text).toList ⊆ text.toList := by
  unfold bareName
  cases h : Text.stripPrefix? "/" text with
  | none => exact List.Subset.refl _
  | some name =>
    obtain ⟨rest, hrest, rfl⟩ := Option.map_eq_some_iff.1 h
    rw [Text.append_of_after? hrest]
    simp

def isPlain (c : Char) : Bool := !Text.isBlank c && c != '\''

theorem scan_plain {cs : List Char} (h : cs.all isPlain = true) :
    scan quoteStep (! ·) false cs = some false := by
  induction cs with
  | nil => rfl
  | cons c rest ih =>
    obtain ⟨hc, hrest⟩ := Bool.and_eq_true_iff.1 (List.all_cons ▸ h)
    simp only [isPlain, Bool.and_eq_true, Bool.not_eq_true', bne_iff_ne] at hc
    simp [scan, quoteStep, hc, ih hrest]

theorem scan_escape (cs : List Char) : scan quoteStep (! ·) true (escape cs) = some true := by
  have hquote : Text.isBlank '\'' = false := by decide
  induction cs with
  | nil => rfl
  | cons c rest ih =>
    by_cases hc : c = '\''
    · simp [escape, hc, scan, quoteStep, hquote, ih]
    · simp [escape, hc, scan, quoteStep, ih]

def Readable (word : String) : Prop := Solid quoteStep (! ·) false word

theorem readable_quote (text : String) : Readable (quote text) := by
  refine ⟨by simp [quote], ?_⟩
  have htext : (quote text).toList = '\'' :: (escape text.toList ++ ['\'']) := by simp [quote]
  rw [htext]
  show scan quoteStep (! ·) true (escape text.toList ++ ['\'']) = some false
  rw [scan_append, scan_escape]
  rfl

theorem Word.plain (w : Word) (h : '\'' ∉ w.text.toList) : w.text.toList.all isPlain = true := by
  rw [List.all_eq_true]
  intro c hc
  have hletter := List.all_eq_true.1 w.letters c hc
  simp only [isWordChar, Bool.and_eq_true] at hletter
  have hquote : c ≠ '\'' := fun heq => h (heq ▸ hc)
  rw [isPlain, hletter.1.1, bne_iff_ne.2 hquote, Bool.and_self]

theorem Word.readable (w : Word) (h : '\'' ∉ w.text.toList) : Readable (bareName w.text) := by
  refine ⟨w.named, scan_plain (List.all_eq_true.2 ?_)⟩
  intro c hc
  exact List.all_eq_true.1 (w.plain h) c (bareName_subset _ hc)

theorem Operand.readable {o : Operand} (h : o.Unquoted) : Readable o.written := by
  cases o with
  | word w => exact w.readable h
  | literal text balanced => exact readable_quote text

theorem readable_wrapped {name : String} (h : Readable name) : Readable s!"NOSPACE({name})" := by
  have htext : s!"NOSPACE({name})".toList = "NOSPACE(".toList ++ (name.toList ++ [')']) := by
    simp [toString]
  refine ⟨by simp [toString, ← String.toList_inj], ?_⟩
  show scan quoteStep (! ·) false s!"NOSPACE({name})".toList = some false
  have hfunction : "NOSPACE(".toList.all isPlain = true := by decide
  have hclose : [')'].all isPlain = true := by decide
  rw [htext, scan_append, scan_plain hfunction, Option.bind_some, scan_append, h.2,
    Option.bind_some, scan_plain hclose]

theorem Atom.readable {a : Atom} (h : a.Unquoted) : ∀ w ∈ a.written, Readable w := by
  cases a with
  | flag w => exact List.forall_mem_singleton.2 (w.readable h)
  | comparison left relation right =>
    simp only [Atom.written, List.forall_mem_cons]
    refine ⟨?_, ?_, Operand.readable h.2, List.forall_mem_nil _⟩
    · split
      · next hwraps =>
        obtain ⟨w, rfl, hname⟩ := Operand.eq_word_of_wraps hwraps
        have hread := w.readable h.1
        rw [hname] at hread
        exact readable_wrapped hread
      · exact Operand.readable h.1
    · cases relation <;> exact ⟨by decide, by decide⟩

namespace Formula

theorem readable_written {f : Formula} (h : f.Unquoted) : ∀ w ∈ f.written, Readable w := by
  induction f with
  | atom a => exact Atom.readable (h a List.mem_cons_self)
  | and left right hl hr =>
    obtain ⟨hleft, hright⟩ := List.forall_mem_append.1 h
    simp only [written, List.forall_mem_append, List.forall_mem_cons]
    exact ⟨hl hleft, ⟨by decide, by decide⟩, hr hright⟩
  | or left right hl hr =>
    obtain ⟨hleft, hright⟩ := List.forall_mem_append.1 h
    simp only [written, List.forall_mem_append, List.forall_mem_cons]
    exact ⟨hl hleft, ⟨by decide, by decide⟩, hr hright⟩

theorem operandsOf_written {f : Formula} (h : f.Unquoted) :
    operandsOf (" ".intercalate f.written) = f.written :=
  cutFrom_join rfl (readable_written h)

def expression (f : Formula) : String := (ofAtoms f.postfixAtoms).expression

theorem operandsOf_expression {f : Formula} (h : f.Unquoted) :
    operandsOf f.expression = f.written := by
  rw [expression, f.ofAtoms_postfixAtoms.2, operandsOf_written h]

theorem expression_congr {f g : Formula} (h : f.written = g.written) :
    f.expression = g.expression := by
  rw [expression, expression, f.ofAtoms_postfixAtoms.2, g.ofAtoms_postfixAtoms.2, h]

def eval (v : List String → Bool) : Formula → Bool
  | atom a => v a.written
  | and left right => left.eval v && right.eval v
  | or left right => left.eval v || right.eval v

def hasOr : Formula → Bool
  | atom _ => false
  | and left right => left.hasOr || right.hasOr
  | or _ _ => true

/-- No `or` stands below an `and`. -/
def Grouped : Formula → Prop
  | atom _ => True
  | and left right => left.hasOr = false ∧ right.hasOr = false
  | or left right => left.Grouped ∧ right.Grouped

end Formula

theorem Operand.written_ne {o : Operand} {word : String} (h : word ∈ ["AND", "OR"]) :
    o.written ≠ word := by
  rintro rfl
  cases o with
  | word w =>
    have hop : ∀ word ∈ ["AND", "OR"], isOperator word = true := by decide +kernel
    have hname := hop _ h
    rw [Operand.written, w.nameNotOperator] at hname
    cases hname
  | literal text balanced =>
    have hquote : ∀ word ∈ ["AND", "OR"], '\'' ∉ word.toList := by decide
    exact hquote _ h (by simp [Operand.written, quote])

theorem Atom.connective_not_mem (a : Atom) {word : String} (h : word ∈ ["AND", "OR"]) :
    word ∉ a.written := by
  cases a with
  | flag w =>
    have hflag : (Operand.word w).written ≠ word := Operand.written_ne h
    simpa [Atom.written, Operand.written] using hflag.symm
  | comparison left relation right =>
    have hsymbol : ∀ word ∈ ["AND", "OR"], relation.symbol ≠ word := by cases relation <;> decide
    have hwrapped : s!"NOSPACE({left.text})" ≠ word := by
      have hparen : ∀ word ∈ ["AND", "OR"], '(' ∉ word.toList := by decide
      rintro rfl
      exact hparen _ h (by simp [toString])
    have hleft : left.written ≠ word := Operand.written_ne h
    have hright : right.written ≠ word := Operand.written_ne h
    simp only [Atom.written, List.mem_cons, List.not_mem_nil, or_false, not_or]
    refine ⟨?_, (hsymbol word h).symm, hright.symm⟩
    split
    · exact hwrapped.symm
    · exact hleft.symm

namespace Formula

theorem or_not_mem_written {f : Formula} (h : f.hasOr = false) : "OR" ∉ f.written := by
  induction f with
  | atom a => exact a.connective_not_mem (by decide)
  | and left right hl hr =>
    obtain ⟨hleft, hright⟩ := Bool.or_eq_false_iff.1 h
    simp [written, hl hleft, hr hright]
  | or left right => cases h

theorem grouped_of_hasOr {f : Formula} (h : f.hasOr = false) : f.Grouped := by
  cases f with
  | atom a => trivial
  | and left right => exact Bool.or_eq_false_iff.1 h
  | or left right => cases h

theorem reading_written {f : Formula} (h : f.Grouped) (v : List String → Bool) :
    reading v f.written = f.eval v := by
  induction f with
  | atom a =>
    have hor : "OR" ∉ a.written := a.connective_not_mem (by decide)
    have hand : "AND" ∉ a.written := a.connective_not_mem (by decide)
    simp [written, eval, reading_eq_all hor, List.splitOn_eq_singleton hand]
  | and left right hl hr =>
    rw [written, reading_and (or_not_mem_written h.1) (or_not_mem_written h.2),
      hl (grouped_of_hasOr h.1), hr (grouped_of_hasOr h.2), eval]
  | or left right hl hr => rw [written, reading_or, hl h.1, hr h.2, eval]

def glueRight (f : Formula) : Formula → Formula
  | or left right => or (f.glueRight left) right
  | g => and f g

def glue : Formula → Formula → Formula
  | or left right, g => or left (right.glue g)
  | f, g => f.glueRight g

/-- The formula that the written words of a formula are read as. -/
def regroup : Formula → Formula
  | atom a => atom a
  | and left right => left.regroup.glue right.regroup
  | or left right => or left.regroup right.regroup

theorem written_glueRight (f g : Formula) :
    (f.glueRight g).written = f.written ++ "AND" :: g.written := by
  induction g with
  | or left right hl hr => simp [glueRight, written, hl]
  | atom a => rfl
  | and left right => rfl

theorem written_glue (f g : Formula) : (f.glue g).written = f.written ++ "AND" :: g.written := by
  induction f with
  | or left right hl hr => simp [glue, written, hr]
  | atom a => exact written_glueRight (atom a) g
  | and left right => exact written_glueRight (and left right) g

theorem written_regroup (f : Formula) : f.regroup.written = f.written := by
  induction f with
  | atom a => rfl
  | and left right hl hr => rw [regroup, written_glue, hl, hr, written]
  | or left right hl hr => rw [regroup, written, hl, hr, written]

theorem grouped_glueRight {f g : Formula} (hf : f.hasOr = false) (hg : g.Grouped) :
    (f.glueRight g).Grouped := by
  induction g with
  | or left right hl hr => exact ⟨hl hg.1, hg.2⟩
  | atom a => exact ⟨hf, rfl⟩
  | and left right => exact ⟨hf, Bool.or_eq_false_iff.2 hg⟩

theorem grouped_glue {f g : Formula} (hf : f.Grouped) (hg : g.Grouped) : (f.glue g).Grouped := by
  induction f with
  | or left right hl hr => exact ⟨hf.1, hr hf.2⟩
  | atom a => exact grouped_glueRight rfl hg
  | and left right => exact grouped_glueRight (Bool.or_eq_false_iff.2 hf) hg

theorem grouped_regroup (f : Formula) : f.regroup.Grouped := by
  induction f with
  | atom a => trivial
  | and left right hl hr => exact grouped_glue hl hr
  | or left right hl hr => exact ⟨hl, hr⟩

theorem leaves_glueRight (f g : Formula) : (f.glueRight g).leaves = f.leaves ++ g.leaves := by
  induction g with
  | or left right hl hr => simp [glueRight, leaves, hl]
  | atom a => rfl
  | and left right => rfl

theorem leaves_glue (f g : Formula) : (f.glue g).leaves = f.leaves ++ g.leaves := by
  induction f with
  | or left right hl hr => simp [glue, leaves, hr]
  | atom a => exact leaves_glueRight (atom a) g
  | and left right => exact leaves_glueRight (and left right) g

theorem leaves_regroup (f : Formula) : f.regroup.leaves = f.leaves := by
  induction f with
  | atom a => rfl
  | and left right hl hr => rw [regroup, leaves_glue, hl, hr, leaves]
  | or left right hl hr => rw [regroup, leaves, hl, hr, leaves]

theorem eval_congr {f : Formula} {v v' : List String → Bool}
    (h : ∀ a ∈ f.leaves, v a.written = v' a.written) : f.eval v = f.eval v' := by
  induction f with
  | atom a => exact h a List.mem_cons_self
  | and left right hl hr =>
    obtain ⟨hleft, hright⟩ := List.forall_mem_append.1 h
    rw [eval, eval, hl hleft, hr hright]
  | or left right hl hr =>
    obtain ⟨hleft, hright⟩ := List.forall_mem_append.1 h
    rw [eval, eval, hl hleft, hr hright]

theorem eval_const (f : Formula) (b : Bool) : f.eval (fun _ => b) = b := by
  induction f with
  | atom a => rfl
  | and left right hl hr => rw [eval, hl, hr, Bool.and_self]
  | or left right hl hr => rw [eval, hl, hr, Bool.or_self]

theorem eval_eq {f : Formula} {v : List String → Bool} {b : Bool}
    (h : ∀ a ∈ f.leaves, v a.written = b) : f.eval v = b :=
  (eval_congr h).trans (f.eval_const b)

theorem exists_glue_or (f left right : Formula) : ∃ a b, f.glue (or left right) = or a b := by
  cases f with
  | or a b => exact ⟨a, b.glue (or left right), rfl⟩
  | atom a => exact ⟨(atom a).glueRight left, right, rfl⟩
  | and a b => exact ⟨(and a b).glueRight left, right, rfl⟩

/-- An `or` comes to the top. -/
theorem exists_regroup_or {f : Formula} (h : f.hasOr = true) : ∃ a b, f.regroup = or a b := by
  induction f with
  | atom a => cases h
  | or left right => exact ⟨_, _, rfl⟩
  | and left right hl hr =>
    rcases Bool.or_eq_true_iff.1 h with h | h
    · obtain ⟨a, b, hab⟩ := hl h
      exact ⟨a, b.glue right.regroup, by rw [regroup, hab, glue]⟩
    · obtain ⟨a, b, hab⟩ := hr h
      rw [regroup, hab]
      exact exists_glue_or _ a b

theorem eval_glue_or {left right : Formula} {v : List String → Bool} (h : right.eval v = true)
    (f : Formula) : (f.glue (or left right)).eval v = true := by
  induction f with
  | or a b ha hb => rw [glue, eval, hb, Bool.or_true]
  | atom a => exact (congrArg _ h).trans (Bool.or_true _)
  | and a b => exact (congrArg _ h).trans (Bool.or_true _)

def only (f : Formula) (v : List String → Bool) (atom : List String) : Bool :=
  v atom && decide (atom ∈ f.leaves.map Atom.written)

theorem eval_only {f g : Formula} (h : g.leaves ⊆ f.leaves) (v : List String → Bool) :
    g.eval (f.only v) = g.eval v := by
  apply eval_congr
  intro a ha
  have hmem := List.mem_map_of_mem (f := Atom.written) (h ha)
  rw [only, decide_eq_true hmem, Bool.and_true]

theorem only_regroup (f : Formula) : f.regroup.only = f.only := by
  funext v atom
  rw [only, only, leaves_regroup]

/-- Whether two formulas have no atom in common, as they are written. -/
def Disjoint (f g : Formula) : Prop :=
  List.Disjoint (f.leaves.map Atom.written) (g.leaves.map Atom.written)

theorem Disjoint.symm {f g : Formula} (h : f.Disjoint g) : g.Disjoint f := List.disjoint_symm h

theorem Disjoint.regroup {f g : Formula} (h : f.Disjoint g) : f.regroup.Disjoint g.regroup := by
  unfold Disjoint
  rw [leaves_regroup, leaves_regroup]
  exact h

theorem Disjoint.eval_only {f g : Formula} (h : f.Disjoint g) (v : List String → Bool) :
    g.eval (f.only v) = false := by
  apply eval_eq
  intro a ha
  have hmem : a.written ∉ f.leaves.map Atom.written := fun hf => h hf (List.mem_map_of_mem ha)
  rw [only, decide_eq_false hmem, Bool.and_false]

theorem Disjoint.eval_or_left {left right : Formula} (h : left.Disjoint right)
    (v : List String → Bool) : (or left right).eval (left.only v) = left.eval v := by
  rw [eval, h.eval_only, Bool.or_false, Formula.eval_only (List.Subset.refl _)]

theorem Disjoint.eval_or_right {left right : Formula} (h : left.Disjoint right)
    (v : List String → Bool) : (or left right).eval (right.only v) = right.eval v := by
  rw [eval, h.symm.eval_only, Bool.false_or, Formula.eval_only (List.Subset.refl _)]

/-- Of an ungrouped formula with different atoms, the regrouped one is another truth function. -/
theorem exists_eval_regroup_ne {f : Formula} (hnodup : (f.leaves.map Atom.written).Nodup)
    (h : ¬ f.Grouped) : ∃ v, f.regroup.eval v ≠ f.eval v := by
  induction f with
  | atom a => exact absurd trivial h
  | or left right hl hr =>
    rw [leaves, List.map_append, List.nodup_append'] at hnodup
    have hdis : left.Disjoint right := hnodup.2.2
    -- on the atoms of one side alone, the other side is false before and after
    by_cases hg : left.Grouped
    · obtain ⟨v, hv⟩ := hr hnodup.2.1 fun hg' => h ⟨hg, hg'⟩
      refine ⟨right.only v, ?_⟩
      rw [hdis.eval_or_right, regroup, ← only_regroup right, hdis.regroup.eval_or_right]
      exact hv
    · obtain ⟨v, hv⟩ := hl hnodup.1 hg
      refine ⟨left.only v, ?_⟩
      rw [hdis.eval_or_left, regroup, ← only_regroup left, hdis.regroup.eval_or_left]
      exact hv
  | and left right =>
    rw [leaves, List.map_append, List.nodup_append'] at hnodup
    have hdis : left.Disjoint right := hnodup.2.2
    -- the side with the `or` holds alone: half of that `or` has come to the top
    by_cases hl : left.hasOr = true
    · obtain ⟨a, b, hab⟩ := exists_regroup_or hl
      have ha : a.leaves ⊆ left.leaves := by
        rw [← leaves_regroup left, hab, leaves]
        exact List.subset_append_left _ _
      refine ⟨left.only fun _ => true, ?_⟩
      rw [regroup, hab, glue, eval, eval, eval_only ha, eval_const, hdis.eval_only]
      simp
    · have hr : right.hasOr = true := by simpa [Grouped, hl] using h
      obtain ⟨a, b, hab⟩ := exists_regroup_or hr
      have hb : b.leaves ⊆ right.leaves := by
        rw [← leaves_regroup right, hab, leaves]
        exact List.subset_append_right _ _
      have htop : b.eval (right.only fun _ => true) = true := by rw [eval_only hb, eval_const]
      refine ⟨right.only fun _ => true, ?_⟩
      rw [regroup, hab, eval_glue_or htop, eval, hdis.symm.eval_only]
      simp

theorem reading_expression {f : Formula} (hf : f.Unquoted) (h : f.Grouped)
    (v : List String → Bool) : reading v (operandsOf f.expression) = f.eval v := by
  rw [operandsOf_expression hf, reading_written h]

theorem unquoted_regroup {f : Formula} (h : f.Unquoted) : f.regroup.Unquoted := by
  unfold Unquoted
  rw [leaves_regroup]
  exact h

end Formula

/-- The expression of a grouped formula can be read, with `AND` before `OR`, and is different from
those of all grouped formulas that mean something else. The expression of an ungrouped formula with
different atoms is also that of a grouped one that means something else. -/
theorem expression_separates_grouped {f : Formula} (hf : f.Unquoted) :
    (f.Grouped → (∀ v, reading v (operandsOf f.expression) = f.eval v) ∧
      ∀ g : Formula, g.Unquoted → g.Grouped → g.eval ≠ f.eval → g.expression ≠ f.expression) ∧
    (¬ f.Grouped → (f.leaves.map Atom.written).Nodup →
      ∃ g : Formula, g.Unquoted ∧ g.Grouped ∧ g.eval ≠ f.eval ∧ g.expression = f.expression) := by
  refine ⟨fun h => ⟨Formula.reading_expression hf h, ?_⟩, fun h hnodup => ?_⟩
  · intro g hg hgrouped hne heq
    apply hne
    funext v
    rw [← Formula.reading_expression hf h, ← Formula.reading_expression hg hgrouped, heq]
  · obtain ⟨v, hv⟩ := Formula.exists_eval_regroup_ne hnodup h
    exact ⟨f.regroup, Formula.unquoted_regroup hf, f.grouped_regroup,
      fun heq => hv (congrFun heq v), Formula.expression_congr f.written_regroup⟩

/-- A comparison under an `and`, once with two flags under it too and once with one of them
outside. -/
theorem expression_separates_grouped_mixed :
    let a : Formula := .atom (.flag { text := "VAR_A" })
    let b : Formula := .atom (.flag { text := "/VAR_B" })
    let c : Formula :=
      .atom (.comparison (.word { text := "VAR_C" }) .eq (.literal "it's" (by decide)))
    let f : Formula := .and (.or a b) c
    let g : Formula := .or a (.and b c)
    (f.Unquoted ∧ ¬ f.Grouped ∧ (f.leaves.map Atom.written).Nodup ∧
      ∃ g : Formula, g.Unquoted ∧ g.Grouped ∧ g.eval ≠ f.eval ∧ g.expression = f.expression) ∧
    g.Unquoted ∧ g.Grouped ∧ ∀ v, reading v (operandsOf g.expression) = g.eval v := by
  intro a b c f g
  have hf : f.Unquoted := by
    simp [f, a, b, c, Formula.Unquoted, Formula.leaves, Atom.Unquoted, Operand.Unquoted]
  have hg : g.Unquoted := hf
  have hf' : ¬ f.Grouped := fun h => absurd h.1 (by decide)
  have hg' : g.Grouped := ⟨trivial, rfl, rfl⟩
  have hnodup : (f.leaves.map Atom.written).Nodup := by decide +kernel
  exact ⟨⟨hf, hf', hnodup, (expression_separates_grouped hf).2 hf' hnodup⟩, hg, hg',
    ((expression_separates_grouped hg).1 hg').1⟩

/-- Two conditions that mean different things and are written alike. -/
theorem expression_confuses_flags :
    let a : Formula := .atom (.flag { text := "VAR_A" })
    let b : Formula := .atom (.flag { text := "VAR_B" })
    let c : Formula := .atom (.flag { text := "VAR_C" })
    let f : Formula := .and (.or a b) c
    let g : Formula := .or a (.and b c)
    f.postfixAtoms = ["VAR_A", "VAR_B", "or", "VAR_C", "and"] ∧
    g.postfixAtoms = ["VAR_A", "VAR_B", "VAR_C", "and", "or"] ∧ f.eval ≠ g.eval ∧
    (ofAtoms f.postfixAtoms).expression = "VAR_A OR VAR_B AND VAR_C" ∧
    (ofAtoms g.postfixAtoms).expression = "VAR_A OR VAR_B AND VAR_C" := by
  intro a b c f g
  have heval : f.eval ≠ g.eval := fun h => absurd (congrFun h (· == ["VAR_A"])) (by decide +kernel)
  exact ⟨by decide +kernel, by decide +kernel, heval, by decide +kernel, by decide +kernel⟩

end VippDocdef.Docdef
