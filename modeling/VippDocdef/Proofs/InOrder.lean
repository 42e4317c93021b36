import VippDocdef.Proofs.Grouping

/-! Conditions in order. Whatever the letter case of its operators, a condition that comes in
postfix order is written in order, and its literals can be read back. Only the names that are
compared with a literal get a `NOSPACE` around them. -/

set_option autoImplicit false

namespace VippDocdef.Docdef

open Condition

/-- A word without the `NOSPACE` around it. -/
def unwrapped (word : String) : String :=
  ((Text.stripPrefix? "NOSPACE(" word).bind (Text.stripSuffix? ")")).getD word

/-- An expression without the `NOSPACE` around its operands. -/
def eraseWrappers (expression : String) : String :=
  " ".intercalate ((operandsOf expression).map unwrapped)

theorem unwrapped_of_not_mem {word : String} (h : '(' ∉ word.toList) : unwrapped word = word := by
  rw [unwrapped, Text.stripPrefix?_eq_none (by decide) h, Option.bind_none, Option.getD_none]

theorem unwrapped_wrapped (name : String) : unwrapped s!"NOSPACE({name})" = name := by
  simp [unwrapped, Text.stripPrefix?, Text.stripSuffix?, Text.after?, toString]

theorem Operand.unwrapped_written (o : Operand) : unwrapped o.written = o.written := by
  cases o with
  | word w =>
    refine unwrapped_of_not_mem fun hparen => ?_
    have hletter := List.all_eq_true.1 w.letters _ (bareName_subset _ hparen)
    exact absurd hletter (by decide)
  | literal text balanced =>
    have hquote : Text.stripPrefix? "NOSPACE(" (quote text) = none := by
      simp [quote, Text.stripPrefix?, Text.after?]
    rw [Operand.written, unwrapped, hquote, Option.bind_none, Option.getD_none]

def undouble : List Char → List Char
  | [] => []
  | [c] => [c]
  | c :: d :: cs => if c = '\'' ∧ d = '\'' then c :: undouble cs else c :: undouble (d :: cs)

theorem undouble_escape (cs : List Char) : undouble (escape cs) = cs := by
  induction cs with
  | nil => rfl
  | cons c rest ih =>
    by_cases hc : c = '\''
    · simp [escape, hc, undouble, ih]
    · rw [escape, if_neg hc]
      cases hrest : escape rest with
      | nil =>
        rw [hrest] at ih
        rw [← ih]
        rfl
      | cons d more => simp [undouble, hc, ← hrest, ih]

def unquote? (word : String) : Option String :=
  ((Text.stripPrefix? "'" word).bind (Text.stripSuffix? "'")).map fun inner =>
    .ofList (undouble inner.toList)

theorem unquote?_quote (text : String) : unquote? (quote text) = some text := by
  simp [unquote?, quote, Text.stripPrefix?, Text.stripSuffix?, Text.after?, undouble_escape]

theorem unquote?_of_not_mem {word : String} (h : '\'' ∉ word.toList) : unquote? word = none := by
  rw [unquote?, Text.stripPrefix?_eq_none (by decide) h]
  rfl

theorem unquote?_wrapped (name : String) : unquote? s!"NOSPACE({name})" = none := by
  simp [unquote?, Text.stripPrefix?, Text.after?, toString]

def Operand.literals : Operand → List String
  | .word _ => []
  | .literal text _ => [text]

theorem Operand.filterMap_written {o : Operand} (h : o.Unquoted) :
    [o.written].filterMap unquote? = o.literals := by
  cases o with
  | word w =>
    have hname : unquote? (bareName w.text) = none :=
      unquote?_of_not_mem fun hquote => h (bareName_subset _ hquote)
    simp [Operand.written, Operand.literals, hname]
  | literal text balanced => simp [Operand.written, Operand.literals, unquote?_quote]

theorem Relation.unwrapped_symbol (r : Relation) : unwrapped r.symbol = r.symbol :=
  unwrapped_of_not_mem (by cases r <;> decide)

theorem Relation.unquote?_symbol (r : Relation) : unquote? r.symbol = none :=
  unquote?_of_not_mem (by cases r <;> decide)

namespace Atom

def inOrder : Atom → List String
  | flag w => [bareName w.text]
  | comparison left relation right => [left.written, relation.symbol, right.written]

def literals : Atom → List String
  | flag _ => []
  | comparison left _ right => left.literals ++ right.literals

theorem map_unwrapped_written (a : Atom) : a.written.map unwrapped = a.inOrder := by
  cases a with
  | flag w => exact congrArg (fun x => [x]) (Operand.word w).unwrapped_written
  | comparison left relation right =>
    simp only [written, inOrder, List.map_cons, List.map_nil, relation.unwrapped_symbol,
      right.unwrapped_written]
    split
    · next hwraps =>
      obtain ⟨w, rfl, hname⟩ := Operand.eq_word_of_wraps hwraps
      rw [unwrapped_wrapped, Operand.written, hname, Operand.text]
    · rw [left.unwrapped_written]

theorem filterMap_written {a : Atom} (h : a.Unquoted) :
    a.written.filterMap unquote? = a.literals := by
  cases a with
  | flag w => exact Operand.filterMap_written (o := .word w) h
  | comparison left relation right =>
    have hright := Operand.filterMap_written h.2
    simp only [written, literals]
    split
    · next hwraps =>
      obtain ⟨w, rfl, -⟩ := Operand.eq_word_of_wraps hwraps
      rw [List.filterMap_cons_none (unquote?_wrapped _),
        List.filterMap_cons_none relation.unquote?_symbol, hright]
      rfl
    · have hwords : [left.written, relation.symbol, right.written]
          = [left.written] ++ relation.symbol :: [right.written] := rfl
      rw [hwords, List.filterMap_append, List.filterMap_cons_none relation.unquote?_symbol,
        Operand.filterMap_written h.1, hright]

end Atom

namespace Formula

/-- The words of a formula in order, with DocDEF operators and no wrapper. -/
def inOrder : Formula → List String
  | atom a => a.inOrder
  | and left right => left.inOrder ++ "AND" :: right.inOrder
  | or left right => left.inOrder ++ "OR" :: right.inOrder

def literals (f : Formula) : List String := f.leaves.flatMap Atom.literals

theorem map_unwrapped_written (f : Formula) : f.written.map unwrapped = f.inOrder := by
  induction f with
  | atom a => exact a.map_unwrapped_written
  | and left right hl hr =>
    have hand : unwrapped "AND" = "AND" := unwrapped_of_not_mem (by decide)
    rw [written, inOrder, List.map_append, List.map_cons, hl, hr, hand]
  | or left right hl hr =>
    have hor : unwrapped "OR" = "OR" := unwrapped_of_not_mem (by decide)
    rw [written, inOrder, List.map_append, List.map_cons, hl, hr, hor]

theorem filterMap_written {f : Formula} (h : f.Unquoted) :
    f.written.filterMap unquote? = f.literals := by
  induction f with
  | atom a => exact (Atom.filterMap_written (h a List.mem_cons_self)).trans (List.append_nil _).symm
  | and left right hl hr =>
    obtain ⟨hleft, hright⟩ := List.forall_mem_append.1 h
    have hand : unquote? "AND" = none := unquote?_of_not_mem (by decide)
    rw [written, List.filterMap_append, List.filterMap_cons_none hand, hl hleft, hr hright]
    exact List.flatMap_append.symm
  | or left right hl hr =>
    obtain ⟨hleft, hright⟩ := List.forall_mem_append.1 h
    have hor : unquote? "OR" = none := unquote?_of_not_mem (by decide)
    rw [written, List.filterMap_append, List.filterMap_cons_none hor, hl hleft, hr hright]
    exact List.flatMap_append.symm

end Formula

/-- Nothing is hoisted out of a formula in postfix order, and its expression is the formula in
order, some names wrapped. If no name has a quote in it, the wrappers can be erased from the text,
and the literals be read. -/
theorem ofAtoms_inOrder (s : Spelled) :
    let c : Condition := ofAtoms s.postfixAtoms
    c.hoisted = [] ∧
    (∃ words : List String, c.expression = " ".intercalate words ∧
      words.map unwrapped = s.formula.inOrder) ∧
    (s.formula.Unquoted → eraseWrappers c.expression = " ".intercalate s.formula.inOrder ∧
      (operandsOf c.expression).filterMap unquote? = s.formula.literals) := by
  intro c
  obtain ⟨hhoisted, hexpression⟩ := s.ofAtoms_postfixAtoms
  refine ⟨hhoisted, ⟨_, hexpression, s.formula.map_unwrapped_written⟩, fun h => ?_⟩
  have hoperands : operandsOf c.expression = s.formula.written := by
    rw [hexpression, Formula.operandsOf_written h]
  constructor
  · rw [eraseWrappers, hoperands, s.formula.map_unwrapped_written]
  · rw [hoperands, Formula.filterMap_written h]

/-- A literal with a quote, parentheses and operators in it, a name with a slash and mixed letter
case. -/
theorem ofAtoms_inOrder_mixed :
    let s : Spelled :=
      .joined
        (.joined
          (.comparison (.word { text := "VAR_KIND" }) .eq "Eq" (by decide +kernel)
            (.literal "IT'S (A AND B) OR NE" (by decide)))
          .and "AND" (by decide +kernel) (.flag { text := "/VAR_OPEN" }))
        .or "oR" (by decide +kernel)
        (.comparison (.word { text := "/COUNT" }) .ge "gE" (by decide +kernel)
          (.word { text := "-12.5" }))
    s.postfixAtoms
      = ["VAR_KIND Eq (IT'S (A AND B) OR NE)", "/VAR_OPEN", "AND", "/COUNT gE -12.5", "oR"] ∧
    s.formula.Unquoted ∧
    (ofAtoms s.postfixAtoms).expression
      = "NOSPACE(VAR_KIND) == 'IT''S (A AND B) OR NE' AND VAR_OPEN OR COUNT >= -12.5" ∧
    eraseWrappers (ofAtoms s.postfixAtoms).expression
      = " ".intercalate
        ["VAR_KIND", "==", "'IT''S (A AND B) OR NE'", "AND", "VAR_OPEN", "OR", "COUNT", ">=",
          "-12.5"] ∧
    (operandsOf (ofAtoms s.postfixAtoms).expression).filterMap unquote?
      = ["IT'S (A AND B) OR NE"] := by
  intro s
  have h : s.formula.Unquoted := by
    simp [s, Spelled.formula, Connective.formula, Formula.Unquoted, Formula.leaves, Atom.Unquoted,
      Operand.Unquoted]
  obtain ⟨herased, hliterals⟩ := (ofAtoms_inOrder s).2.2 h
  exact ⟨by decide +kernel, h, s.ofAtoms_postfixAtoms.2.trans (by decide +kernel), herased,
    hliterals⟩

end VippDocdef.Docdef
