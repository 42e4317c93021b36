import VippDocdef.Proofs.InOrder
import VippDocdef.Proofs.Quotations

/-! First values of `/INI` variables as terms. A reader of terms takes a quote that stands alone for
the end of a literal. First values are put between quotes as they stand, so a value reads back as it
is in the source when it has no quote, and then only. -/

set_option autoImplicit false

namespace VippDocdef.Docdef

/-- The text of a literal behind its opening quote, with what follows the literal. -/
def literalFrom : List Char → Option (List Char × List Char)
  | [] => none
  | [c] => if c = '\'' then some ([], []) else none
  | c :: d :: cs =>
    if c ≠ '\'' then (literalFrom (d :: cs)).map fun read => (c :: read.1, read.2)
    else if d = '\'' then (literalFrom cs).map fun read => ('\'' :: read.1, read.2)
    else some ([], d :: cs)

/-- The text of a word that is one literal from end to end. -/
def literal? (word : String) : Option String :=
  ((Text.stripPrefix? "'" word).bind fun behind => literalFrom behind.toList).bind fun read =>
    if read.2 = [] then some (.ofList read.1) else none

theorem eq_of_literalFrom {cs text rest : List Char} (h : literalFrom cs = some (text, rest)) :
    cs = escape text ++ '\'' :: rest := by
  fun_induction literalFrom cs generalizing text with
  | case1 => simp at h
  | case2 => simp_all [escape]
  | case3 => simp at h
  | case4 c d cs hc ih =>
    obtain ⟨read, hread, heq⟩ := Option.map_eq_some_iff.1 h
    obtain ⟨rfl, rfl⟩ := Prod.mk.inj heq
    rw [escape, if_neg hc, List.cons_append, ← ih hread]
  | case5 c cs hc ih =>
    obtain ⟨read, hread, heq⟩ := Option.map_eq_some_iff.1 h
    obtain ⟨rfl, rfl⟩ := Prod.mk.inj heq
    rw [escape, if_pos rfl, List.cons_append, List.cons_append, ← ih hread, not_not.1 hc]
  | case6 c d cs hc hd =>
    obtain ⟨rfl, rfl⟩ := Prod.mk.inj (Option.some.inj h)
    rw [not_not.1 hc]
    rfl

theorem literalFrom_escape (text : List Char) :
    literalFrom (escape text ++ ['\'']) = some (text, []) := by
  induction text with
  | nil => rfl
  | cons c text ih =>
    by_cases hc : c = '\''
    · simp [escape, hc, literalFrom, ih]
    · obtain ⟨d, more, hbehind⟩ : ∃ d more, escape text ++ ['\''] = d :: more :=
        List.exists_cons_of_ne_nil (by simp)
      rw [escape, if_neg hc, List.cons_append, hbehind, literalFrom, if_pos hc, ← hbehind, ih]
      rfl

/-- A literal is read as exactly the text that is written so. -/
theorem literal?_eq_some_iff {word text : String} :
    literal? word = some text ↔ word = quote text := by
  constructor
  · intro h
    obtain ⟨⟨cs, rest⟩, hread, hwhole⟩ := Option.bind_eq_some_iff.1 h
    obtain ⟨behind, hopen, hfrom⟩ := Option.bind_eq_some_iff.1 hread
    obtain ⟨rfl, htext⟩ : rest = [] ∧ String.ofList cs = text := by simpa using hwhole
    rw [Text.eq_of_stripPrefix? hopen, ← htext, quote, ← String.toList_inj]
    simp [eq_of_literalFrom hfrom]
  · rintro rfl
    simp [literal?, quote, Text.stripPrefix?, Text.after?, literalFrom_escape]

theorem literal?_wrapped {content text : String} :
    literal? ("'" ++ content ++ "'") = some text ↔ content.toList = escape text.toList := by
  rw [literal?_eq_some_iff, quote, ← String.toList_inj]
  simp

theorem length_escape (cs : List Char) : (escape cs).length = cs.length + cs.count '\'' := by
  induction cs with
  | nil => rfl
  | cons c cs ih =>
    rw [escape]
    split
    · next hc =>
      subst hc
      simp only [List.length_cons, List.count_cons_self, ih]
      omega
    · next hc =>
      simp only [List.length_cons, List.count_cons_of_ne hc, ih]
      omega

theorem escape_eq_self_iff {content : String} :
    content.toList = escape content.toList ↔ '\'' ∉ content.toList := by
  constructor
  · intro h hmem
    have hlength := length_escape content.toList
    have hcount := List.count_pos_iff.2 hmem
    rw [← h] at hlength
    omega
  · intro h
    have hquote := quote_of_not_mem h
    simpa [quote, ← String.toList_inj] using hquote.symm

def IsWholeNumber (word : String) : Prop :=
  ∃ digits : String, (word = digits ∨ word = "-" ++ digits) ∧ digits ≠ "" ∧ ∀ c ∈ digits.toList,
    c.isDigit = true

theorem isWhole_iff {word : String} : isWhole word = true ↔ IsWholeNumber word := by
  have hdigits :
      ∀ {digits : String}, (!digits.toList.isEmpty && digits.toList.all Char.isDigit) = true ↔
      digits ≠ "" ∧ ∀ c ∈ digits.toList, c.isDigit = true := by
    simp
  unfold isWhole
  rw [hdigits]
  constructor
  · intro h
    cases hsign : Text.stripPrefix? "-" word with
    | none => exact ⟨word, .inl rfl, by simpa [hsign] using h⟩
    | some digits => exact ⟨digits, .inr (Text.eq_of_stripPrefix? hsign), by simpa [hsign] using h⟩
  · rintro ⟨digits, rfl | rfl, hne, hall⟩
    · have hsign : Text.stripPrefix? "-" word = none :=
        Text.stripPrefix?_eq_none (c := '-') (by decide) fun hmem =>
          absurd (hall _ hmem) (by decide)
      simpa [hsign] using ⟨hne, hall⟩
    · have hsign : Text.stripPrefix? "-" ("-" ++ digits) = some digits := by
        simp [Text.stripPrefix?, Text.after?]
      simpa [hsign] using ⟨hne, hall⟩

theorem IsWholeNumber.not_mem {word : String} (h : IsWholeNumber word) : '\'' ∉ word.toList := by
  obtain ⟨digits, hword, -, hall⟩ := h
  intro hmem
  have hquote : '\'' ∈ digits.toList := by
    rcases hword with rfl | rfl
    · exact hmem
    · simpa using hmem
  exact absurd (hall _ hquote) (by decide)

/-- What a value says: the text inside its parentheses, or all of it. -/
def contentOf (value : String) : String := (unparen? value).getD value

theorem initialValue_cases (value : String) :
    (IsWholeNumber (initialValue value) ∧ '\'' ∉ (contentOf value).toList) ∨
      initialValue value = "'" ++ contentOf value ++ "'" := by
  unfold initialValue contentOf
  split
  · next h =>
    subst h
    exact .inl ⟨isWhole_iff.1 (by decide), by decide⟩
  split
  · next h =>
    subst h
    exact .inl ⟨isWhole_iff.1 (by decide), by decide⟩
  split
  · next inner hinner => exact .inr (by rw [hinner]; rfl)
  · next hinner =>
    rw [hinner]
    split
    · next hwhole => exact .inl ⟨isWhole_iff.1 hwhole, (isWhole_iff.1 hwhole).not_mem⟩
    · exact .inr rfl

section Parenthesized

variable {value inner : String} (h : unparen? value = some inner)

include h

theorem initialValue_parenthesized : initialValue value = "'" ++ inner ++ "'" := by
  have hvalue := eq_of_unparen? h
  have hother : ∀ word : String, '(' ∉ word.toList → value ≠ word := by
    rintro word hword rfl
    exact hword (by simp [hvalue])
  rw [initialValue, if_neg (hother _ (by decide)), if_neg (hother _ (by decide)), h]

theorem term_parenthesized : term value = quote inner := by
  have hslash : Text.stripPrefix? "/" value = none := by
    rw [eq_of_unparen? h]
    simp [Text.stripPrefix?, Text.after?]
  simp [term, hslash, h]

end Parenthesized

/-- A first value is a number or the literal of what the value says, and the one that other
assignments give, if and only if the value has no quote. -/
theorem initialValue_valid_iff (value : String) :
    ((IsWholeNumber (initialValue value) ∨ literal? (initialValue value) = some (contentOf value)) ↔
        '\'' ∉ (contentOf value).toList) ∧
      ∀ inner, unparen? value = some inner →
        (initialValue value = term value ↔ '\'' ∉ inner.toList) := by
  constructor
  · rcases initialValue_cases value with ⟨hwhole, hmem⟩ | hquoted
    · exact ⟨fun _ => hmem, fun _ => .inl hwhole⟩
    · have hnot : ¬ IsWholeNumber (initialValue value) := by
        intro h
        exact h.not_mem (by simp [hquoted])
      rw [hquoted, literal?_wrapped, escape_eq_self_iff]
      rw [hquoted] at hnot
      simp [hnot]
  · intro inner hinner
    rw [initialValue_parenthesized hinner, term_parenthesized hinner, ← literal?_eq_some_iff,
      literal?_wrapped, escape_eq_self_iff]

theorem initialValue_valid_iff_pieces :
    unparen? "(-12 (net))" = some "-12 (net)" ∧ literal? (initialValue "(-12 (net))")
      = some "-12 (net)" ∧
      initialValue "(-12 (net))" = term "(-12 (net))" := by
  have hinner : unparen? "(-12 (net))" = some "-12 (net)" := by decide
  have hsame := ((initialValue_valid_iff "(-12 (net))").2 _ hinner).2 (by decide)
  exact ⟨hinner, by decide, hsame⟩

/-- A lone quote ends the literal, and two quotes of the value are read as one. -/
theorem initialValue_quote_unescaped :
    initialValue "(it's)" = "'it's'" ∧ literal? (initialValue "(it's)") = none ∧
      term "(it's)" = "'it''s'" ∧
      literal? (initialValue "(it''s)") = some "it's" := by
  decide

end VippDocdef.Docdef
