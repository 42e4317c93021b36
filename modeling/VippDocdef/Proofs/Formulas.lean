import VippDocdef.Docdef.Condition

/-! Conditions as formulas. A formula joins comparisons and flags by `and` and `or`; given in
postfix order, it is written in order, each atom with DocDEF operators. -/

set_option autoImplicit false

namespace VippDocdef.Docdef

open Condition

section Cutting

variable {σ : Type} (step : σ → Char → σ) (resting : σ → Bool)

/-- Cuts at the blanks that are met in a resting state. -/
def cutFrom (s : σ) (word : List Char) : List Char → List String
  | [] => addOperand word []
  | c :: cs =>
    if Text.isBlank c && resting s then addOperand word (cutFrom s [] cs)
    else cutFrom (step s c) (c :: word) cs

def scan (s : σ) : List Char → Option σ
  | [] => some s
  | c :: cs => if Text.isBlank c && resting s then none else scan (step s c) cs

variable {step resting}

theorem scan_append (s : σ) (a b : List Char) :
    scan step resting s (a ++ b) = (scan step resting s a).bind (scan step resting · b) := by
  induction a generalizing s with
  | nil => rfl
  | cons c rest ih =>
    simp only [List.cons_append, scan]
    split
    · rfl
    · exact ih _

theorem cutFrom_append {s t : σ} {a : List Char} (h : scan step resting s a = some t)
    (word b : List Char) :
    cutFrom step resting s word (a ++ b) = cutFrom step resting t (a.reverse ++ word) b := by
  induction a generalizing s word with
  | nil =>
    obtain rfl := Option.some.inj h
    rfl
  | cons c rest ih =>
    simp only [scan] at h
    split at h
    · cases h
    · next hc =>
      simp only [List.cons_append, cutFrom, hc, Bool.false_eq_true, if_false]
      rw [ih h, List.reverse_cons, List.append_assoc]
      rfl

/-- A word that is gathered as a whole and comes back to the state it began in. -/
def Solid (step : σ → Char → σ) (resting : σ → Bool) (s : σ) (word : String) : Prop :=
  word ≠ "" ∧ scan step resting s word.toList = some s

theorem addOperand_reverse {word : String} (h : word ≠ "") (rest : List String) :
    addOperand (word.toList.reverse ++ []) rest = word :: rest := by
  have hne : word.toList ≠ [] := by simpa using h
  simp [addOperand, hne]

theorem cutFrom_solid {s : σ} (hs : resting s = true) {word : String}
    (h : Solid step resting s word) (cs : List Char) :
    cutFrom step resting s [] (word.toList ++ ' ' :: cs)
      = word :: cutFrom step resting s [] cs := by
  have hblank : (Text.isBlank ' ' && resting s) = true := by rw [Text.isBlank_space, hs]; rfl
  rw [cutFrom_append h.2]
  simp only [cutFrom, hblank, if_true]
  rw [addOperand_reverse h.1]

theorem cutFrom_join_append {s : σ} (hs : resting s = true) {front back : List String}
    (h : ∀ w ∈ front, Solid step resting s w) (hback : back ≠ []) :
    cutFrom step resting s [] (" ".intercalate (front ++ back)).toList
      = front ++ cutFrom step resting s [] (" ".intercalate back).toList := by
  induction front with
  | nil => rfl
  | cons w rest ih =>
    obtain ⟨hw, hrest⟩ := List.forall_mem_cons.1 h
    rw [List.cons_append, String.intercalate_cons_of_ne_nil (by simp [hback]), String.toList_append,
      String.toList_append, List.append_assoc]
    show cutFrom step resting s [] (w.toList ++ ' ' :: (" ".intercalate (rest ++ back)).toList) = _
    rw [cutFrom_solid hs hw, ih hrest]
    rfl

theorem cutFrom_join {s : σ} (hs : resting s = true) {words : List String}
    (h : ∀ w ∈ words, Solid step resting s w) :
    cutFrom step resting s [] (" ".intercalate words).toList = words := by
  rcases List.eq_nil_or_concat words with rfl | ⟨front, last, rfl⟩
  · rfl
  · rw [List.concat_eq_append] at h ⊢
    obtain ⟨hfront, hlast⟩ := List.forall_mem_append.1 h
    obtain ⟨hne, hscan⟩ := hlast last List.mem_cons_self
    have hcut := cutFrom_append hscan [] []
    rw [List.append_nil] at hcut
    rw [cutFrom_join_append hs hfront (by simp), String.intercalate_singleton, hcut, cutFrom,
      addOperand_reverse hne]

end Cutting

def parenStep (depth : Nat) (c : Char) : Nat :=
  if c = '(' then depth + 1 else if c = ')' then depth - 1 else depth

def outside (depth : Nat) : Bool := depth == 0

theorem splitFrom_eq (depth : Nat) (word cs : List Char) :
    splitFrom depth word cs = cutFrom parenStep outside depth word cs := by
  have hopen : Text.isBlank '(' = false := by decide
  have hclose : Text.isBlank ')' = false := by decide
  induction cs generalizing depth word with
  | nil => rfl
  | cons c rest ih =>
    rw [splitFrom, cutFrom]
    by_cases hc : c = '('
    · simp [hc, hopen, ih, parenStep]
    · by_cases hc' : c = ')'
      · simp [hc', hclose, ih, parenStep]
      · by_cases hdepth : depth = 0
        · simp [hc, hc', hdepth, ih, outside, parenStep]
        · simp [hc, hc', hdepth, ih, outside, parenStep]

theorem isOperator_iff (word : String) : isOperator word = true ↔
    word.toLower ∈ ["eq", "ne", "lt", "gt", "le", "ge", "and", "or", "not"] := by
  unfold isOperator comparison? logical?
  constructor
  · intro h
    split at h <;> split at h <;> simp_all
  · intro h
    simp only [List.mem_cons, List.not_mem_nil, or_false] at h
    rcases h with h | h | h | h | h | h | h | h | h <;> simp [h]

theorem isLower_of_isOperator {word : String} (h : isOperator word = true) {c : Char}
    (hc : c ∈ word.toList) :
    c.toLower.isLower = true := by
  have hlower : c.toLower ∈ word.toLower.toList := by
    show c.toLower ∈ (word.map Char.toLower).toList
    rw [String.toList_map]
    exact List.mem_map_of_mem hc
  have hletters : ∀ w ∈ ["eq", "ne", "lt", "gt", "le", "ge", "and", "or", "not"],
      w.toList.all Char.isLower = true := by decide
  exact List.all_eq_true.1 (hletters _ ((isOperator_iff word).1 h)) _ hlower

theorem isOperator_of_mem {word : String} {c : Char} (hc : c.toLower.isLower = false)
    (h : c ∈ word.toList) : isOperator word = false := by
  rw [← Bool.not_eq_true]
  intro hword
  rw [isLower_of_isOperator hword h] at hc
  cases hc

theorem comparison?_eq_none {word : String} (h : isOperator word = false) :
    comparison? word = none := by
  simpa using (Bool.or_eq_false_iff.1 h).1

theorem logical?_eq_none {word : String} (h : isOperator word = false) : logical? word = none := by
  simpa using (Bool.or_eq_false_iff.1 h).2

def isWordChar (c : Char) : Bool := !Text.isBlank c && c != '(' && c != ')'

def bareName (text : String) : String := (Text.stripPrefix? "/" text).getD text

def reservedWords : List String := ["++", "--", "FRLEFT"] ++ ignoredWords

theorem notIgnored_of_notReserved {word : String} (h : word ∉ reservedWords) :
    word ∉ ignoredWords :=
  fun hmem => h (List.mem_append_right _ hmem)

structure Word where
  text : String
  letters : text.toList.all isWordChar = true := by decide +kernel
  named : bareName text ≠ "" := by decide +kernel
  notOperator : isOperator text = false := by decide +kernel
  nameNotOperator : isOperator (bareName text) = false := by decide +kernel
  notReserved : text ∉ reservedWords := by decide +kernel

/-- The parentheses that are open behind some characters, if only such are closed as were opened. -/
def openBehind (depth : Nat) : List Char → Option Nat
  | [] => some depth
  | c :: cs =>
    if c = '(' then openBehind (depth + 1) cs
    else if c = ')' then if depth = 0 then none else openBehind (depth - 1) cs
    else openBehind depth cs

inductive Operand where
  | word (w : Word)
  /-- A string in parentheses, with balanced parentheses inside. -/
  | literal (text : String) (balanced : openBehind 0 text.toList = some 0)

def Operand.text : Operand → String
  | .word w => w.text
  | .literal text _ => "(" ++ text ++ ")"

def Operand.written : Operand → String
  | .word w => bareName w.text
  | .literal text _ => quote text

theorem scan_letters {cs : List Char} (h : cs.all isWordChar = true) (depth : Nat) :
    scan parenStep outside depth cs = some depth := by
  induction cs with
  | nil => rfl
  | cons c rest ih =>
    obtain ⟨hc, hrest⟩ := Bool.and_eq_true_iff.1 (List.all_cons ▸ h)
    simp only [isWordChar, Bool.and_eq_true, Bool.not_eq_true', bne_iff_ne] at hc
    simp [scan, parenStep, hc, ih hrest]

theorem scan_of_openBehind {depth depth' : Nat} {cs : List Char}
    (h : openBehind depth cs = some depth') :
    scan parenStep outside (depth + 1) cs = some (depth' + 1) := by
  induction cs generalizing depth with
  | nil => simpa [openBehind, scan] using h
  | cons c rest ih =>
    have hinside : (Text.isBlank c && outside (depth + 1)) = false := by simp [outside]
    simp only [openBehind] at h
    simp only [scan, hinside, Bool.false_eq_true, if_false, parenStep]
    split at h
    · next hc =>
      rw [if_pos hc]
      exact ih h
    · next hc =>
      rw [if_neg hc]
      split at h
      · next hc' =>
        rw [if_pos hc']
        split at h
        · cases h
        · next hdepth =>
          -- one of the open ones is closed, so the scan still is inside
          have hback : depth + 1 - 1 = depth - 1 + 1 := by omega
          rw [hback]
          exact ih h
      · next hc' =>
        rw [if_neg hc']
        exact ih h

theorem Word.solid (w : Word) : Solid parenStep outside 0 w.text := by
  refine ⟨fun h => w.named ?_, scan_letters w.letters 0⟩
  rw [h]
  decide

theorem Operand.solid (o : Operand) : Solid parenStep outside 0 o.text := by
  cases o with
  | word w => exact w.solid
  | literal text balanced =>
    refine ⟨by simp [Operand.text], ?_⟩
    have htext : (Operand.literal text balanced).text.toList = '(' :: (text.toList ++ [')']) := by
      simp [Operand.text]
    rw [htext]
    show scan parenStep outside 1 (text.toList ++ [')']) = some 0
    rw [scan_append, scan_of_openBehind balanced]
    rfl

theorem Operand.notReserved (o : Operand) : o.text ∉ reservedWords := by
  cases o with
  | word w => exact w.notReserved
  | literal text balanced =>
    intro hmem
    have hparen : ∀ w ∈ reservedWords, '(' ∉ w.toList := by decide
    exact hparen _ hmem (by simp [Operand.text])

theorem Operand.isOperator_text (o : Operand) : isOperator o.text = false := by
  cases o with
  | word w => exact w.notOperator
  | literal text balanced =>
    have hparen : '(' ∈ (Operand.literal text balanced).text.toList := by simp [Operand.text]
    exact isOperator_of_mem (by decide) hparen

theorem unparen?_paren (text : String) : unparen? ("(" ++ text ++ ")") = some text := by
  simp [unparen?, Text.stripPrefix?, Text.stripSuffix?, Text.after?]

theorem Word.unparen?_text (w : Word) : unparen? w.text = none := by
  have hletters := w.letters
  unfold unparen? Text.stripPrefix?
  cases hw : w.text.toList with
  | nil => simp [Text.after?]
  | cons c cs =>
    rw [hw, List.all_cons, Bool.and_eq_true] at hletters
    have hc : '(' ≠ c := by
      rintro rfl
      exact absurd hletters.1 (by decide)
    simp [Text.after?, hc]

theorem Operand.term_text (o : Operand) : term o.text = o.written := by
  cases o with
  | word w =>
    simp only [Operand.text, Operand.written, term, bareName, w.unparen?_text]
    cases Text.stripPrefix? "/" w.text <;> rfl
  | literal text balanced =>
    have hslash : Text.stripPrefix? "/" ("(" ++ text ++ ")") = none := by
      simp [Text.stripPrefix?, Text.after?]
    simp only [Operand.text, Operand.written, term, hslash, unparen?_paren]

def startsVariable (name : String) : Bool :=
  Text.startsWith name "VAR_" || Text.startsWith name "FLD["

theorem startsVariable_iff (name : String) :
    startsVariable name = true ↔ "VAR_".toList <+: name.toList ∨ "FLD[".toList <+: name.toList := by
  simp only [startsVariable, Text.startsWith, Bool.or_eq_true, List.isPrefixOf_iff_prefix]

theorem startsVariable_of_wraps {op before next : String} (h : wraps op before next = true) :
    startsVariable before = true := by
  simp only [wraps, Bool.and_eq_true] at h
  exact h.1.2

theorem isOperator_of_startsVariable {name : String} (h : startsVariable name = true) :
    isOperator name = false := by
  rcases (startsVariable_iff name).1 h with hvar | hfld
  · exact isOperator_of_mem (c := '_') (by decide) (hvar.subset (by decide))
  · exact isOperator_of_mem (c := '[') (by decide) (hfld.subset (by decide))

theorem Operand.eq_word_of_startsVariable {o : Operand} (h : startsVariable o.text = true) :
    ∃ w, o = .word w ∧ bareName w.text = w.text := by
  have hhead : o.text.toList.head? = some 'V' ∨ o.text.toList.head? = some 'F' := by
    rcases (startsVariable_iff o.text).1 h with ⟨rest, hrest⟩ | ⟨rest, hrest⟩
    · exact .inl (hrest ▸ rfl)
    · exact .inr (hrest ▸ rfl)
  cases o with
  | word w =>
    refine ⟨w, rfl, ?_⟩
    have hslash : Text.stripPrefix? "/" w.text = none := by
      rw [Text.stripPrefix?, Option.map_eq_none_iff, Option.eq_none_iff_forall_ne_some]
      intro rest hrest
      rw [Operand.text, Text.append_of_after? hrest] at hhead
      simp at hhead
    rw [bareName, hslash, Option.getD_none]
  | literal text balanced => simp [Operand.text] at hhead

theorem Operand.eq_word_of_wraps {o : Operand} {op next : String}
    (h : wraps op o.text next = true) :
    ∃ w, o = .word w ∧ bareName w.text = w.text :=
  Operand.eq_word_of_startsVariable (startsVariable_of_wraps h)

inductive Relation where
  | eq
  | ne
  | lt
  | gt
  | le
  | ge
  deriving DecidableEq, Repr

def Relation.word : Relation → String
  | .eq => "eq"
  | .ne => "ne"
  | .lt => "lt"
  | .gt => "gt"
  | .le => "le"
  | .ge => "ge"

def Relation.symbol : Relation → String
  | .eq => "=="
  | .ne => "<>"
  | .lt => "<"
  | .gt => ">"
  | .le => "<="
  | .ge => ">="

inductive Atom where
  | flag (w : Word)
  | comparison (left : Operand) (relation : Relation) (right : Operand)

namespace Atom

def words : Atom → List String
  | flag w => [w.text]
  | comparison left relation right => [left.text, relation.word, right.text]

def converted : Atom → List String
  | flag w => [w.text]
  | comparison left relation right =>
    [if wraps relation.symbol left.text right.text then s!"NOSPACE({left.text})" else left.text,
      relation.symbol, right.text]

def written : Atom → List String
  | flag w => [bareName w.text]
  | comparison left relation right =>
    [if wraps relation.symbol left.text right.text then s!"NOSPACE({left.text})" else left.written,
      relation.symbol, right.written]

end Atom

inductive Formula where
  | atom (a : Atom)
  | and (left right : Formula)
  | or (left right : Formula)

namespace Formula

def postfixAtoms : Formula → List String
  | atom a => [" ".intercalate a.words]
  | and left right => left.postfixAtoms ++ (right.postfixAtoms ++ ["and"])
  | or left right => left.postfixAtoms ++ (right.postfixAtoms ++ ["or"])

def written : Formula → List String
  | atom a => a.written
  | and left right => left.written ++ "AND" :: right.written
  | or left right => left.written ++ "OR" :: right.written

end Formula

inductive Connective where
  | and
  | or
  deriving DecidableEq, Repr

def Connective.word : Connective → String
  | .and => "and"
  | .or => "or"

def Connective.symbol : Connective → String
  | .and => "AND"
  | .or => "OR"

def Connective.formula : Connective → Formula → Formula → Formula
  | .and => .and
  | .or => .or

/-- A formula whose operators are spelled in some letter case. -/
inductive Spelled where
  | flag (w : Word)
  | comparison (left : Operand) (relation : Relation) (word : String) (lower : word.toLower
      = relation.word)
      (right : Operand)
  | joined (left : Spelled) (connective : Connective) (word : String) (lower : word.toLower
      = connective.word)
      (right : Spelled)

namespace Spelled

def formula : Spelled → Formula
  | flag w => .atom (.flag w)
  | comparison left relation _ _ right => .atom (.comparison left relation right)
  | joined left connective _ _ right => connective.formula left.formula right.formula

def postfixAtoms : Spelled → List String
  | flag w => [w.text]
  | comparison left _ word _ right => [" ".intercalate [left.text, word, right.text]]
  | joined left _ word _ right => left.postfixAtoms ++ (right.postfixAtoms ++ [word])

def words : Spelled → List String
  | flag w => [w.text]
  | comparison left _ word _ right => [left.text, word, right.text]
  | joined left _ word _ right => left.words ++ word :: right.words

def converted : Spelled → List String
  | flag w => [w.text]
  | comparison left relation _ _ right => (Atom.comparison left relation right).converted
  | joined left _ word _ right => left.converted ++ word :: right.converted

theorem words_ne_nil (s : Spelled) : s.words ≠ [] := by cases s <;> simp [words]

end Spelled

section Spelling

variable {word : String}

theorem Relation.comparison?_eq {r : Relation} (h : word.toLower = r.word) :
    comparison? word = some r.symbol := by
  unfold comparison?
  rw [h]
  cases r <;> rfl

theorem Connective.comparison?_eq {c : Connective} (h : word.toLower = c.word) :
    comparison? word = none := by
  unfold comparison?
  rw [h]
  cases c <;> rfl

theorem Connective.logical?_eq {c : Connective} (h : word.toLower = c.word) :
    logical? word = some c.symbol := by
  unfold logical?
  rw [h]
  cases c <;> rfl

theorem Connective.isConnective_eq {c : Connective} (h : word.toLower = c.word) :
    isConnective word = true := by
  cases c <;> simp [isConnective, h, Connective.word]

theorem Relation.isOperator_eq {r : Relation} (h : word.toLower = r.word) :
    isOperator word = true := by
  simp [isOperator, r.comparison?_eq h]

theorem Connective.isOperator_eq {c : Connective} (h : word.toLower = c.word) :
    isOperator word = true := by
  simp [isOperator, c.logical?_eq h]

end Spelling

theorem isWordChar_of_isLower {c : Char} (h : c.toLower.isLower = true) : isWordChar c = true := by
  have hrange : 65 ≤ c.toNat ∧ c.toNat ≤ 122 := by
    delta Char.toLower Char.isLower at h
    simp only [Bool.and_eq_true, decide_eq_true_eq, ge_iff_le, UInt32.le_iff_toNat_le] at h
    rw [← Char.toNat_val]
    split at h
    · next hupper => exact ⟨hupper.1, Nat.le_trans hupper.2 (by decide)⟩
    · exact ⟨Nat.le_trans (by decide) h.1, h.2⟩
  have hblank : Text.isBlank c = false := by
    simp only [Text.isBlank, Text.blankRanges, List.any_cons, List.any_nil, Bool.or_false,
      Bool.or_eq_false_iff, Bool.and_eq_false_iff, decide_eq_false_iff_not]
    omega
  have hparen : c ≠ '(' ∧ c ≠ ')' := by
    constructor
    · rintro rfl
      exact absurd hrange.1 (by decide)
    · rintro rfl
      exact absurd hrange.1 (by decide)
  simp [isWordChar, hblank, hparen]

theorem solid_of_isOperator {word : String} (h : isOperator word = true) :
    Solid parenStep outside 0 word := by
  refine ⟨?_, scan_letters (List.all_eq_true.2 fun c hc => ?_) 0⟩
  · rintro rfl
    revert h
    decide +kernel
  · exact isWordChar_of_isLower (isLower_of_isOperator h hc)

theorem notReserved_of_isOperator {word : String} (h : isOperator word = true) :
    word ∉ reservedWords := by
  intro hmem
  have hreserved : ∀ w ∈ reservedWords, isOperator w = false := by decide +kernel
  rw [hreserved word hmem] at h
  cases h

theorem join_connective {a b : List String} (ha : a ≠ []) (hb : b ≠ []) (word : String) :
    " ".intercalate (a ++ word :: b)
      = " ".intercalate a ++ " " ++ word ++ " " ++ " ".intercalate b := by
  have htail : " ".intercalate (word :: b) = word ++ " " ++ " ".intercalate b :=
    String.intercalate_cons_of_ne_nil hb
  rw [String.intercalate_append_of_ne_nil ha (by simp), htail]
  simp only [String.append_assoc]

theorem isOperator_join {words : List String} (h : 2 ≤ words.length) :
    isOperator (" ".intercalate words) = false := by
  obtain ⟨w, w', rest, rfl⟩ : ∃ w w' rest, words = w :: w' :: rest := by
    match words, h with
    | w :: w' :: rest, _ => exact ⟨w, w', rest, rfl⟩
  have hblank : ' ' ∈ (" ".intercalate (w :: w' :: rest)).toList := by
    simp [String.intercalate_cons_cons]
  exact isOperator_of_mem (by decide) hblank

theorem foldStep_operand {atom : String} (h : isOperator atom = false) (stack : List String) :
    foldStep stack atom = atom :: stack := by
  have hconnective : isConnective atom = false := by
    rw [← Bool.not_eq_true]
    intro hc
    have hop : isOperator atom = true := by
      rw [isOperator_iff]
      rcases Bool.or_eq_true_iff.1 hc with hc | hc <;> simp [of_decide_eq_true hc]
    rw [h] at hop
    cases hop
  unfold foldStep
  split
  · simp [hconnective]
  · rfl

theorem foldStep_connective {word left right : String} (h : isConnective word = true)
    (hl : isOperator left = false) (hr : isOperator right = false) (stack : List String) :
    foldStep (right :: left :: stack) word = (left ++ " " ++ word ++ " " ++ right) :: stack := by
  simp [foldStep, h, hl, hr, toString]

def isStep (word : String) : Bool := word = "++" || word = "--"

theorem isStep_of_notReserved {word : String} (h : word ∉ reservedWords) : isStep word = false := by
  simp only [reservedWords, List.cons_append, List.mem_cons, not_or] at h
  simp [isStep, h.1, h.2.1]

theorem hoistStep_of_not_isStep {word : String} (h : isStep word = false)
    (hoisted params : List String) :
    hoistStep (hoisted, params) word = (hoisted, word :: params) :=
  if_neg (Bool.not_eq_true _ ▸ h)

theorem foldl_hoistStep {words : List String} (h : ∀ w ∈ words, isStep w = false)
    (hoisted params : List String) :
    words.foldl hoistStep (hoisted, params) = (hoisted, words.reverse ++ params) := by
  induction words generalizing params with
  | nil => rfl
  | cons w rest ih =>
    obtain ⟨hw, hrest⟩ := List.forall_mem_cons.1 h
    rw [List.foldl_cons, hoistStep_of_not_isStep hw, ih hrest, List.reverse_cons, List.append_assoc]
    rfl

theorem frameLeft?_cons {word : String} (h : word ∉ reservedWords) (words : List String) :
    frameLeft? (word :: words) = frameLeft? words := by
  have hframe : word ≠ "FRLEFT" := by
    rintro rfl
    exact h (by decide)
  rw [frameLeft?, List.dropWhile_cons_of_pos (by simpa using hframe), frameLeft?]

theorem frameLeft?_of_notReserved {words : List String} (h : ∀ w ∈ words, w ∉ reservedWords) :
    frameLeft? words = none := by
  induction words with
  | nil => rfl
  | cons w rest ih =>
    obtain ⟨hw, hrest⟩ := List.forall_mem_cons.1 h
    rw [frameLeft?_cons hw, ih hrest]

theorem writeOperand_operand (o : Operand) : writeOperand o.text = o.written := by
  rw [writeOperand, logical?_eq_none o.isOperator_text, Option.getD_none, o.term_text]

theorem writeOperand_wrapped (name : String) :
    writeOperand s!"NOSPACE({name})" = s!"NOSPACE({name})" := by
  have hparen : '(' ∈ s!"NOSPACE({name})".toList := by simp [toString]
  have hterm : term s!"NOSPACE({name})" = s!"NOSPACE({name})" := by
    simp [term, unparen?, Text.stripPrefix?, Text.after?, toString]
  rw [writeOperand, logical?_eq_none (isOperator_of_mem (by decide) hparen),
    Option.getD_none, hterm]

namespace Spelled

theorem isOperator_words (s : Spelled) : isOperator (" ".intercalate s.words) = false := by
  cases s with
  | flag w => exact w.notOperator
  | comparison left relation word lower right => exact isOperator_join (by simp [words])
  | joined left connective word lower right =>
    have hl := List.length_pos_iff.2 left.words_ne_nil
    refine isOperator_join ?_
    simp only [words, List.length_append, List.length_cons]
    omega

/-- In postfix order a formula leaves its words, joined by blanks, on the stack. -/
theorem foldl_postfixAtoms (s : Spelled) (stack : List String) :
    s.postfixAtoms.foldl foldStep stack = " ".intercalate s.words :: stack := by
  induction s generalizing stack with
  | flag w => exact foldStep_operand (flag w).isOperator_words stack
  | comparison left relation word lower right =>
    exact foldStep_operand (comparison left relation word lower right).isOperator_words stack
  | joined left connective word lower right hl hr =>
    simp only [postfixAtoms, List.foldl_append, hl, hr, List.foldl_cons, List.foldl_nil]
    rw [foldStep_connective (connective.isConnective_eq lower) left.isOperator_words
      right.isOperator_words,
      words, join_connective left.words_ne_nil right.words_ne_nil]

theorem forall_words {P : String → Prop} (hoperator : ∀ word, isOperator word = true → P word)
    (hoperand : ∀ o : Operand, P o.text) (s : Spelled) : ∀ w ∈ s.words, P w := by
  induction s with
  | flag w => exact List.forall_mem_singleton.2 (hoperand (.word w))
  | comparison left relation word lower right =>
    simp only [words, List.forall_mem_cons]
    exact ⟨hoperand left, hoperator word (relation.isOperator_eq lower), hoperand right,
      List.forall_mem_nil _⟩
  | joined left connective word lower right hl hr =>
    simp only [words, List.forall_mem_append, List.forall_mem_cons]
    exact ⟨hl, hoperator word (connective.isOperator_eq lower), hr⟩

theorem splitOperands_words (s : Spelled) : splitOperands (" ".intercalate s.words) = s.words := by
  rw [splitOperands, splitFrom_eq]
  exact cutFrom_join rfl (forall_words (fun _ => solid_of_isOperator) Operand.solid s)

theorem notReserved_words (s : Spelled) : ∀ w ∈ s.words, w ∉ reservedWords :=
  forall_words (fun _ => notReserved_of_isOperator) Operand.notReserved s

theorem filter_words (s : Spelled) :
    (s.words.filter fun p => !ignoredWords.contains p) = s.words := by
  rw [List.filter_eq_self]
  intro w hw
  simpa using notIgnored_of_notReserved (s.notReserved_words w hw)

theorem frameLeft?_words (s : Spelled) : frameLeft? s.words = none :=
  frameLeft?_of_notReserved s.notReserved_words

/-- An operand stays as it is; the last operand before a comparison may get wrapped. -/
theorem convertFrom_words (s : Spelled) (done rest : List String) :
    convertFrom done (s.words ++ rest) = convertFrom (s.converted.reverse ++ done) rest := by
  have hoperand (o : Operand) (done rest : List String) :
      convertFrom done (o.text :: rest) = convertFrom (o.text :: done) rest := by
    rw [convertFrom, comparison?_eq_none o.isOperator_text]
  -- for any words behind, as a comparison looks at the operand on its right
  induction s generalizing done rest with
  | flag w => exact hoperand (.word w) done rest
  | comparison left relation word lower right =>
    show convertFrom done (left.text :: word :: right.text :: rest) = _
    rw [hoperand, convertFrom, relation.comparison?_eq lower]
    simp only [converted, Atom.converted]
    split
    · rw [hoperand]
      rfl
    · rw [hoperand]
      rfl
  | joined left connective word lower right hl hr =>
    simp only [words, converted, List.append_assoc, List.cons_append, List.reverse_append,
      List.reverse_cons, List.nil_append]
    rw [hl, convertFrom, connective.comparison?_eq lower, hr]

theorem map_writeOperand_converted (s : Spelled) :
    s.converted.map writeOperand = s.formula.written := by
  induction s with
  | flag w => exact congrArg (fun x => [x]) (writeOperand_operand (.word w))
  | comparison left relation word lower right =>
    have hsymbol : writeOperand relation.symbol = relation.symbol := by
      cases relation <;> decide +kernel
    simp only [converted, formula, Formula.written, Atom.converted, Atom.written, List.map_cons,
      List.map_nil, hsymbol, writeOperand_operand]
    split
    · rw [writeOperand_wrapped]
    · rw [writeOperand_operand]
  | joined left connective word lower right hl hr =>
    have hword : writeOperand word = connective.symbol := by
      rw [writeOperand, connective.logical?_eq lower, Option.getD_some]
    simp only [converted, List.map_append, List.map_cons, hl, hr, hword, formula]
    cases connective <;> rfl

/-- A formula in postfix order is written in order, and nothing is hoisted out of it. -/
theorem ofAtoms_postfixAtoms (s : Spelled) :
    (ofAtoms s.postfixAtoms).hoisted = [] ∧
      (ofAtoms s.postfixAtoms).expression = " ".intercalate s.formula.written := by
  have hfold : foldLogical s.postfixAtoms = [" ".intercalate s.words] := by
    rw [foldLogical, foldl_postfixAtoms]
    rfl
  have hparams : (s.words.filter fun p => !ignoredWords.contains p).foldl hoistStep ([], [])
      = ([], s.words.reverse) := by
    rw [filter_words, foldl_hoistStep fun w hw => isStep_of_notReserved (s.notReserved_words w hw),
      List.append_nil]
  have hconverted : convertOperators s.words = s.converted := by
    have h := s.convertFrom_words [] []
    rw [List.append_nil, List.append_nil] at h
    rw [convertOperators, h, convertFrom, List.reverse_reverse]
  unfold ofAtoms
  rw [hfold, String.intercalate_singleton, splitOperands_words]
  simp only [hparams, List.reverse_reverse, frameLeft?_words, hconverted,
    map_writeOperand_converted, List.reverse_nil, and_self]

end Spelled

namespace Formula

def spelled : Formula → Spelled
  | atom (.flag w) => .flag w
  | atom (.comparison left relation right) =>
    .comparison left relation relation.word (by cases relation <;> decide +kernel) right
  | and left right => .joined left.spelled .and "and" (by decide +kernel) right.spelled
  | or left right => .joined left.spelled .or "or" (by decide +kernel) right.spelled

theorem formula_spelled (f : Formula) : f.spelled.formula = f := by
  induction f with
  | atom a => cases a <;> rfl
  | and left right hl hr => rw [spelled, Spelled.formula, hl, hr]; rfl
  | or left right hl hr => rw [spelled, Spelled.formula, hl, hr]; rfl

theorem postfixAtoms_spelled (f : Formula) : f.spelled.postfixAtoms = f.postfixAtoms := by
  induction f with
  | atom a =>
    cases a with
    | flag w => exact congrArg (fun x => [x]) String.intercalate_singleton.symm
    | comparison left relation right => rfl
  | and left right hl hr => rw [spelled, Spelled.postfixAtoms, hl, hr, postfixAtoms]
  | or left right hl hr => rw [spelled, Spelled.postfixAtoms, hl, hr, postfixAtoms]

theorem ofAtoms_postfixAtoms (f : Formula) :
    (ofAtoms f.postfixAtoms).hoisted = [] ∧
      (ofAtoms f.postfixAtoms).expression = " ".intercalate f.written := by
  have h := f.spelled.ofAtoms_postfixAtoms
  rwa [f.postfixAtoms_spelled, f.formula_spelled] at h

end Formula

end VippDocdef.Docdef
