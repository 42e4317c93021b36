import VippDocdef.Proofs.Positions

/-! Assignments that stay statements. Words of control flow in an assignment are a sign of mangled
source, but they are looked for letter by letter: an assignment whose name or text has one of them
inside a longer word is commented out as well. -/

set_option autoImplicit false

namespace VippDocdef.Docdef

def controlWords : List String := ["IF", "ELSE", "THEN", "ENDIF", "PAGEBRK"]

section Words

variable (isWord : Char → Bool)

/-- What stands between the two is not part of a longer word. -/
def WordBetween (before after : List Char) : Prop :=
  (∀ c ∈ before.getLast?, isWord c = false) ∧ ∀ c ∈ after.head?, isWord c = false

/-- The word stands in the text as a word of its own. -/
def HasWord (word text : String) : Prop :=
  ∃ before after : List Char, text.toList = before ++ word.toList ++ after ∧
    WordBetween isWord before after

/-- The letters of the word stand inside a longer word of the text. -/
def HasPart (word text : String) : Prop :=
  ∃ before after : List Char, text.toList = before ++ word.toList ++ after ∧
    ¬ WordBetween isWord before after

variable {word text : String}

theorem contains_iff_hasWord_or_hasPart :
    Text.contains text word = true ↔ HasWord isWord word text ∨ HasPart isWord word text := by
  constructor
  · intro h
    obtain ⟨before, after, heq⟩ := Text.occurs_iff.1 h
    by_cases hbetween : WordBetween isWord before after
    · exact .inl ⟨before, after, heq.symm, hbetween⟩
    · exact .inr ⟨before, after, heq.symm, hbetween⟩
  · rintro (⟨before, after, heq, -⟩ | ⟨before, after, heq, -⟩)
    all_goals exact Text.occurs_iff.2 ⟨before, after, heq.symm⟩

variable {isWord}

theorem not_hasWord_of_all (h : text.toList.all isWord = true) (hne : text ≠ word) :
    ¬ HasWord isWord word text := by
  rintro ⟨before, after, heq, hbefore, hafter⟩
  rw [List.all_eq_true] at h
  have hnil : before = [] := by
    by_contra hsome
    have hlast := List.getLast?_eq_some_getLast hsome
    have hword := h (before.getLast hsome) (by simp [heq, List.getLast_mem hsome])
    rw [hbefore _ hlast] at hword
    cases hword
  have hnil' : after = [] := by
    cases after with
    | nil => rfl
    | cons c more =>
      have hword := h c (by simp [heq])
      rw [hafter c rfl] at hword
      cases hword
  refine hne (String.toList_inj.1 ?_)
  simp [heq, hnil, hnil']

theorem not_hasWord_and_not_hasPart (h : Text.contains text word = false) :
    ¬ HasWord isWord word text ∧ ¬ HasPart isWord word text := by
  rw [← not_or, ← contains_iff_hasWord_or_hasPart isWord, h]
  decide

end Words

def mangledMarks : List Char := ['{', '}', '%']

def IsIdentifier (name : String) : Prop :=
  (∃ c cs, name.toList = c :: cs ∧ Scan.isNameStart c = true) ∧
    name.toList.all Scan.isNameChar = true

/-- Values that are one operand of the source. -/
inductive PlainValue : String → Prop where
  | number {sign digits : String} (hsign : sign = "" ∨ sign = "-")
      (hdigit : digits.toList.any Char.isDigit = true)
      (hdigits : digits.toList.all (fun c => c.isAlphanum || c == '.') = true) :
        PlainValue (sign ++ digits)
  | identifier {name : String} (hname : IsIdentifier name) : PlainValue name
  | reference {name : String} (hname : IsIdentifier name) : PlainValue ("/" ++ name)
  | string {text : String} (htext : mangledMarks.all (fun c => !text.toList.contains c) = true) :
      PlainValue ("(" ++ text ++ ")")

theorem not_mem_of_all {cs : List Char} {p : Char → Bool} (h : cs.all p = true) {c : Char}
    (hc : p c = false) :
    c ∉ cs := by
  intro hmem
  rw [List.all_eq_true.1 h c hmem] at hc
  cases hc

theorem IsIdentifier.not_mem {name : String} (h : IsIdentifier name) {c : Char}
    (hc : c ∈ mangledMarks) :
    c ∉ name.toList := by
  have hmarks : mangledMarks.all (fun c => !Scan.isNameChar c) = true := by decide
  exact not_mem_of_all h.2 (by simpa using List.all_eq_true.1 hmarks c hc)

def operators : List String := ["++", "--", "+", "-", "*", "="]

def operatorMarks : List Char := ['+', '-', '*', '=']

theorem not_mem_operators {word : String} {c : Char} (hc : c ∈ word.toList)
    (h : c ∉ operatorMarks) :
    word ∉ operators := by
  have hoperators : operators.all (fun word => word.toList.all operatorMarks.contains) = true := by
    decide
  intro hmem
  exact not_mem_of_all (List.all_eq_true.1 hoperators word hmem) (by simpa using h) hc

theorem not_operatorMark {c : Char} (h : (c.isDigit || Scan.isNameStart c) = true) :
    c ∉ operatorMarks :=
  not_mem_of_all (p := fun c => !(c.isDigit || Scan.isNameStart c)) (by decide) (by simp [h])

theorem IsIdentifier.not_operator {name : String} (h : IsIdentifier name) : name ∉ operators := by
  obtain ⟨⟨c, cs, hcs, hstart⟩, -⟩ := h
  exact not_mem_operators (c := c) (by simp [hcs]) (not_operatorMark (by simp [hstart]))

namespace PlainValue

theorem not_mem {value : String} (h : PlainValue value) {c : Char} (hc : c ∈ mangledMarks) :
    c ∉ value.toList := by
  have hframe : mangledMarks.all (fun c => !List.contains ['-', '/', '(', ')'] c) = true := by
    decide
  have hother : c ∉ ['-', '/', '(', ')'] := by simpa using List.all_eq_true.1 hframe c hc
  simp only [List.mem_cons, List.not_mem_nil, or_false, not_or] at hother
  obtain ⟨hminus, hslash, hopen, hclose⟩ := hother
  cases h with
  | number hsign _ hdigits =>
    have hmarks : mangledMarks.all (fun c => !(c.isAlphanum || c == '.')) = true := by decide
    have hnot := not_mem_of_all hdigits (by simpa using List.all_eq_true.1 hmarks c hc)
    rcases hsign with rfl | rfl
    · simpa using hnot
    · simpa [hminus] using hnot
  | identifier hname => exact hname.not_mem hc
  | reference hname => simpa [hslash] using hname.not_mem hc
  | string htext => simpa [hopen, hclose] using List.all_eq_true.1 htext c hc

theorem not_operator {value : String} (h : PlainValue value) : value ∉ operators := by
  cases h with
  | number _ hdigit _ =>
    obtain ⟨c, hc, hdigit⟩ := List.any_eq_true.1 hdigit
    exact not_mem_operators (c := c) (by simp [hc]) (not_operatorMark (by simp [hdigit]))
  | identifier hname => exact hname.not_operator
  | reference => exact not_mem_operators (c := '/') (by simp) (by decide)
  | string => exact not_mem_operators (c := '(') (by simp) (by decide)

end PlainValue

theorem contains_mark_eq_false {text : String} {c : Char} (h : c ∉ text.toList) :
    Text.contains text (.singleton c) = false := by
  rw [← Bool.not_eq_true]
  intro hcontains
  have hwithin := Text.occurs_iff.1 hcontains
  exact h (hwithin.subset (by simp))

theorem isMangled_iff {name value : String} (hname : IsIdentifier name)
    (hvalue : PlainValue value) :
    isMangled name value = true ↔
      ∃ word ∈ controlWords, Text.contains name word = true ∨ Text.contains value word = true := by
  have hwords : mangledWords = controlWords ++ mangledMarks.map .singleton := by decide
  have hmarks : (mangledMarks.map String.singleton).any
      (fun word => Text.contains name word || Text.contains value word) = false := by
    rw [List.any_map, List.any_eq_false]
    intro c hc
    simp [contains_mark_eq_false (hname.not_mem hc), contains_mark_eq_false (hvalue.not_mem hc)]
  have hoperator (word : String) (hword : word ∈ operators) : value ≠ word :=
    fun heq => hvalue.not_operator (heq ▸ hword)
  rw [isMangled, hwords, List.any_append, hmarks]
  simp [hoperator "-" (by decide), hoperator "=" (by decide)]

theorem setStatement_plain {name value : String} (hvalue : PlainValue value) :
    setStatement name value =
      if isMangled name value then "/* " ++ name ++ " = " ++ value ++ "; */" else name ++ " = "
        ++ term value ++ ";" := by
  have hoperator (word : String) (hword : word ∈ operators) : value ≠ word :=
    fun heq => hvalue.not_operator (heq ▸ hword)
  rw [setStatement, if_neg (hoperator "++" (by decide)), if_neg (hoperator "--" (by decide))]
  rfl

theorem assignStatement?_identifier {name : String} (hname : IsIdentifier name) (value : String)
    (initial : Bool) :
    assignStatement? ⟨.set, "/" ++ name, some value, initial⟩ = some (setStatement name value) := by
  have hother : name ∉ ["++", "--", "+", "-", "*"] :=
    fun hmem => hname.not_operator (List.mem_append_left ["="] hmem)
  obtain ⟨⟨c, cs, hcs, hstart⟩, -⟩ := hname
  have hslash : c ≠ '/' := by
    rintro rfl
    revert hstart
    decide
  have htarget : Text.dropLeading '/' ("/" ++ name) = name := by
    rw [Text.dropLeading, ← String.toList_inj]
    simp [hcs, hslash]
  simp only [assignStatement?, htarget, if_neg hother]

theorem isMangled_iff_hasPart (isWord : Char → Bool) {name value : String}
    (hname : IsIdentifier name) (hvalue : PlainValue value)
    (hwords : ∀ word ∈ controlWords, ¬ HasWord isWord word name ∧ ¬ HasWord isWord word value) :
    isMangled name value = true ↔ ∃ word ∈ controlWords, HasPart isWord word name ∨
      HasPart isWord word value := by
  rw [isMangled_iff hname hvalue]
  refine exists_congr fun word => and_congr_right fun hword => ?_
  obtain ⟨hnot, hnot'⟩ := hwords word hword
  rw [contains_iff_hasWord_or_hasPart isWord, contains_iff_hasWord_or_hasPart isWord,
    or_iff_right hnot, or_iff_right hnot']

theorem comment_ne_assignment {name : String} (hname : IsIdentifier name)
    (indent rest more : String) :
    indent ++ ("/* " ++ rest) ≠ indent ++ (name ++ more) := by
  obtain ⟨⟨c, cs, hcs, hstart⟩, -⟩ := hname
  intro heq
  have hlists := congrArg String.toList heq
  simp only [String.toList_append, List.append_cancel_left_eq, hcs] at hlists
  obtain ⟨hc, -⟩ := List.cons.inj hlists
  subst hc
  revert hstart
  decide

theorem written_assignment {d : Detector} (hd : ∀ line, d.flags line = false) {name value : String}
    (hname : IsIdentifier name) (hvalue : PlainValue value) (s : State) (e : Env)
    (expand : Expansion) (initial : Bool) (listing : Listing) :
    (listing.add d
      (s.emitAction e expand
        (.assign ⟨.set, "/" ++ name, some value, initial⟩)).block.lines).written =
      listing.written ++ [Line.indentation listing.level ++ setStatement name value] := by
  have hne : setStatement name value ≠ "" := by
    rw [setStatement_plain hvalue]
    split
    · exact fun heq => absurd (String.append_eq_empty_iff.1 heq).2 (by decide)
    · exact fun heq => absurd (String.append_eq_empty_iff.1 heq).2 (by decide)
  have hlines :
      (s.emitAction e expand (.assign ⟨.set, "/" ++ name, some value, initial⟩)).block.lines =
      [⟨0, setStatement name value⟩] := by
    rw [State.emitAction, assignStatement?_identifier hname]
    rfl
  rw [hlines, Listing.add]
  simp [Line.deeper, Line.write, Detector.sanitize, hd, hne]

/-- With no control word in it as a word of its own, an assignment stays a statement if and only if
no control word stands inside a longer word of its name or of its value either; otherwise it is
commented out. -/
theorem assignment_live_iff (isWord : Char → Bool) {name value : String} (hname : IsIdentifier name)
    (hvalue : PlainValue value)
    (hwords : ∀ word ∈ controlWords, ¬ HasWord isWord word name ∧ ¬ HasWord isWord word value)
    {d : Detector} (hd : ∀ line, d.flags line = false) (s : State) (e : Env) (expand : Expansion)
    (initial : Bool) (listing : Listing) :
    let lines :=
      (s.emitAction e expand (.assign ⟨.set, "/" ++ name, some value, initial⟩)).block.lines
    let indent := Line.indentation listing.level
    let partless : Prop :=
      ∀ word ∈ controlWords, ¬ HasPart isWord word name ∧ ¬ HasPart isWord word value
    ((listing.add d lines).written
      = listing.written ++ [indent ++ (name ++ " = " ++ term value ++ ";")] ↔ partless) ∧
      ((listing.add d lines).written
        = listing.written ++ [indent ++ ("/* " ++ name ++ " = " ++ value ++ "; */")] ↔
        ¬ partless) := by
  intro lines indent partless
  have hmangled : isMangled name value = true ↔ ¬ partless := by
    rw [isMangled_iff_hasPart isWord hname hvalue hwords]
    simp only [partless, not_forall, not_and_or, not_not, exists_prop]
  have hne :
      indent ++ ("/* " ++ name ++ " = " ++ value ++ "; */") ≠ indent
        ++ (name ++ " = " ++ term value ++ ";") := by
    simpa only [String.append_assoc] using comment_ne_assignment hname indent _ _
  rw [written_assignment hd hname hvalue, setStatement_plain hvalue]
  simp only [List.append_cancel_left_eq, List.cons.injEq, and_true]
  by_cases h : partless
  · rw [if_neg fun hm => hmangled.1 hm h]
    exact ⟨iff_of_true rfl h, iff_of_false hne.symm (not_not.2 h)⟩
  · rw [if_pos (hmangled.2 h)]
    exact ⟨iff_of_false hne h, iff_of_true rfl h⟩

theorem assignment_live_iff_elsewhere :
    PlainValue "(If not, then elsewhere)" ∧
      ((Listing.mk 1 []).add .idle ((State.initial {}).emitAction {} (fun _ s => .quiet s)
        (.assign ⟨.set, "/VAR_NOTE", some "(If not, then elsewhere)", false⟩)).block.lines).written
          =
        ["    VAR_NOTE = 'If not, then elsewhere';"] := by
  have hname : IsIdentifier "VAR_NOTE" := ⟨⟨'V', _, rfl, rfl⟩, by decide⟩
  have hvalue : PlainValue "(If not, then elsewhere)" :=
    @PlainValue.string "If not, then elsewhere" (by decide)
  have hnone : controlWords.all (fun word =>
      !Text.contains "VAR_NOTE" word && !Text.contains "(If not, then elsewhere)" word) = true := by
    decide
  have hclear {word : String} (hword : word ∈ controlWords) :
      (¬ HasWord Text.isWordChar word "VAR_NOTE" ∧ ¬ HasPart Text.isWordChar word "VAR_NOTE") ∧
        ¬ HasWord Text.isWordChar word "(If not, then elsewhere)" ∧
          ¬ HasPart Text.isWordChar word "(If not, then elsewhere)" := by
    have hword := List.all_eq_true.1 hnone word hword
    rw [Bool.and_eq_true, Bool.not_eq_true', Bool.not_eq_true'] at hword
    exact ⟨not_hasWord_and_not_hasPart hword.1, not_hasWord_and_not_hasPart hword.2⟩
  refine ⟨hvalue, ?_⟩
  refine ((assignment_live_iff Text.isWordChar hname hvalue (fun word hword => ?_)
    Detector.flags_idle (.initial {})
    {} (fun _ s => .quiet s) false ⟨1, []⟩).1.2 fun word hword => ?_).trans (by decide)
  · exact ⟨(hclear hword).1.1, (hclear hword).2.1⟩
  · exact ⟨(hclear hword).1.2, (hclear hword).2.2⟩

/-- `NOTIFY` is one word, and the statement is gone. -/
theorem notify_commented_out :
    (∀ word ∈ controlWords, ¬ HasWord Text.isWordChar word "NOTIFY" ∧
      ¬ HasWord Text.isWordChar word "1") ∧
      ((Listing.mk 0 []).add .idle ((State.initial {}).emitAction {} (fun _ s => .quiet s)
        (.assign ⟨.set, "/NOTIFY", some "1", false⟩)).block.lines).written
          = ["/* NOTIFY = 1; */"] := by
  have hother : controlWords.all (fun word => "NOTIFY" != word && "1" != word) = true := by decide
  refine ⟨fun word hword => ?_, by decide⟩
  have hword := List.all_eq_true.1 hother word hword
  rw [Bool.and_eq_true, bne_iff_ne, bne_iff_ne] at hword
  exact ⟨not_hasWord_of_all (by decide) hword.1, not_hasWord_of_all (by decide) hword.2⟩

end VippDocdef.Docdef
