import VippDocdef.Docdef.Walk

/-! Lines that open, divide and close branches and outlines. No statement of a program writes one of
them, whatever names, operands and texts it is made of. -/

set_option autoImplicit false

namespace VippDocdef.Docdef

inductive Mark where
  | thenPart
  | elsePart
  | endIf
  | outline
  | endOutline
  deriving DecidableEq, Repr

namespace Mark

def text : Mark → String
  | .thenPart => "THEN;"
  | .elsePart => "ELSE;"
  | .endIf => "ENDIF;"
  | .outline => "OUTLINE"
  | .endOutline => "ENDIO;"

def letters : Mark → List Char
  | .thenPart => ['T', 'H', 'E', 'N', ';']
  | .elsePart => ['E', 'L', 'S', 'E', ';']
  | .endIf => ['E', 'N', 'D', 'I', 'F', ';']
  | .outline => ['O', 'U', 'T', 'L', 'I', 'N', 'E']
  | .endOutline => ['E', 'N', 'D', 'I', 'O', ';']

theorem ofList_letters (m : Mark) : .ofList m.letters = m.text := by cases m <;> rfl

def all : List Mark := [.thenPart, .elsePart, .endIf, .outline, .endOutline]

/-- The mark that a line is, wherever it is indented to. -/
def ofLine? (line : String) : Option Mark :=
  all.find? fun m => m.letters = line.toList.dropWhile (· == ' ')

theorem ofLine?_eq_none {line : String} :
    ofLine? line = none ↔ ∀ m ∈ all, m.letters ≠ line.toList.dropWhile (· == ' ') := by
  simp [ofLine?]

theorem ofLine?_of_mem {line : String} (h : '=' ∈ line.toList) : ofLine? line = none := by
  rw [ofLine?_eq_none]
  intro m hm heq
  rw [← List.takeWhile_append_dropWhile (p := (· == ' ')) (l := line.toList), List.mem_append] at h
  rcases h with h | h
  · exact absurd (List.all_eq_true.1 List.all_takeWhile _ h) (by decide)
  · have hall : ∀ m ∈ all, '=' ∉ m.letters := by decide
    exact hall m hm (heq ▸ h)

@[simp] theorem ofLine?_empty : ofLine? "" = none := by decide

end Mark

def equals : List Char := [' ', '=', ' ']

def Apart (start : List Char) (text : String) : Prop :=
  ¬ start <+: text.toList.dropWhile (· == ' ') ∨ equals <:+: text.toList

instance (start : List Char) (text : String) : Decidable (Apart start text) :=
  inferInstanceAs (Decidable (_ ∨ _))

def bytes (cs : List Char) : List UInt8 := cs.flatMap String.utf8EncodeChar

theorem bytes_toList (s : String) : bytes s.toList = s.toByteArray.data.toList := by
  rw [← String.utf8Encode_toList]
  simp [List.utf8Encode, bytes]

theorem bytes_isPrefix {a b : List Char} (h : a <+: b) : bytes a <+: bytes b := by
  obtain ⟨rest, rfl⟩ := h
  simp [bytes]

theorem exists_firstByte {c : Char} (h : c ≠ ' ') :
    ∃ b rest, String.utf8EncodeChar c = b :: rest ∧ b ≠ 32 := by
  have hval : c.val.toNat ≠ 32 := fun hc => h (Char.ext (UInt32.toNat_inj.1 hc))
  have hne {n : Nat} (hn : n % 256 ≠ 32) : UInt8.ofNat n ≠ 32 := by
    intro hb
    apply hn
    simpa using congrArg UInt8.toNat hb
  unfold String.utf8EncodeChar
  dsimp only
  split
  · exact ⟨_, _, rfl, hne (by omega)⟩
  split
  · exact ⟨_, _, rfl, hne (by omega)⟩
  split
  · exact ⟨_, _, rfl, hne (by omega)⟩
  · exact ⟨_, _, rfl, hne (by omega)⟩

theorem dropWhile_bytes (cs : List Char) :
    (bytes cs).dropWhile (· == 32) = bytes (cs.dropWhile (· == ' ')) := by
  induction cs with
  | nil => rfl
  | cons c rest ih =>
    by_cases hc : c = ' '
    · subst hc
      exact ih
    · obtain ⟨b, more, henc, hb⟩ := exists_firstByte hc
      simp [bytes, hc, henc, hb]

/-- Whether all lines that start like this start otherwise. The bytes of a text are compared, which
can be evaluated faster than its letters. -/
def isApart (start : List Char) (head : String) : Bool :=
  let head := head.toByteArray.data.toList.dropWhile (· == 32)
  !(bytes start).isPrefixOf head && !head.isPrefixOf (bytes start)

theorem not_isPrefix_append {start : List Char} {head : String} (h : isApart start head = true)
    (rest : String) : ¬ start <+: (head ++ rest).toList.dropWhile (· == ' ') := by
  have hbytes : ¬ bytes start <+: bytes (head.toList.dropWhile (· == ' ')) ∧
      ¬ bytes (head.toList.dropWhile (· == ' ')) <+: bytes start := by
    rw [← dropWhile_bytes, bytes_toList]
    simpa [isApart, ← List.isPrefixOf_iff_prefix] using h
  have hs : ¬ start <+: head.toList.dropWhile (· == ' ') ∧
      ¬ head.toList.dropWhile (· == ' ') <+: start :=
    ⟨fun hp => hbytes.1 (bytes_isPrefix hp), fun hp => hbytes.2 (bytes_isPrefix hp)⟩
  -- blanks alone start every line
  have hne : (head.toList.dropWhile (· == ' ')).isEmpty = false := by
    cases hd : head.toList.dropWhile (· == ' ') with
    | nil => exact absurd (hd ▸ List.nil_prefix) hs.2
    | cons c cs => rfl
  intro hprefix
  rw [String.toList_append, List.dropWhile_append, hne] at hprefix
  -- of two starts of one line the shorter starts the longer
  rcases List.prefix_or_prefix_of_prefix hprefix (List.prefix_append _ _) with hp | hp
  · exact hs.1 hp
  · exact hs.2 hp

theorem apart_append {start : List Char} {head : String} (h : isApart start head = true)
    (rest : String) : Apart start (head ++ rest) :=
  .inl (not_isPrefix_append h rest)

def callStart : List Char := ['U', 'S', 'E', ' ', 'F', 'O', 'R', 'M', 'A', 'T', ' ', 'S', 'R', '_']

def sectionStart : List Char := ['D', 'O', 'C', 'F', 'O', 'R', 'M', 'A', 'T', ' ', 'S', 'R', '_']

def caseStart : List Char := ['D', 'O', 'C', 'F', 'O', 'R', 'M', 'A', 'T', ' ', 'D', 'F', '_']

def headStarts : List (List Char) := [sectionStart, caseStart]

def formatStarts : List (List Char) := callStart :: headStarts

def testStart : List Char := ['I', 'F', ' ']

def reservedStarts : List (List Char) := formatStarts ++ testStart :: Mark.all.map Mark.letters

/-- An assignment, or a line that starts neither like a mark or a header nor with the name of a
format. -/
def Ordinary (text : String) : Prop := ∀ start ∈ reservedStarts, Apart start text

instance (text : String) : Decidable (Ordinary text) :=
  inferInstanceAs (Decidable (∀ start ∈ reservedStarts, Apart start text))

def isOrdinaryStart (head : String) : Bool := reservedStarts.all (isApart · head)

theorem ordinary_append {head : String} (h : isOrdinaryStart head = true) (rest : String) :
    Ordinary (head ++ rest) :=
  fun start hstart => apart_append (List.all_eq_true.1 h start hstart) rest

theorem ordinary_of_start {text : String} (h : isOrdinaryStart text = true) : Ordinary text := by
  simpa using ordinary_append h ""

theorem ordinary_assignment {middle : String} (h : equals <:+: middle.toList) (name rest : String) :
    Ordinary (name ++ (middle ++ rest)) := by
  refine fun _ _ => .inr ?_
  rw [String.toList_append, String.toList_append]
  exact h.trans ((List.prefix_append _ _).isInfix.trans (List.suffix_append _ _).isInfix)

theorem Ordinary.ofLine?_eq {text : String} (h : Ordinary text) : Mark.ofLine? text = none := by
  by_cases heq : equals <:+: text.toList
  · exact Mark.ofLine?_of_mem (heq.subset (by decide))
  · rw [Mark.ofLine?_eq_none]
    intro m hm hline
    have hreserved : m.letters ∈ reservedStarts :=
      List.mem_append_right _ (List.mem_cons_of_mem _ (List.mem_map_of_mem hm))
    have hapart := (h _ hreserved).resolve_right heq
    exact hapart (hline ▸ List.prefix_refl _)

theorem Ordinary.apart_test {text : String} (h : Ordinary text) : Apart testStart text :=
  h testStart (List.mem_append_right _ List.mem_cons_self)

/-- A line that is no mark; where it starts like a header, it is an assignment. -/
def DataLine (line : String) : Prop := Mark.ofLine? line = none ∧ Apart testStart line

theorem dataLine_empty : DataLine "" := ⟨by decide, by decide⟩

theorem Ordinary.dataLine {text : String} (h : Ordinary text) : DataLine text :=
  ⟨h.ofLine?_eq, h.apart_test⟩

@[simp] theorem ordinary_quote (s : String) : Ordinary (quote s) := by
  simp (disch := decide) only [quote, String.append_assoc, ordinary_append]

namespace Statement

/-- Texts that are lines of the statement as they stand. -/
def ownLines : Statement → List String
  | plain text => [text]
  | column items _ _ _ _ => [items]
  | switched runs _ | switchedRight runs _ _ => runs.map (·.2)
  | _ => []

def IsData (s : Statement) : Prop := ∀ t ∈ s.ownLines, Ordinary t

theorem isData_plain {text : String} : (plain text).IsData ↔ Ordinary text := by
  simp [IsData, ownLines]

theorem ordinary_clauses {head : String} {below : List String} (hh : Ordinary head)
    (hb : ∀ t ∈ below, Ordinary t) : ∀ x ∈ clauses head below, Ordinary x.text := by
  simpa [clauses, hh] using hb

@[simp] theorem ordinary_place (p : Place) : Ordinary p.clause := by
  simp (disch := decide) only [Place.clause, String.append_assoc, ordinary_append]

@[simp] theorem ordinary_widthClause (w : Float) : Ordinary (widthClause w) := by
  simp (disch := decide) only [widthClause, String.append_assoc, ordinary_append]

@[simp] theorem ordinary_anchoredClause (x y : Float) : Ordinary (anchoredClause x y) := by
  unfold anchoredClause
  simp (disch := decide) only [String.append_assoc, ordinary_append]

theorem ordinary_colorClause (c : Option String) : ∀ t ∈ colorClause c, Ordinary t := by
  cases c <;> simp (disch := decide) [colorClause, ordinary_append]

theorem ordinary_alignClause (a : Option Alignment) : ∀ t ∈ alignClause a, Ordinary t := by
  cases a <;> simp (disch := decide) [alignClause, ordinary_append]

theorem ordinary_runClauses {runs : List (String × String)}
    (h : ∀ t ∈ runs.map (·.2), Ordinary t) : ∀ t ∈ runClauses runs, Ordinary t := by
  induction runs with
  | nil => simp [runClauses]
  | cons run rest ih =>
    obtain ⟨hrun, hrest⟩ := List.forall_mem_cons.1 h
    have hf : Ordinary ("FONT " ++ run.1 ++ " NORMAL") := by
      simp (disch := decide) only [String.append_assoc, ordinary_append]
    exact List.forall_mem_cons.2 ⟨hf, List.forall_mem_cons.2 ⟨hrun, ih hrest⟩⟩

theorem ordinary_quotedLines (texts : List String) : ∀ t ∈ quotedLines texts, Ordinary t := by
  fun_induction quotedLines texts with
  | case1 => simp
  | case2 last => simp (disch := decide) [quote, String.append_assoc, ordinary_append]
  | case3 first rest _ ih =>
    rw [List.forall_mem_cons]
    exact ⟨ordinary_quote first, ih⟩

theorem IsData.ordinary {s : Statement} (h : s.IsData) (hs : ∀ name, s ≠ routine name) :
    ∀ x ∈ s.lines, Ordinary x.text := by
  cases s with
  | routine name => exact absurd rfl (hs name)
  | plain text => simpa [lines] using isData_plain.1 h
  | output content font place color align =>
    refine ordinary_clauses (ordinary_append (by decide) content) ?_
    simp only [List.forall_mem_append]
    refine ⟨⟨?_, ordinary_colorClause color⟩, ?_⟩
    · simp (disch := decide) [String.append_assoc, ordinary_append]
    · rcases align with _ | _ | _ | _ | _ <;>
        simp (disch := decide) [String.append_assoc, ordinary_of_start]
  | column items font place width align =>
    refine ordinary_clauses (ordinary_of_start (by decide)) ?_
    have hi := h items List.mem_cons_self
    simp only [List.forall_mem_append]
    refine ⟨⟨by simp, ordinary_alignClause align⟩, ?_⟩
    simp (disch := decide) [hi, ordinary_append, ordinary_of_start]
  | switched runs place =>
    refine ordinary_clauses (ordinary_of_start (by decide)) ?_
    simp only [List.forall_mem_append, List.forall_mem_cons]
    exact ⟨⟨by simp, ordinary_runClauses h⟩, ordinary_of_start (by decide), by simp⟩
  | switchedRight runs place width =>
    refine ordinary_clauses (ordinary_of_start (by decide)) ?_
    simp only [List.forall_mem_append, List.forall_mem_cons]
    refine ⟨⟨⟨⟨by simp, by simp⟩, ?_⟩, ordinary_runClauses h⟩, ?_⟩
    · exact ⟨ordinary_of_start (by decide), by simp⟩
    · exact ⟨ordinary_of_start (by decide), by simp⟩
  | baseline texts font align =>
    refine ordinary_clauses (ordinary_of_start (by decide)) ?_
    simp only [List.forall_mem_append, List.forall_mem_cons]
    refine ⟨⟨⟨⟨ordinary_of_start (by decide), ?_⟩, ordinary_append (by decide) font, by simp⟩,
      ordinary_alignClause align⟩, ordinary_quotedLines texts⟩
    split <;> simp
  | emptyLine font y =>
    simp (disch := decide) [lines, flush, String.append_assoc, ordinary_append, ordinary_of_start]
  | anchor => simp (disch := decide) [lines, flush, ordinary_of_start]
  | box x y width height stroke =>
    simp only [lines]
    refine ordinary_clauses (ordinary_of_start (by decide)) ?_
    simp only [List.forall_mem_append]
    refine ⟨⟨?_, ordinary_colorClause stroke.color⟩, ?_⟩
    · simp (disch := decide) [String.append_assoc, ordinary_append]
    · split <;> simp (disch := decide) [String.append_assoc, ordinary_append]
  | rule x y length across thickness stroke =>
    simp only [lines]
    refine ordinary_clauses (ordinary_of_start (by decide)) ?_
    simp only [List.forall_mem_append]
    refine ⟨⟨?_, ordinary_colorClause stroke.color⟩, ?_⟩
    · simp (disch := decide) [ordinary_append]
    · simp (disch := decide) [String.append_assoc, ordinary_append, ordinary_of_start]
  | segment name place =>
    refine ordinary_clauses (ordinary_append (by decide) name) ?_
    simp (disch := decide) [Place.clause, String.append_assoc, ordinary_append]
  | image name place scale =>
    refine ordinary_clauses ?_ ?_
    · simp (disch := decide) [String.append_assoc, ordinary_append]
    · simp (disch := decide) [ordinary_append, ordinary_of_start]
  | object name format area =>
    have ha : ∀ t ∈ areaClauses area, Ordinary t := by
      unfold areaClauses
      split <;> simp (disch := decide) [String.append_assoc, ordinary_append]
    simp only [lines, List.map_append, List.forall_mem_append]
    refine ⟨?_, ⟨?_, by simpa using ha⟩, ?_⟩ <;>
      simp (disch := decide) [String.append_assoc, ordinary_append, ordinary_of_start]

theorem IsData.dataLine {s : Statement} (h : s.IsData) : ∀ x ∈ s.lines, DataLine x.text := by
  by_cases hs : ∃ name, s = routine name
  · obtain ⟨name, rfl⟩ := hs
    simp [lines, toString, DataLine, Mark.ofLine?, Mark.all, Mark.letters, Apart, testStart]
  · exact fun x hx => (h.ordinary (not_exists.1 hs) x hx).dataLine

end Statement

@[simp] theorem ordinary_stepStatement (name sign : String) :
    Ordinary (Condition.stepStatement name sign) := by
  simp (disch := decide) only [Condition.stepStatement, toString, String.append_assoc,
    ordinary_assignment]

@[simp] theorem ordinary_setStatement (name value : String) :
    Ordinary (setStatement name value) := by
  unfold setStatement
  split
  · simp (disch := decide) only [String.append_assoc, ordinary_append]
  split
  · exact ordinary_stepStatement name "+"
  split
  · exact ordinary_stepStatement name "-"
  · simp (disch := decide) only [String.append_assoc, ordinary_assignment]

theorem ordinary_assignStatement? {a : Assignment} {text : String}
    (h : assignStatement? a = some text) : Ordinary text := by
  unfold assignStatement? at h
  split at h
  · rw [← Option.some.inj h]
    exact ordinary_stepStatement _ _
  · rw [← Option.some.inj h]
    exact ordinary_stepStatement _ _
  · cases h
  · dsimp only at h
    split at h <;> · rw [← Option.some.inj h]
                     exact ordinary_setStatement _ _

@[simp] theorem ordinary_unsupported (name : String) : Ordinary (unsupported name) := by
  unfold unsupported
  simp (disch := decide) only [String.append_assoc, ordinary_append]

@[simp] theorem ordinary_substringStatement (args : List String) :
    Ordinary (substringStatement args) := by
  unfold substringStatement
  split
  · simp (disch := decide) only [String.append_assoc, ordinary_assignment]
  · simp

theorem ordinary_genericLines (name : String) (args : List String) :
    ∀ t ∈ genericLines name args, Ordinary t := by
  unfold genericLines clipNotes
  split
  · split <;> simp (disch := decide) [String.append_assoc, ordinary_append, ordinary_of_start]
  · simp (disch := decide) [String.append_assoc, ordinary_append]
  · simp (disch := decide) [ordinary_of_start]
  · simp
  · simp
  · simp (disch := decide) [ordinary_of_start]
  · simp (disch := decide) [ordinary_of_start]
  · simp (disch := decide) [ordinary_of_start]
  · simp (disch := decide) [ordinary_of_start]
  · simp (disch := decide) [ordinary_of_start]
  · simp (disch := decide) [ordinary_of_start]
  · split <;> simp

@[simp] theorem ordinary_textItems (s : String) : Ordinary (textItems s) := by
  unfold textItems
  cases pieces s.toList with
  | nil => decide
  | cons p ps =>
    cases ps with
    | nil => cases p <;> simp (disch := decide) [ordinary_append, String.append_assoc]
    | cons q qs =>
      cases p <;>
        simp (disch := decide) [quote, ordinary_append, String.append_assoc,
          String.intercalate_cons_cons]

namespace Condition

theorem ordinary_hoistStep {state : List String × List String}
    (h : ∀ t ∈ state.1, Ordinary t) (param : String) :
    ∀ t ∈ (hoistStep state param).1, Ordinary t := by
  obtain ⟨hoisted, params⟩ := state
  unfold hoistStep
  dsimp only
  split
  · split
    · exact h
    · exact List.forall_mem_cons.2 ⟨ordinary_stepStatement _ _, h⟩
  · exact h

theorem ordinary_hoisted (atoms : List String) :
    ∀ t ∈ (ofAtoms atoms).hoisted, Ordinary t := by
  have hfold (operands : List String) (state : List String × List String)
      (h : ∀ t ∈ state.1, Ordinary t) :
      ∀ t ∈ (operands.foldl hoistStep state).1, Ordinary t := by
    induction operands generalizing state with
    | nil => exact h
    | cons param rest ih => exact ih _ (ordinary_hoistStep h param)
  unfold ofAtoms
  dsimp only
  split <;> simpa using hfold _ ([], []) (by simp)

def IsHeader (line : String) : Prop := ∃ test, line = "IF " ++ test ++ ";"

theorem isHeader_ifLine (c : Condition) : IsHeader c.ifLine := by
  unfold ifLine
  split
  · exact ⟨"1", by decide⟩
  split
  · exact ⟨"ISTRUE(" ++ c.expression ++ ")", by simp [← String.toList_inj]⟩
  · exact ⟨c.expression, rfl⟩

end Condition

end VippDocdef.Docdef
