import VippDocdef.Proofs.Blocks
import VippDocdef.Proofs.Motion
import VippDocdef.Proofs.Ownership

/-! Conditions before and behind their bodies. `IF condition { body }` looks ahead for its
condition, and `condition { body } IF` finds it on the stack; both say the same. -/

set_option autoImplicit false

namespace VippDocdef

namespace Lexeme

def isTrivia (x : Lexeme) : Bool := x.kind = .blank || x.kind = .unknown

def alone (x : Lexeme) : Token := ⟨x.kind, x.text, {}, 0⟩

/-- What a condition is made of: values as they occur in source texts, comparisons, and words that
are neither commands nor selections of fonts and colors. -/
inductive IsOperand (x : Lexeme) : Prop where
  | value (source : String) (occurs : x ∈ ofText source)
      (kind : x.kind = .number ∨ x.kind = .literal ∨ x.kind = .variable)
  | comparison (kind : x.kind = .keyword ∨ x.kind = .identifier) (compares : x.text ∈ comparisons)
  | word (kind : x.kind = .keyword ∨ x.kind = .identifier) (noCommand : x.alone.isCommand = false)
      (noFont : x.alone.selectsFont = false) (noColor : x.alone.selectsColor = false)

theorem IsOperand.not_bracket_or_comment {x : Lexeme} (h : x.IsOperand) :
    x.kind ≠ .delimiter ∧ x.kind ≠ .comment := by
  cases h with
  | value source occurs kind => rcases kind with kind | kind | kind <;> simp [kind]
  | comparison kind compares => rcases kind with kind | kind <;> simp [kind]
  | word kind noCommand noFont noColor => rcases kind with kind | kind <;> simp [kind]

theorem kind_word (c : Char) (rest : List Char) :
    (Scan.word c rest).kind = .keyword ∨ (Scan.word c rest).kind = .identifier := by
  unfold Scan.word
  dsimp only
  split
  · exact .inl rfl
  · exact .inr rfl

theorem kind_of_comparison {x : Lexeme} {source : String} (occurs : x ∈ ofText source)
    (h : x.text ∈ comparisons) : x.kind = .keyword ∨ x.kind = .identifier := by
  obtain ⟨before, after, hsplit⟩ := List.append_of_mem occurs
  obtain ⟨c, rest, -, rfl⟩ := first_of_read hsplit
  have hletters : ∀ text ∈ comparisons,
      text.toList.head? ∈ [some 'e', some 'n', some 'l', some 'g'] := by decide
  have hc : c = 'e' ∨ c = 'n' ∨ c = 'l' ∨ c = 'g' := by
    simpa [first] using hletters _ h
  -- a letter starts a word
  have hword : Scan.extent c rest = Scan.word c rest := by
    rcases hc with rfl | rfl | rfl | rfl <;> rfl
  rw [first, hword]
  exact kind_word c rest

end Lexeme

/-- A word on top of a stack, or what a comparison makes of the operands there. -/
def pushed (stack : List Operand) (word : String) : List Operand :=
  if comparisons.contains word then Step.compare word stack else .literal word :: stack

theorem texts_foldl_pushed (words : List String) :
    (words.foldl pushed []).reverse.map Operand.text = foldCondition words := by
  unfold foldCondition
  rw [List.map_reverse]
  refine congrArg List.reverse (List.foldl_hom (List.map Operand.text) fun stack word => ?_).symm
  unfold pushed
  cases comparisons.contains word with
  | false => rfl
  | true => rcases stack with _ | ⟨right, _ | ⟨left, below⟩⟩ <;> rfl

theorem Turn.ofToken_comparison {t : Token} (hkind : t.kind = .keyword ∨ t.kind = .identifier)
    (h : t.text ∈ comparisons) (rest : List Token) (stack : List Operand) :
    Turn.ofToken t rest stack = .go { stack := Step.compare t.text stack } rest := by
  obtain ⟨kind, text, p, offset⟩ := t
  simp only [comparisons, List.mem_cons, List.not_mem_nil, or_false] at h
  rcases hkind with rfl | rfl <;> rcases h with rfl | rfl | rfl | rfl | rfl | rfl <;> rfl

theorem Step.ofIdentifier_of_not_selects {t : Token} (hkind : t.kind = .identifier)
    (hfont : t.selectsFont = false) (hcolor : t.selectsColor = false) (stack : List Operand) :
    Step.ofIdentifier t stack = { stack := .literal t.text :: stack } := by
  unfold ofIdentifier
  dsimp only
  split
  · rfl
  split
  · next h => simp_all [Token.selectsFont]
  split
  · next h => simp_all [Token.selectsColor]
  · rfl

theorem Turn.ofToken_operand {t : Token} (h : t.lexeme.IsOperand) (rest : List Token)
    (stack : List Operand) :
    Turn.ofToken t rest stack = .go { stack := pushed stack t.text } rest := by
  cases h with
  | value source occurs kind =>
    have hnot : t.text ∉ comparisons := by
      intro hmem
      rcases Lexeme.kind_of_comparison occurs hmem with hword | hword <;> simp [hword] at kind
    have hkind : t.kind = .number ∨ t.kind = .literal ∨ t.kind = .variable := kind
    rcases hkind with hkind | hkind | hkind <;>
      simp [ofToken, ofOther, Token.isCommand, hkind, pushed, hnot]
  | comparison kind compares =>
    have hmem : t.text ∈ comparisons := compares
    rw [ofToken_comparison kind hmem]
    simp [pushed, hmem]
  | word kind noCommand noFont noColor =>
    have hcommand : t.isCommand = false := noCommand
    have hkind : t.kind = .keyword ∨ t.kind = .identifier := kind
    have hnot : t.text ∉ comparisons := by
      intro hmem
      rcases hkind with hkind | hkind <;> simp [Token.isCommand, hkind, specialWords, hmem]
        at hcommand
    rcases hkind with hkind | hkind
    · simp [ofToken, ofOther, hcommand, hkind, pushed, hnot]
    · have hpush := Step.ofIdentifier_of_not_selects hkind noFont noColor stack
      simp [ofToken, ofOther, hcommand, hkind, pushed, hnot, hpush]

namespace Lexeme

def ifWord : Lexeme := ⟨.keyword, "IF"⟩

def opening : Lexeme := ⟨.delimiter, "\x7b"⟩

def closing : Lexeme := ⟨.delimiter, "\x7d"⟩

def block (body : List Lexeme) : List Lexeme := opening :: (body ++ [closing])

inductive Balanced : List Lexeme → Prop where
  | nil : Balanced []
  | other {x : Lexeme} {xs : List Lexeme} (noOpening : x ≠ opening) (noClosing : x ≠ closing)
      (rest : Balanced xs) : Balanced (x :: xs)
  | nested {inner xs : List Lexeme} (inside : Balanced inner) (rest : Balanced xs) :
      Balanced (opening :: (inner ++ closing :: xs))

theorem Balanced.filter {xs : List Lexeme} (h : Balanced xs) {keeps : Lexeme → Bool}
    (hopening : keeps opening = true) (hclosing : keeps closing = true) :
    Balanced (xs.filter keeps) := by
  induction h with
  | nil => exact .nil
  | @other x xs noOpening noClosing rest ih =>
    rw [List.filter_cons]
    split
    · exact .other noOpening noClosing ih
    · exact ih
  | nested inside rest ihinside ih =>
    rw [List.filter_cons_of_pos hopening, List.filter_append, List.filter_cons_of_pos hclosing]
    exact .nested ihinside ih

end Lexeme

theorem isDelimiter_iff {t : Token} {text : String} :
    t.isDelimiter text = true ↔ t.lexeme = ⟨.delimiter, text⟩ := by
  simp [Token.isDelimiter, Token.lexeme]

theorem Lexeme.Balanced.brace {xs : List Lexeme} (h : Balanced xs) {ts : List Token}
    (hts : ts.map Token.lexeme = xs) : Bracket.brace.Balanced ts := by
  induction h generalizing ts with
  | nil =>
    obtain rfl := List.map_eq_nil_iff.1 hts
    exact Bracket.balanced_nil
  | other noOpening noClosing _ ih =>
    obtain ⟨t, ts, rfl, ht, hts⟩ := List.map_eq_cons_iff.1 hts
    rw [← ht] at noOpening noClosing
    exact (ih hts).cons (Bool.eq_false_iff.2 (mt isDelimiter_iff.1 noOpening))
      (Bool.eq_false_iff.2 (mt isDelimiter_iff.1 noClosing))
  | nested _ _ ihinside ih =>
    obtain ⟨t, ts, rfl, ht, hts⟩ := List.map_eq_cons_iff.1 hts
    obtain ⟨inner, ts, rfl, hinner, hts⟩ := List.map_eq_append_iff.1 hts
    obtain ⟨c, ts, rfl, hc, hts⟩ := List.map_eq_cons_iff.1 hts
    exact (ih hts).block_append (isDelimiter_iff.2 ht) (ihinside hinner) (isDelimiter_iff.2 hc)

theorem splitBracket_balanced {c : Token} (hc : c.lexeme = .closing) (after : List Token)
    {ts : List Token} (h : Lexeme.Balanced (ts.map Token.lexeme)) :
    splitBracket "\x7b" (ts ++ c :: after) = (ts, after) :=
  Bracket.splitBracket_balanced (h.brace rfl) (isDelimiter_iff.2 hc) after

namespace Turn

theorem ofToken_opening {o c : Token} (ho : o.lexeme = .opening) (hc : c.lexeme = .closing)
    {body : List Token} (h : Lexeme.Balanced (body.map Token.lexeme)) (after : List Token)
    (stack : List Operand) : ofToken o (body ++ c :: after) stack = .push body after := by
  obtain ⟨kind, text, p, offset⟩ := o
  obtain ⟨rfl, rfl⟩ := Lexeme.mk.inj ho
  simp [ofToken, splitBracket_balanced hc after h]

theorem ofToken_ifWord {t : Token} (h : t.lexeme = .ifWord) (rest : List Token)
    (stack : List Operand) :
    ofToken t rest stack = match Step.postfixIf? t stack with
      | some step => .go step rest
      | none => prefixIf t rest stack := by
  obtain ⟨kind, text, p, offset⟩ := t
  obtain ⟨rfl, rfl⟩ := Lexeme.mk.inj h
  rfl

theorem prefixIf_eq_branch {t o c : Token} (ho : o.lexeme = .opening) (hc : c.lexeme = .closing)
    {words body : List Token} (hkind : ∀ u ∈ words, u.kind ≠ .delimiter ∧ u.kind ≠ .comment)
    (hline : ∀ u ∈ words, u.pos.line = t.pos.line)
    (hbody : Lexeme.Balanced (body.map Token.lexeme)) (stack : List Operand) :
    prefixIf t (words ++ o :: (body ++ [c])) stack
      = .branch (foldCondition (words.map Token.text)) body [] := by
  have hin : ∀ u ∈ words, inCondition t u = true := by
    intro u hu
    simp [inCondition, hline u hu, Token.isDelimiter, (hkind u hu).1]
  have hbrace : o.isDelimiter "\x7b" = true := isDelimiter_iff.2 ho
  have hout : inCondition t o = false := by simp [inCondition, hbrace]
  have hcomment : words.filter (·.kind ≠ .comment) = words := by
    refine List.filter_eq_self.2 fun u hu => ?_
    simp [(hkind u hu).2]
  have hcondition : condition t (words ++ o :: (body ++ [c]))
      = foldCondition (words.map Token.text) := by
    rw [condition, List.takeWhile_append_of_pos hin, List.takeWhile_cons_of_neg (by simp [hout]),
      List.append_nil, hcomment]
  rw [prefixIf, hcondition, List.dropWhile_append_of_pos hin,
    List.dropWhile_cons_of_neg (by simp [hout])]
  simp [hbrace, splitBracket_balanced hc [] hbody, dropEndIf]

end Turn

namespace Reading

theorem read_operands {condition : List Token} (h : ∀ t ∈ condition, t.lexeme.IsOperand)
    (rest : List Token) (stack : List Operand) :
    read (condition ++ rest) stack = read rest ((condition.map Token.text).foldl pushed stack) := by
  induction condition generalizing stack with
  | nil => rfl
  | cons t ts ih =>
    obtain ⟨ht, hts⟩ := List.forall_mem_cons.1 h
    rw [List.cons_append, read_go (Turn.ofToken_operand ht _ stack)]
    exact ih hts _

section Forms

variable {t o c : Token} (ht : t.lexeme = .ifWord) (ho : o.lexeme = .opening)
    (hc : c.lexeme = .closing)
  {condition body : List Token} (hbody : Lexeme.Balanced (body.map Token.lexeme))

include ht ho hc hbody

theorem commands_prefixIf (hkind : ∀ u ∈ condition, u.kind ≠ .delimiter ∧ u.kind ≠ .comment)
    (hline : ∀ u ∈ condition, u.pos.line = t.pos.line) :
    (read (t :: (condition ++ o :: (body ++ [c]))) []).commands
      = [.ifBlock t.pos (foldCondition (condition.map Token.text)) (read body []).commands] := by
  have hturn : Turn.ofToken t (condition ++ o :: (body ++ [c])) []
      = .branch (foldCondition (condition.map Token.text)) body [] := by
    rw [Turn.ofToken_ifWord ht]
    exact Turn.prefixIf_eq_branch ho hc hkind hline hbody []
  rw [read_branch hturn, read]
  rfl

theorem commands_postfixIf (stack : List Operand) :
    (read (o :: (body ++ c :: [t])) stack).commands
      = [.ifBlock t.pos (stack.reverse.map Operand.text) (read body []).commands] := by
  rw [read_push (Turn.ofToken_opening ho hc hbody [t] _),
    read_go (Turn.ofToken_ifWord ht [] _), read]
  rfl

end Forms

end Reading

namespace Lexeme

def solid (xs : List Lexeme) : List Lexeme := xs.filter fun x => !x.isTrivia

/-- The tokens of a text that can say something. -/
def seen (p : Position) (offset : Nat) (xs : List Lexeme) : List Token :=
  (lay p offset xs).filter fun t => !t.isTrivia

section Seen

variable (p : Position) (offset : Nat) (xs : List Lexeme)

theorem seen_cons {x : Lexeme} (h : x.isTrivia = false) :
    seen p offset (x :: xs) = ⟨x.kind, x.text, p, offset⟩
      :: seen (p.advance x.text.toList) (offset + bytes x.text.toList) xs := by
  rw [seen, lay]
  exact List.filter_cons_of_pos (congrArg not h)

theorem seen_cons_of_isTrivia {x : Lexeme} (h : x.isTrivia = true) :
    seen p offset (x :: xs) = seen (p.advance x.text.toList) (offset + bytes x.text.toList) xs := by
  have htoken : (⟨x.kind, x.text, p, offset⟩ : Token).isTrivia = true := h
  rw [seen, lay, List.filter_cons_of_neg (by simp [htoken]), seen]

theorem seen_append (ys : List Lexeme) : seen p offset (xs ++ ys) = seen p offset xs
    ++ seen (p.advance (letters xs)) (offset + bytes (letters xs)) ys := by
  rw [seen, lay_append, List.filter_append, seen, seen]

theorem map_lexeme_seen : (seen p offset xs).map Token.lexeme = solid xs := by
  have h := List.filter_map (f := Token.lexeme) (p := fun x => !x.isTrivia) (l := lay p offset xs)
  rw [map_lexeme_lay] at h
  exact h.symm

theorem map_text_seen : (seen p offset xs).map Token.text = (solid xs).map Lexeme.text := by
  rw [← map_lexeme_seen p offset xs, List.map_map]
  rfl

variable {xs}

theorem seen_of_isTrivia (h : ∀ x ∈ xs, x.isTrivia = true) : seen p offset xs = [] := by
  rw [← List.map_eq_nil_iff (f := Token.lexeme), map_lexeme_seen, solid, List.filter_eq_nil_iff]
  simpa using h

theorem isOperand_of_mem_seen (h : ∀ x ∈ solid xs, x.IsOperand) :
    ∀ t ∈ seen p offset xs, t.lexeme.IsOperand := by
  intro t ht
  apply h
  rw [← map_lexeme_seen p offset xs]
  exact List.mem_map_of_mem ht

theorem Balanced.seen (h : Balanced xs) : Balanced ((seen p offset xs).map Token.lexeme) := by
  rw [map_lexeme_seen]
  exact h.filter rfl rfl

theorem seen_block (body : List Lexeme) :
    ∃ (o c : Token) (q : Position) (n : Nat), o.lexeme = opening ∧ c.lexeme = closing ∧
      seen p offset (block body) = o :: (seen q n body ++ [c]) := by
  rw [block, seen_cons _ _ _ rfl, seen_append]
  exact ⟨_, _, _, _, rfl, rfl, rfl⟩

theorem seen_before (condition body : List Lexeme) :
    ∃ (o c : Token) (q r : Position) (m n : Nat), o.lexeme = opening ∧ c.lexeme = closing ∧
      seen p offset (.ifWord :: condition) = ⟨.keyword, "IF", p, offset⟩ :: seen q m condition ∧
      seen p offset (.ifWord :: (condition ++ block body))
        = ⟨.keyword, "IF", p, offset⟩ :: (seen q m condition ++ o :: (seen r n body ++ [c])) := by
  rw [seen_cons _ _ _ rfl, seen_cons _ _ _ rfl, seen_append]
  obtain ⟨o, c, r, n, ho, hc, hblock⟩ := seen_block _ _ body
  rw [hblock]
  exact ⟨o, c, _, r, _, n, ho, hc, rfl, rfl⟩

theorem seen_behind (condition body : List Lexeme) {gap : List Lexeme}
    (blank : ∀ x ∈ gap, x.isTrivia = true) :
    ∃ (o c t : Token) (q : Position) (n : Nat), o.lexeme = opening ∧ c.lexeme = closing ∧
      t.lexeme = ifWord ∧ seen p offset (condition ++ (block body ++ (gap ++ [.ifWord])))
        = seen p offset condition ++ o :: (seen q n body ++ c :: [t]) := by
  have hword (q : Position) (n : Nat) : seen q n [.ifWord] = [⟨.keyword, "IF", q, n⟩] := rfl
  rw [seen_append, seen_append, seen_append, seen_of_isTrivia _ _ blank, hword]
  obtain ⟨o, c, q, n, ho, hc, hblock⟩ := seen_block _ _ body
  rw [hblock, List.nil_append, List.cons_append, List.append_assoc, List.singleton_append]
  refine ⟨o, c, _, q, n, ho, hc, ?_, rfl⟩
  rfl

end Seen

end Lexeme

namespace Script

/-- What a condition and a body say together. -/
def conditional (condition body : List Lexeme) : Command :=
  .ifBlock {} (foldCondition ((Lexeme.solid condition).map Lexeme.text))
    (said (Lexeme.lay {} 0 body))

theorem unplaced_ifBlock (place p : Position) (offset : Nat) (condition : List String)
    (body : List Lexeme) :
    [Command.ifBlock place condition (Reading.read (Lexeme.seen p offset body) []).commands].map
      Command.unplaced = [.ifBlock {} condition (said (Lexeme.lay {} 0 body))] := by
  have hbody : Command.movedAll (fun _ => {}) (Reading.read (Lexeme.seen p offset body) []).commands
      = said (Lexeme.lay {} 0 body) := by
    rw [Command.movedAll_eq, said_lay {} p 0 offset]
    rfl
  exact congrArg (fun body => [Command.ifBlock {} condition body]) hbody

section Sides

variable {condition body gap : List Lexeme} (balanced : Lexeme.Balanced body)

include balanced

theorem said_words_before (p : Position) (m : Nat)
    (kinds : ∀ x ∈ Lexeme.solid condition, x.kind ≠ .delimiter ∧ x.kind ≠ .comment)
    (line : ∀ t ∈ Lexeme.seen p m (.ifWord :: condition), t.pos.line = p.line) :
    said (Lexeme.lay p m (.ifWord :: (condition ++ Lexeme.block body)))
      = [conditional condition body] := by
  obtain ⟨o, c, q, r, n, k, ho, hc, hcondition, hall⟩ := Lexeme.seen_before p m condition body
  rw [hcondition] at line
  obtain ⟨-, hline⟩ := List.forall_mem_cons.1 line
  have hkind : ∀ u ∈ Lexeme.seen q n condition, u.kind ≠ .delimiter ∧ u.kind ≠ .comment := by
    intro u hu
    apply kinds u.lexeme
    rw [← Lexeme.map_lexeme_seen q n condition]
    exact List.mem_map_of_mem hu
  change (Reading.read (Lexeme.seen p m _) []).commands.map Command.unplaced = _
  rw [hall, Reading.commands_prefixIf rfl ho hc (balanced.seen r k) hkind hline,
    Lexeme.map_text_seen]
  exact unplaced_ifBlock p r k _ body

theorem said_words_behind (blank : ∀ x ∈ gap, x.isTrivia = true) (p : Position) (m : Nat)
    {words : List String} (hread : ∀ (o : Token) (rest : List Token), o.lexeme = .opening →
      Reading.read (Lexeme.seen p m condition ++ o :: rest) []
        = Reading.read (o :: rest) (words.foldl pushed [])) :
    said (Lexeme.lay p m (condition ++ (Lexeme.block body ++ (gap ++ [.ifWord]))))
      = [.ifBlock {} (foldCondition words) (said (Lexeme.lay {} 0 body))] := by
  obtain ⟨o, c, t, r, k, ho, hc, ht, hall⟩ := Lexeme.seen_behind p m condition body blank
  change (Reading.read (Lexeme.seen p m _) []).commands.map Command.unplaced = _
  rw [hall, hread o _ ho, Reading.commands_postfixIf ht ho hc (balanced.seen r k),
    texts_foldl_pushed]
  exact unplaced_ifBlock _ r k _ body

end Sides

section Operands

variable {condition body gap : List Lexeme} (operands : ∀ x ∈ Lexeme.solid condition, x.IsOperand)
  (balanced : Lexeme.Balanced body)

include operands balanced

theorem said_before (p : Position) (m : Nat)
    (line : ∀ t ∈ Lexeme.seen p m (.ifWord :: condition), t.pos.line = p.line) :
    said (Lexeme.lay p m (.ifWord :: (condition ++ Lexeme.block body)))
      = [conditional condition body] :=
  said_words_before balanced p m (fun x hx => (operands x hx).not_bracket_or_comment) line

theorem said_behind (blank : ∀ x ∈ gap, x.isTrivia = true) (p : Position) (m : Nat) :
    said (Lexeme.lay p m (condition ++ (Lexeme.block body ++ (gap ++ [.ifWord]))))
      = [conditional condition body] := by
  refine said_words_behind balanced blank p m fun o rest _ => ?_
  rw [Reading.read_operands (Lexeme.isOperand_of_mem_seen p m operands), Lexeme.map_text_seen]

end Operands

/-- A condition on the line of its `IF` says the same before its body and behind it. -/
theorem condition_before_or_behind {condition body gap : List Lexeme}
    (operands : ∀ x ∈ Lexeme.solid condition, x.IsOperand) (balanced : Lexeme.Balanced body)
    (blank : ∀ x ∈ gap, x.isTrivia = true) (p q : Position) (m n : Nat)
    (line : ∀ t ∈ Lexeme.seen p m (.ifWord :: condition), t.pos.line = p.line) :
    said (Lexeme.lay p m (.ifWord :: (condition ++ Lexeme.block body)))
      = [conditional condition body] ∧
      said (Lexeme.lay q n (condition ++ (Lexeme.block body ++ (gap ++ [.ifWord]))))
        = [conditional condition body] :=
  ⟨said_before operands balanced p m line, said_behind operands balanced blank q n⟩

/-- A comparison without operands, and a body of two lines with braces inside. -/
theorem condition_before_or_behind_nested :
    let condition := Lexeme.ofText " lt VAR_A (x) eq "
    let body := Lexeme.ofText "NL\n\x7b-1 NL\x7d"
    let gap : List Lexeme := [⟨.blank, "\n"⟩]
    Lexeme.Balanced body ∧
      foldCondition ((Lexeme.solid condition).map Lexeme.text) = ["lt", "VAR_A eq (x)"] ∧
      said (Lexeme.lay {} 0 (.ifWord :: (condition ++ Lexeme.block body)))
        = [conditional condition body] ∧
      said (Lexeme.lay ⟨3, 7⟩ 40 (condition ++ (Lexeme.block body ++ (gap ++ [.ifWord]))))
        = [conditional condition body] := by
  intro condition body gap
  have hcondition : Lexeme.solid condition
      = [⟨.identifier, "lt"⟩, ⟨.identifier, "VAR_A"⟩, ⟨.literal, "(x)"⟩, ⟨.identifier, "eq"⟩] := by
    decide +kernel
  have operands : ∀ x ∈ Lexeme.solid condition, x.IsOperand := by
    rw [hcondition]
    simp only [List.forall_mem_cons]
    refine ⟨.comparison (.inr rfl) (by decide), .word (.inr rfl) rfl rfl (by decide +kernel), ?_,
      .comparison (.inr rfl) (by decide), by simp⟩
    exact .value "(x)" (by decide +kernel) (.inr (.inl rfl))
  have hbody : body = [⟨.keyword, "NL"⟩, ⟨.blank, "\n"⟩, .opening, ⟨.operator, "-"⟩, ⟨.number, "1"⟩,
      ⟨.blank, " "⟩, ⟨.keyword, "NL"⟩, .closing] := by
    decide +kernel
  have balanced : Lexeme.Balanced body := by
    have inner : Lexeme.Balanced
        [⟨.operator, "-"⟩, ⟨.number, "1"⟩, ⟨.blank, " "⟩, ⟨.keyword, "NL"⟩] := by
      iterate 4 refine .other (by decide) (by decide) ?_
      exact .nil
    rw [hbody]
    exact .other (by decide) (by decide) (.other (by decide) (by decide) (.nested inner .nil))
  have line : ∀ t ∈ Lexeme.seen {} 0 (.ifWord :: condition), t.pos.line = 1 := by decide +kernel
  refine ⟨balanced, by rw [hcondition]; decide +kernel, ?_⟩
  exact condition_before_or_behind operands balanced (by simp [gap, Lexeme.isTrivia]) {}
    ⟨3, 7⟩ 0 40 line

end Script

end VippDocdef
