import Mathlib.Data.List.Chain
import VippDocdef.Proofs.Conditionals

/-! Negative numbers in conditions. On the stack a minus sign and the number right behind it are one
operand; in front of a body they are two words, and a comparison takes them for its two sides. -/

set_option autoImplicit false

namespace VippDocdef

namespace Lexeme

def minus : Lexeme := ⟨.operator, "-"⟩

def IsSigned (x n : Lexeme) : Prop := x = minus ∧ n.kind = .number

instance (x n : Lexeme) : Decidable (x.IsSigned n) := inferInstanceAs (Decidable (_ ∧ _))

def signedWords : List Lexeme → List String
  | [] => []
  | [x] => if x.isTrivia then [] else [x.text]
  | x :: n :: more =>
    if x.IsSigned n then ("-" ++ n.text) :: signedWords more
    else if x.isTrivia then signedWords (n :: more)
    else x.text :: signedWords (n :: more)

def Unsigned (xs : List Lexeme) : Prop := xs.IsChain fun x n => ¬ x.IsSigned n

/-- What a condition with signs is made of: operands, and operators that are no commands. -/
def IsTerm (x : Lexeme) : Prop := x.IsOperand ∨ x.kind = .operator ∧ x.alone.isCommand = false

theorem IsTerm.not_bracket_or_comment {x : Lexeme} (h : x.IsTerm) :
    x.kind ≠ .delimiter ∧ x.kind ≠ .comment := by
  rcases h with h | ⟨hkind, -⟩
  · exact h.not_bracket_or_comment
  · simp [hkind]

theorem IsTerm.not_mem_comparisons {x : Lexeme} (h : x.IsTerm) (hkind : x.kind = .number) :
    x.text ∉ comparisons := by
  intro hmem
  have hoccurs : ∃ source, x ∈ ofText source := by
    rcases h with (⟨source, occurs, -⟩ | ⟨kind, -⟩ | ⟨kind, -, -, -⟩) | ⟨kind, -⟩
    · exact ⟨source, occurs⟩
    · simp [hkind] at kind
    · simp [hkind] at kind
    · simp [hkind] at kind
  obtain ⟨source, occurs⟩ := hoccurs
  rcases kind_of_comparison occurs hmem with hword | hword <;> simp [hkind] at hword

theorem IsSigned.not_isTrivia {x n : Lexeme} (h : x.IsSigned n) : n.isTrivia = false := by
  simp [isTrivia, h.2]

end Lexeme

theorem Position.advance_ne {cs : List Char} (h : cs ≠ []) (p : Position) : p.advance cs ≠ p := by
  have hcolumn (cs : List Char) (p : Position) (hline : '\n' ∉ cs) :
      (p.advance cs).column = p.column + cs.length := by
    induction cs generalizing p with
    | nil => rfl
    | cons c cs ih =>
      rw [List.mem_cons, not_or] at hline
      rw [advance_cons, ih _ hline.2, next, if_neg (Ne.symm hline.1), List.length_cons]
      dsimp only
      omega
  intro heq
  by_cases hline : '\n' ∈ cs
  · have hcount := List.count_pos_iff.2 hline
    have hmoved := line_advance p cs
    rw [heq] at hmoved
    omega
  · have hlength := List.length_pos_iff.2 h
    have hmoved := hcolumn cs p hline
    rw [heq] at hmoved
    omega

namespace Lexeme

section Behind

variable {xs : List Lexeme} (spaced : ∀ x ∈ xs, x.text ≠ "") {o : Token} (ho : o.kind ≠ .number)

include spaced ho

theorem head_of_adjacent {q : Position} {m : Nat} {rest more : List Token} {t : Token}
    (h : seen q m xs ++ o :: rest = t :: more) (hkind : t.kind = .number) (hpos : t.pos = q) :
    ∃ n ys, xs = n :: ys ∧ n.kind = .number := by
  cases xs with
  | nil =>
    obtain ⟨rfl, -⟩ := List.cons.inj h
    exact absurd hkind ho
  | cons x ys =>
    cases htrivia : x.isTrivia with
    | false =>
      rw [seen_cons q m ys htrivia, List.cons_append] at h
      obtain ⟨rfl, -⟩ := List.cons.inj h
      exact ⟨x, ys, rfl, hkind⟩
    | true =>
      -- what follows a blank is further on
      rw [seen_cons_of_isTrivia q m ys htrivia] at h
      have hmem : t ∈ lay (q.advance x.text.toList) (m + bytes x.text.toList) ys := by
        rcases List.append_eq_cons_iff.1 h with ⟨-, hrest⟩ | ⟨more', hseen, -⟩
        · obtain ⟨rfl, -⟩ := List.cons.inj hrest
          exact absurd hkind ho
        · have hin : t ∈ seen (q.advance x.text.toList) (m + bytes x.text.toList) ys := by
            simp [hseen]
          exact List.mem_of_mem_filter hin
      obtain ⟨before, after, hsplit⟩ := List.append_of_mem hmem
      have hplace := (place_of_lay hsplit).1
      rw [hpos, ← Position.advance_append] at hplace
      refine absurd hplace.symm (Position.advance_ne ?_ q)
      simpa using fun htext => absurd htext (spaced x List.mem_cons_self)

end Behind

end Lexeme

namespace Turn

theorem isAdjacentNumber_iff_pos {t n : Token} :
    isAdjacentNumber t n = true ↔ n.kind = .number ∧
      n.pos = t.pos.advance Lexeme.minus.text.toList := by
  have hnext : t.pos.advance Lexeme.minus.text.toList = ⟨t.pos.line, t.pos.column + 1⟩ := rfl
  rw [isAdjacentNumber_iff, hnext]
  refine and_congr_right fun _ => ⟨fun h => ?_, fun h => by simp [h]⟩
  rw [← h.1, ← h.2]

theorem ofToken_signed {t n : Token} (ht : t.lexeme = .minus) (h : isAdjacentNumber t n = true)
    (rest : List Token) (stack : List Operand) :
    ofToken t (n :: rest) stack = .go { stack := .literal ("-" ++ n.text) :: stack } rest := by
  obtain ⟨kind, text, p, offset⟩ := t
  obtain ⟨rfl, rfl⟩ := Lexeme.mk.inj ht
  simp [ofToken, h]

theorem ofToken_operator {t : Token} (hkind : t.kind = .operator) (hcommand : t.isCommand = false)
    {rest : List Token}
    (h : ∀ n more, rest = n :: more → t.text = "-" → isAdjacentNumber t n = false)
    (stack : List Operand) :
    ofToken t rest stack = .go { stack := .literal t.text :: stack } rest := by
  have hother : ofOther t rest stack = .go { stack := .literal t.text :: stack } rest := by
    simp [ofOther, hcommand, hkind]
  unfold ofToken
  rw [hkind]
  dsimp only
  split
  · next n more =>
    rw [if_neg, hother]
    simp only [Bool.and_eq_true, decide_eq_true_eq, not_and, Bool.not_eq_true]
    exact h n more rfl
  · exact hother

end Turn

theorem pushed_of_not_mem {word : String} (h : word ∉ comparisons) (stack : List Operand) :
    pushed stack word = .literal word :: stack := by
  simp [pushed, h]

theorem signed_not_mem_comparisons (number : String) : "-" ++ number ∉ comparisons := by
  have hminus : ∀ word ∈ comparisons, '-' ∉ word.toList := by decide
  intro hmem
  exact hminus _ hmem (by simp)

namespace Reading

open Lexeme

theorem read_term {t : Token} (h : t.lexeme.IsTerm) {rest : List Token}
    (hsign : ∀ n more, rest = n :: more → t.lexeme = minus → Turn.isAdjacentNumber t n = false)
    (stack : List Operand) : read (t :: rest) stack = read rest (pushed stack t.text) := by
  rcases h with h | ⟨hkind, hcommand⟩
  · exact read_go (Turn.ofToken_operand h rest stack)
  · have hkind' : t.kind = .operator := hkind
    have hcommand' : t.isCommand = false := hcommand
    have hnot : t.text ∉ comparisons := by
      intro hmem
      simp [Token.isCommand, hkind', specialWords, hmem] at hcommand'
    rw [read_go (Turn.ofToken_operator hkind' hcommand' (fun n more hrest htext => ?_) stack),
      pushed_of_not_mem hnot]
    · rfl
    · exact hsign n more hrest (by simp [Token.lexeme, hkind', htext, minus])

theorem read_terms {condition : List Lexeme} (terms : ∀ x ∈ solid condition, x.IsTerm)
    (spaced : ∀ x ∈ condition, x.text ≠ "") (p : Position) (m : Nat) {o : Token}
    (ho : o.kind ≠ .number) (rest : List Token) (stack : List Operand) :
    read (seen p m condition ++ o :: rest) stack
      = read (o :: rest) ((signedWords condition).foldl pushed stack) := by
  induction condition using signedWords.induct generalizing p m stack with
  | case1 => rfl
  | case2 x htrivia =>
    rw [seen_of_isTrivia p m (by simpa using htrivia), signedWords, if_pos htrivia]
    rfl
  | case3 x htrivia =>
    have hx : x.IsTerm := terms x (by simp [solid, htrivia])
    rw [signedWords, if_neg htrivia, seen_cons p m [] (by simpa using htrivia)]
    refine read_term (t := ⟨x.kind, x.text, p, m⟩) hx (fun n more hrest _ => ?_) stack
    obtain ⟨rfl, -⟩ := List.cons.inj hrest
    simp [Turn.isAdjacentNumber, ho]
  | case4 x n more hsigned ih =>
    obtain ⟨rfl, hnumber⟩ := hsigned
    have hn : n.isTrivia = false := by simp [isTrivia, hnumber]
    have hsolid : ∀ y ∈ solid more, y.IsTerm := fun y hy => terms y (by
      simp only [solid, List.filter_cons] at hy ⊢
      split <;> split <;> simp [hy])
    rw [signedWords, if_pos ⟨rfl, hnumber⟩, seen_cons p m _ rfl, seen_cons _ _ more hn,
      List.cons_append, List.cons_append, read_go (Turn.ofToken_signed rfl ?_ _ stack),
      List.foldl_cons, pushed_of_not_mem (signed_not_mem_comparisons n.text)]
    · exact ih hsolid (fun y hy => spaced y (by simp [hy])) _ _ _
    · exact Turn.isAdjacentNumber_iff_pos.2 ⟨hnumber, rfl⟩
  | case5 x n more hsigned htrivia ih =>
    have hsolid : solid (x :: n :: more) = solid (n :: more) := by simp [solid, htrivia]
    rw [signedWords, if_neg hsigned, if_pos htrivia, seen_cons_of_isTrivia p m _ htrivia]
    exact ih (hsolid ▸ terms) (fun y hy => spaced y (List.mem_cons_of_mem _ hy)) _ _ stack
  | case6 x n more hsigned htrivia ih =>
    have hsolid : solid (x :: n :: more) = x :: solid (n :: more) := by simp [solid, htrivia]
    rw [hsolid, List.forall_mem_cons] at terms
    have hrest := fun y hy => spaced y (List.mem_cons_of_mem x hy)
    rw [signedWords, if_neg hsigned, if_neg htrivia, seen_cons p m _ (by simpa using htrivia),
      List.cons_append,
      read_term (t := ⟨x.kind, x.text, p, m⟩) terms.1 (fun u us hnext hminus => ?_) stack]
    · exact ih terms.2 hrest _ _ _
    · -- a number right behind the sign would be `n`
      obtain rfl : x = minus := hminus
      rw [← Bool.not_eq_true]
      intro hadjacent
      obtain ⟨hkind, hpos⟩ := Turn.isAdjacentNumber_iff_pos.1 hadjacent
      obtain ⟨n', ys, heq, hnumber⟩ := head_of_adjacent hrest ho hnext hkind hpos
      obtain ⟨rfl, -⟩ := List.cons.inj heq
      exact hsigned ⟨rfl, hnumber⟩

end Reading

def weight : List String → Nat
  | [] => 0
  | word :: words => word.length + 1 + weight words

@[simp] theorem weight_append (a b : List String) : weight (a ++ b) = weight a + weight b := by
  induction a with
  | nil => simp [weight]
  | cons word words ih => simp only [List.cons_append, weight, ih]; omega

theorem weight_reverse (words : List String) : weight words.reverse = weight words := by
  induction words with
  | nil => rfl
  | cons word words ih => simp only [List.reverse_cons, weight_append, ih, weight]; omega

theorem weight_pushed (stack : List Operand) (word : String) :
    weight ((pushed stack word).map Operand.text)
      = weight (stack.map Operand.text) + (word.length + 1) := by
  unfold pushed
  split
  · rcases stack with _ | ⟨right, _ | ⟨left, below⟩⟩
    · simp [Step.compare, weight, Operand.text]
    · simp only [Step.compare, List.map_cons, List.map_nil, weight, Operand.text]
      omega
    · have hlength : s!"{left.text} {word} {right.text}".length
          = left.text.length + word.length + right.text.length + 2 := by
        have hblank : " ".length = 1 := by decide
        simp only [toString, String.length_append, hblank]
        omega
      simp only [Step.compare, List.map_cons, weight, Operand.text] at hlength ⊢
      omega
  · simp only [List.map_cons, weight, Operand.text]
    omega

theorem weight_foldCondition (words : List String) :
    weight (foldCondition words) = weight words := by
  have hfold (stack : List Operand) : weight ((words.foldl pushed stack).map Operand.text)
      = weight (stack.map Operand.text) + weight words := by
    induction words generalizing stack with
    | nil => rfl
    | cons word words ih =>
      rw [List.foldl_cons, ih, weight_pushed, weight]
      omega
  rw [← texts_foldl_pushed, List.map_reverse, weight_reverse, hfold]
  simp [weight]

namespace Lexeme

/-- Every sign that is taken for a part of its number saves a blank. -/
theorem weight_signedWords (xs : List Lexeme) :
    weight (signedWords xs) ≤ weight ((solid xs).map text) ∧
      (weight (signedWords xs) = weight ((solid xs).map text) → Unsigned xs) := by
  induction xs using signedWords.induct with
  | case1 => exact ⟨Nat.le_refl _, fun _ => .nil⟩
  | case2 x htrivia => exact ⟨by simp [signedWords, solid, htrivia], fun _ => .singleton x⟩
  | case3 x htrivia => exact ⟨by simp [signedWords, solid, htrivia], fun _ => .singleton x⟩
  | case4 x n more hsigned ih =>
    have hless :
        weight (signedWords (x :: n :: more)) < weight ((solid (x :: n :: more)).map text) := by
      have hsign : x.isTrivia = false := hsigned.1 ▸ rfl
      have hminus : "-".length = 1 := by decide
      have hsolid : solid (x :: n :: more) = x :: n :: solid more := by
        simp [solid, hsign, hsigned.not_isTrivia]
      rw [signedWords, if_pos hsigned, hsolid, hsigned.1]
      simp only [List.map_cons, weight, minus, String.length_append, hminus]
      omega
    exact ⟨Nat.le_of_lt hless, fun heq => absurd heq (Nat.ne_of_lt hless)⟩
  | case5 x n more hsigned htrivia ih =>
    have hsolid : solid (x :: n :: more) = solid (n :: more) := by simp [solid, htrivia]
    rw [signedWords, if_neg hsigned, if_pos htrivia, hsolid]
    exact ⟨ih.1, fun heq => .cons_cons hsigned (ih.2 heq)⟩
  | case6 x n more hsigned htrivia ih =>
    have hsolid : solid (x :: n :: more) = x :: solid (n :: more) := by simp [solid, htrivia]
    rw [signedWords, if_neg hsigned, if_neg htrivia, hsolid]
    simp only [List.map_cons, weight]
    exact ⟨Nat.add_le_add_left ih.1 _,
      fun heq => .cons_cons hsigned (ih.2 (Nat.add_left_cancel heq))⟩

theorem signedWords_of_unsigned {xs : List Lexeme} (h : Unsigned xs) :
    signedWords xs = (solid xs).map text := by
  induction xs using signedWords.induct with
  | case1 => rfl
  | case2 x htrivia => simp [signedWords, solid, htrivia]
  | case3 x htrivia => simp [signedWords, solid, htrivia]
  | case4 x n more hsigned ih => exact absurd hsigned h.rel
  | case5 x n more hsigned htrivia ih =>
    rw [signedWords, if_neg hsigned, if_pos htrivia, ih h.tail]
    simp [solid, htrivia]
  | case6 x n more hsigned htrivia ih =>
    rw [signedWords, if_neg hsigned, if_neg htrivia, ih h.tail]
    simp [solid, htrivia]

/-- Both lists of words fold to the same atoms only if no number has a sign. -/
theorem fold_signedWords_iff (xs : List Lexeme) :
    foldCondition ((solid xs).map text) = foldCondition (signedWords xs) ↔ Unsigned xs := by
  refine ⟨fun heq => (weight_signedWords xs).2 ?_, fun h => by rw [signedWords_of_unsigned h]⟩
  rw [← weight_foldCondition, ← heq, weight_foldCondition]

theorem signedWords_cons_of_isTrivia {x : Lexeme} (h : x.isTrivia = true) (xs : List Lexeme) :
    signedWords (x :: xs) = signedWords xs := by
  cases xs with
  | nil => simp [signedWords, h]
  | cons n more =>
    have hsigned : ¬ x.IsSigned n := by
      rintro ⟨rfl, -⟩
      cases h
    rw [signedWords, if_neg hsigned, if_pos h]

theorem signedWords_append_of_isTrivia {gap : List Lexeme} (h : ∀ x ∈ gap, x.isTrivia = true)
    (xs : List Lexeme) : signedWords (gap ++ xs) = signedWords xs := by
  induction gap with
  | nil => rfl
  | cons x gap ih =>
    obtain ⟨hx, hgap⟩ := List.forall_mem_cons.1 h
    rw [List.cons_append, signedWords_cons_of_isTrivia hx, ih hgap]

theorem signedWords_cons {x : Lexeme} (h : x.isTrivia = false) {xs : List Lexeme}
    (hnext : ∀ n ∈ xs.head?, ¬ x.IsSigned n) :
    signedWords (x :: xs) = x.text :: signedWords xs := by
  cases xs with
  | nil => simp [signedWords, h]
  | cons n more => rw [signedWords, if_neg (hnext n rfl), if_neg (by simp [h])]

theorem signedWords_signed {x n : Lexeme} (h : x.IsSigned n) (xs : List Lexeme) :
    signedWords (x :: n :: xs) = ("-" ++ n.text) :: signedWords xs := by
  rw [signedWords, if_pos h]

end Lexeme

/-- A comparison with a negative number on its right, with the blanks before and behind its
words. -/
structure SignedComparison where
  left : Lexeme
  number : Lexeme
  op : Lexeme
  beforeLeft : List Lexeme
  behindLeft : List Lexeme
  behindNumber : List Lexeme
  behindOp : List Lexeme
  leftSolid : left.isTrivia = false
  isNumber : number.kind = .number
  opSolid : op.isTrivia = false
  compares : op.text ∈ comparisons
  blank : ∀ x ∈ beforeLeft ++ behindLeft ++ behindNumber ++ behindOp, x.isTrivia = true

namespace SignedComparison

open Lexeme

variable (c : SignedComparison)

def lexemes : List Lexeme :=
  c.beforeLeft ++ c.left ::
    (c.behindLeft ++ minus :: c.number :: (c.behindNumber ++ c.op :: c.behindOp))

theorem solid_lexemes : solid c.lexemes = [c.left, minus, c.number, c.op] := by
  have hblank := c.blank
  simp only [List.forall_mem_append] at hblank
  have hgap {gap : List Lexeme} (h : ∀ x ∈ gap, x.isTrivia = true) :
      gap.filter (fun x => !x.isTrivia) = [] := by simpa [List.filter_eq_nil_iff] using h
  have hnumber : c.number.isTrivia = false := by simp [isTrivia, c.isNumber]
  have hminus : minus.isTrivia = false := rfl
  simp [lexemes, solid, hgap hblank.1.1.1, hgap hblank.1.1.2, hgap hblank.1.2, hgap hblank.2,
    c.leftSolid, c.opSolid, hnumber, hminus]

theorem signedWords_lexemes :
    signedWords c.lexemes = [c.left.text, "-" ++ c.number.text, c.op.text] := by
  have hblank := c.blank
  simp only [List.forall_mem_append] at hblank
  obtain ⟨⟨⟨hbefore, hleft⟩, hnumber⟩, hop⟩ := hblank
  -- what comes next is a blank or the sign, and no number
  have hnext :
      ∀ n ∈ (c.behindLeft ++ minus :: c.number :: (c.behindNumber ++ c.op :: c.behindOp)).head?,
      ¬ c.left.IsSigned n := by
    rintro n hn ⟨-, hkind⟩
    cases hgap : c.behindLeft with
    | nil =>
      rw [hgap] at hn
      obtain rfl := Option.some.inj hn
      cases hkind
    | cons x gap =>
      rw [hgap] at hn hleft
      obtain rfl := Option.some.inj hn
      have hx := hleft x List.mem_cons_self
      simp [isTrivia, hkind] at hx
  have hlast : ∀ n ∈ c.behindOp.head?, ¬ c.op.IsSigned n := by
    rintro n hn ⟨-, hkind⟩
    have hx := hop n (List.mem_of_mem_head? hn)
    simp [isTrivia, hkind] at hx
  have hend : signedWords c.behindOp = [] := by
    rw [← List.append_nil c.behindOp, signedWords_append_of_isTrivia hop, signedWords]
  rw [lexemes, signedWords_append_of_isTrivia hbefore, signedWords_cons c.leftSolid hnext,
    signedWords_append_of_isTrivia hleft, signedWords_signed ⟨rfl, c.isNumber⟩,
    signedWords_append_of_isTrivia hnumber, signedWords_cons c.opSolid hlast, hend]

/-- The sign alone becomes the left side of the comparison. -/
theorem foldCondition_split (h : c.number.text ∉ comparisons) :
    foldCondition [c.left.text, "-", c.number.text, c.op.text]
      = [c.left.text, s!"- {c.op.text} {c.number.text}"] := by
  rw [← texts_foldl_pushed]
  have hminus : "-" ∉ comparisons := by decide
  have hleft : pushed [] c.left.text = [.literal c.left.text] := by
    unfold pushed
    split <;> rfl
  simp only [List.foldl_cons, List.foldl_nil, hleft, pushed_of_not_mem hminus, pushed_of_not_mem h]
  simp [pushed, c.compares, Step.compare, Operand.text, toString]

theorem foldCondition_signed :
    foldCondition [c.left.text, "-" ++ c.number.text, c.op.text]
      = [s!"{c.left.text} {c.op.text} -{c.number.text}"] := by
  rw [← texts_foldl_pushed]
  have hleft : pushed [] c.left.text = [.literal c.left.text] := by
    unfold pushed
    split <;> rfl
  simp only [List.foldl_cons, List.foldl_nil, hleft,
    pushed_of_not_mem (signed_not_mem_comparisons _)]
  have hblank (word : String) : " " ++ ("-" ++ word) = " -" ++ word := by
    rw [← String.append_assoc]
    rfl
  simp [pushed, c.compares, Step.compare, Operand.text, toString, String.append_assoc, hblank]

end SignedComparison

namespace Script

section Terms

variable {condition body gap : List Lexeme} (terms : ∀ x ∈ Lexeme.solid condition, x.IsTerm)
  (balanced : Lexeme.Balanced body)

include terms balanced

theorem said_terms_before (p : Position) (m : Nat)
    (line : ∀ t ∈ Lexeme.seen p m (.ifWord :: condition), t.pos.line = p.line) :
    said (Lexeme.lay p m (.ifWord :: (condition ++ Lexeme.block body)))
      = [.ifBlock {} (foldCondition ((Lexeme.solid condition).map Lexeme.text))
        (said (Lexeme.lay {} 0 body))] :=
  said_words_before balanced p m (fun x hx => (terms x hx).not_bracket_or_comment) line

theorem said_terms_behind (spaced : ∀ x ∈ condition, x.text ≠ "")
    (blank : ∀ x ∈ gap, x.isTrivia = true) (p : Position) (m : Nat) :
    said (Lexeme.lay p m (condition ++ (Lexeme.block body ++ (gap ++ [.ifWord]))))
      = [.ifBlock {} (foldCondition (Lexeme.signedWords condition))
        (said (Lexeme.lay {} 0 body))] := by
  refine said_words_behind balanced blank p m fun o rest ho => ?_
  have hkind : o.kind = .delimiter := congrArg Lexeme.kind ho
  exact Reading.read_terms terms spaced p m (by simp [hkind]) rest []

end Terms

/-- Before its body a condition loses the signs of its numbers: both forms say the same if and only
if no minus sign stands right before a number. In a comparison with one negative number the sign is
compared with the number, and what stands on the left is an atom of its own. -/
theorem condition_sides_agree_iff {condition body gap : List Lexeme}
    (terms : ∀ x ∈ Lexeme.solid condition, x.IsTerm) (spaced : ∀ x ∈ condition, x.text ≠ "")
    (balanced : Lexeme.Balanced body) (blank : ∀ x ∈ gap, x.isTrivia = true) (p q : Position)
    (m n : Nat) (line : ∀ t ∈ Lexeme.seen p m (.ifWord :: condition), t.pos.line = p.line) :
    let before : List Command := said (Lexeme.lay p m (.ifWord :: (condition ++ Lexeme.block body)))
    let behind : List Command :=
      said (Lexeme.lay q n (condition ++ (Lexeme.block body ++ (gap ++ [.ifWord]))))
    let branch (atoms : List String) : List Command :=
      [.ifBlock {} atoms (said (Lexeme.lay {} 0 body))]
    before = branch (foldCondition ((Lexeme.solid condition).map Lexeme.text)) ∧
    behind = branch (foldCondition (Lexeme.signedWords condition)) ∧
    (before = behind ↔ Lexeme.Unsigned condition) ∧
    ∀ c : SignedComparison, condition = c.lexemes →
      before = branch [c.left.text, s!"- {c.op.text} {c.number.text}"] ∧
      behind = branch [s!"{c.left.text} {c.op.text} -{c.number.text}"] := by
  intro before behind branch
  have hbefore : before = branch (foldCondition ((Lexeme.solid condition).map Lexeme.text)) :=
    said_terms_before terms balanced p m line
  have hbehind : behind = branch (foldCondition (Lexeme.signedWords condition)) :=
    said_terms_behind terms balanced spaced blank q n
  refine ⟨hbefore, hbehind, ?_, fun c hc => ?_⟩
  · rw [hbefore, hbehind, ← Lexeme.fold_signedWords_iff]
    simp [branch]
  · subst hc
    have hnumber : c.number.text ∉ comparisons :=
      (terms c.number (by simp [c.solid_lexemes])).not_mem_comparisons c.isNumber
    rw [hbefore, hbehind, c.solid_lexemes, c.signedWords_lexemes, c.foldCondition_signed]
    exact ⟨congrArg branch (c.foldCondition_split hnumber), rfl⟩

/-- A negative number with a point in it, and a body with braces inside. -/
theorem condition_sides_agree_iff_negative :
    let condition : List Lexeme := Lexeme.ofText " VAR_A -1.5 eq "
    let body : List Lexeme := Lexeme.ofText "NL\x7b-1 NL\x7d"
    let gap : List Lexeme := [⟨.blank, "\n"⟩]
    let before : List Command :=
      said (Lexeme.lay {} 0 (.ifWord :: (condition ++ Lexeme.block body)))
    let behind : List Command :=
      said (Lexeme.lay ⟨3, 7⟩ 40 (condition ++ (Lexeme.block body ++ (gap ++ [.ifWord]))))
    let branch (atoms : List String) : List Command :=
      [.ifBlock {} atoms (said (Lexeme.lay {} 0 body))]
    before = branch ["VAR_A", "- eq 1.5"] ∧ behind = branch ["VAR_A eq -1.5"] ∧
      before ≠ behind := by
  intro condition body gap before behind branch
  have hcondition :
      condition = [⟨.blank, " "⟩, ⟨.identifier, "VAR_A"⟩, ⟨.blank, " "⟩, .minus, ⟨.number, "1.5"⟩,
      ⟨.blank, " "⟩, ⟨.identifier, "eq"⟩, ⟨.blank, " "⟩] := by
    decide +kernel
  have terms : ∀ x ∈ Lexeme.solid condition, x.IsTerm := by
    have hsolid : Lexeme.solid condition
        = [⟨.identifier, "VAR_A"⟩, .minus, ⟨.number, "1.5"⟩, ⟨.identifier, "eq"⟩] := by
      rw [hcondition]
      decide
    rw [hsolid]
    simp only [List.forall_mem_cons]
    refine ⟨.inl (.word (.inr rfl) rfl rfl (by decide +kernel)), .inr ⟨rfl, by decide⟩, .inl ?_,
      .inl (.comparison (.inr rfl) (by decide)), List.forall_mem_nil _⟩
    exact .value "1.5" (by decide +kernel) (.inl rfl)
  have hbody :
      body = [⟨.keyword, "NL"⟩, .opening, .minus, ⟨.number, "1"⟩, ⟨.blank, " "⟩, ⟨.keyword, "NL"⟩,
      .closing] := by
    decide +kernel
  have balanced : Lexeme.Balanced body := by
    have inner : Lexeme.Balanced [.minus, ⟨.number, "1"⟩, ⟨.blank, " "⟩, ⟨.keyword, "NL"⟩] := by
      iterate 4 refine .other (by decide) (by decide) ?_
      exact .nil
    rw [hbody]
    exact .other (by decide) (by decide) (.nested inner .nil)
  have line : ∀ t ∈ Lexeme.seen {} 0 (.ifWord :: condition), t.pos.line = 1 := by
    rw [hcondition]
    decide +kernel
  have spaced : ∀ x ∈ condition, x.text ≠ "" := by
    rw [hcondition]
    decide
  have blank : ∀ x ∈ gap, x.isTrivia = true := by simp [gap, Lexeme.isTrivia]
  obtain ⟨-, -, hagree, hsigned⟩ :=
    condition_sides_agree_iff terms spaced balanced blank {} ⟨3, 7⟩ 0 40 line
  let c : SignedComparison :=
    { left := ⟨.identifier, "VAR_A"⟩, number := ⟨.number, "1.5"⟩, op := ⟨.identifier, "eq"⟩
      beforeLeft := [⟨.blank, " "⟩], behindLeft := [⟨.blank, " "⟩], behindNumber := [⟨.blank, " "⟩]
      behindOp := [⟨.blank, " "⟩], leftSolid := rfl, isNumber := rfl, opSolid :=
        rfl, compares := by decide
      blank := by decide }
  obtain ⟨hbefore, hbehind⟩ := hsigned c hcondition
  refine ⟨hbefore, hbehind, fun heq => ?_⟩
  have hunsigned := hagree.1 heq
  rw [hcondition] at hunsigned
  exact absurd hunsigned (by simp [Lexeme.Unsigned, Lexeme.IsSigned, Lexeme.minus])

/-- The same comparison on both sides of an empty body: in front of it the sign is compared with the
number. -/
theorem sign_compared_with_number :
    said (Scanned.ofText "IF VAR_A -1 eq\x7b\x7d").tokens = [.ifBlock {} ["VAR_A", "- eq 1"] []] ∧
    said (Scanned.ofText " VAR_A -1 eq\x7b\x7dIF").tokens = [.ifBlock {} ["VAR_A eq -1"] []] := by
  let comparison : List Lexeme := [⟨.blank, " "⟩, ⟨.identifier, "VAR_A"⟩, ⟨.blank, " "⟩, .minus,
    ⟨.number, "1"⟩, ⟨.blank, " "⟩, ⟨.identifier, "eq"⟩]
  have hterms : ∀ x ∈ Lexeme.solid comparison, x.IsTerm := by
    have hsolid : Lexeme.solid comparison
        = [⟨.identifier, "VAR_A"⟩, .minus, ⟨.number, "1"⟩, ⟨.identifier, "eq"⟩] := by decide
    rw [hsolid]
    simp only [List.forall_mem_cons]
    refine ⟨.inl (.word (.inr rfl) rfl rfl (by decide +kernel)), .inr ⟨rfl, by decide⟩, .inl ?_,
      .inl (.comparison (.inr rfl) (by decide)), List.forall_mem_nil _⟩
    exact .value "1" (by decide +kernel) (.inl rfl)
  have hempty : said (Lexeme.lay {} 0 []) = [] := by
    rw [said, Lexeme.lay, ofTokens, List.filter_nil, Reading.read]
    rfl
  constructor
  · have htext :
        Lexeme.ofText "IF VAR_A -1 eq\x7b\x7d" = .ifWord :: (comparison ++ Lexeme.block []) := by
      decide +kernel
    have hwords :
        foldCondition ((Lexeme.solid comparison).map Lexeme.text) = ["VAR_A", "- eq 1"] := by
      decide +kernel
    rw [Lexeme.tokens_ofText, htext, said_terms_before hterms .nil {} 0 (by decide +kernel),
      hwords, hempty]
  · have htext : Lexeme.ofText " VAR_A -1 eq\x7b\x7dIF"
        = comparison ++ (Lexeme.block [] ++ ([] ++ [.ifWord])) := by decide +kernel
    have hwords : foldCondition (Lexeme.signedWords comparison) = ["VAR_A eq -1"] := by
      decide +kernel
    rw [Lexeme.tokens_ofText, htext,
      said_terms_behind hterms .nil (by decide) (List.forall_mem_nil _) {} 0, hwords, hempty]

end Script

end VippDocdef
