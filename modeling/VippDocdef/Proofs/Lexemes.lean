import Mathlib.Data.List.Induction
import VippDocdef.Token.Scan

/-! Source texts as sequences of lexemes, that is, of tokens without their places. What a token is
depends on the text from its first character on, and where it stands on the text before it. -/

set_option autoImplicit false

namespace VippDocdef

namespace Scan

theorem le_of_map_add {stop : Option Nat} {n k l : Nat} (h : stop.map (· + k) = some n)
    (hstop : ∀ m, stop = some m → m ≤ l) : n ≤ l + k := by
  obtain ⟨m, hm, rfl⟩ := Option.map_eq_some_iff.1 h
  have := hstop m hm
  omega

theorem commentEnd?_le {cs : List Char} {n : Nat} (h : commentEnd? cs = some n) :
    n ≤ cs.length := by
  fun_induction commentEnd? cs generalizing n with
  | case1 => simp at h; simp; omega
  | case2 _ _ _ ih => exact le_of_map_add h fun _ => ih
  | case3 => simp at h

theorem quoteEnd?_le {quote : Char} {cs : List Char} {n : Nat} (h : quoteEnd? quote cs = some n) :
    n ≤ cs.length := by
  fun_induction quoteEnd? quote cs generalizing n with
  | case1 => simp at h
  | case2 => simp at h
  | case3 _ _ ih => simpa using le_of_map_add h fun _ => ih
  | case4 => simp at h; simp; omega
  | case5 _ _ _ _ _ ih => exact le_of_map_add h fun _ => ih

theorem parenEnd?_le {depth : Nat} {cs : List Char} {n : Nat} (h : parenEnd? depth cs = some n) :
    n ≤ cs.length := by
  fun_induction parenEnd? depth cs generalizing n with
  | case1 => simp at h
  | case2 _ _ ih => exact le_of_map_add h fun _ => ih
  | case3 => simp at h; simp; omega
  | case4 _ _ ih => exact le_of_map_add h fun _ => ih
  | case5 _ _ _ _ _ _ ih => exact le_of_map_add h fun _ => ih

theorem more_closed_le {kind : TokenKind} {rest : List Char} {stop : Option Nat}
    {missing : Unterminated} (h : ∀ n, stop = some n → n ≤ rest.length) :
    (Extent.closed kind rest stop missing).more ≤ rest.length := by
  cases stop with
  | none => exact Nat.le_refl _
  | some n => exact h n rfl

theorem more_while_le (kind : TokenKind) (p : Char → Bool) (rest : List Char) :
    (Extent.while kind p rest).more ≤ rest.length :=
  (List.takeWhile_sublist p).length_le

theorem more_number_le (c : Char) (rest : List Char) : (number c rest).more ≤ rest.length := by
  have hdigits (digits : List Char) : (digits.takeWhile isHexDigit).length ≤ digits.length :=
    (List.takeWhile_sublist _).length_le
  unfold number
  split
  · simpa using hdigits _
  · simpa using hdigits _
  · exact more_while_le _ _ _

theorem more_operator_le (c : Char) (rest : List Char) : (operator c rest).more ≤ rest.length := by
  unfold operator
  split
  · simp only [List.length_cons]
    split <;> omega
  · exact Nat.le_refl _

theorem more_slash_le (rest : List Char) : (extent '/' rest).more ≤ rest.length := by
  have hblank : Text.isBlank '/' = false := by decide
  unfold extent
  rw [hblank, if_neg Bool.false_ne_true, if_pos rfl]
  split
  · exact more_closed_le fun n hn => le_of_map_add hn fun _ => commentEnd?_le
  · split
    · exact more_while_le _ _ _
    · exact more_operator_le _ _
  · exact more_operator_le _ _

theorem more_extent_le (c : Char) (rest : List Char) : (extent c rest).more ≤ rest.length := by
  by_cases hslash : c = '/'
  · exact hslash ▸ more_slash_le rest
  unfold extent
  rw [if_neg hslash]
  split
  · exact more_while_le _ _ _
  split
  · exact more_while_le _ _ _
  split
  · exact more_closed_le fun n hn => quoteEnd?_le hn
  split
  · exact more_closed_le fun n hn => parenEnd?_le hn
  split
  · exact more_number_le _ _
  split
  · split
    · split
      · exact more_number_le _ _
      · exact Nat.zero_le _
    · exact Nat.zero_le _
  split
  · exact (List.takeWhile_sublist _).length_le
  split
  · exact Nat.zero_le _
  split
  · exact more_operator_le _ _
  · exact Nat.zero_le _

end Scan

structure Lexeme where
  kind : TokenKind
  text : String
  deriving DecidableEq, Repr

namespace Lexeme

def first (c : Char) (rest : List Char) : Lexeme :=
  ⟨(Scan.extent c rest).kind, .ofList (c :: rest.take (Scan.extent c rest).more)⟩

def read (skip : Nat) : List Char → List Lexeme
  | [] => []
  | c :: rest =>
    match skip with
    | n + 1 => read n rest
    | 0 => first c rest :: read (Scan.extent c rest).more rest

def ofText (source : String) : List Lexeme := read 0 source.toList

def letters (xs : List Lexeme) : List Char := xs.flatMap (·.text.toList)

@[simp] theorem letters_nil : letters [] = [] := rfl

@[simp] theorem letters_cons (x : Lexeme) (xs : List Lexeme) :
    letters (x :: xs) = x.text.toList ++ letters xs := rfl

theorem letters_read (skip : Nat) (cs : List Char) : letters (read skip cs) = cs.drop skip := by
  induction cs generalizing skip with
  | nil => simp [read]
  | cons c rest ih =>
    cases skip with
    | zero => simp [read, first, ih]
    | succ n => simp [read, ih]

/-- A lexeme is what its rule takes from the text that starts with it. -/
theorem first_of_read {skip : Nat} {cs : List Char} {before after : List Lexeme} {x : Lexeme}
    (h : read skip cs = before ++ x :: after) :
    ∃ c rest, letters (x :: after) = c :: rest ∧ x = first c rest := by
  induction cs generalizing skip before with
  | nil => simp [read] at h
  | cons c rest ih =>
    cases skip with
    | succ n => exact ih h
    | zero =>
      cases before with
      | nil =>
        obtain ⟨rfl, rfl⟩ := List.cons.inj h
        exact ⟨c, rest, by simp [letters_read, first], rfl⟩
      | cons y before => exact ih (List.cons.inj h).2

theorem text_first (c : Char) (rest : List Char) :
    (first c rest).text ≠ "" ∧ (first c rest).text.length = (Scan.extent c rest).more + 1 := by
  have hle := Scan.more_extent_le c rest
  constructor
  · intro hempty
    simpa [first] using congrArg String.toList hempty
  · simp [first, hle, Nat.add_comm]

def bytes : List Char → Nat
  | [] => 0
  | c :: cs => c.utf8Size + bytes cs

@[simp] theorem bytes_nil : bytes [] = 0 := rfl

@[simp] theorem bytes_cons (c : Char) (cs : List Char) :
    bytes (c :: cs) = c.utf8Size + bytes cs := rfl

@[simp] theorem bytes_append (cs ds : List Char) : bytes (cs ++ ds) = bytes cs + bytes ds := by
  induction cs with
  | nil => simp
  | cons c cs ih => simp [ih, Nat.add_assoc]

theorem bytes_toList (s : String) : bytes s.toList = s.utf8ByteSize := by
  have hlist (cs : List Char) : bytes cs = (String.ofList cs).utf8ByteSize := by
    induction cs with
    | nil => rfl
    | cons c cs ih =>
      rw [bytes_cons, ih, ← List.singleton_append, String.ofList_append, String.utf8ByteSize_append]
      simp
  rw [hlist, String.ofList_toList]

/-- Tokens that follow each other without a gap. -/
def lay (p : Position) (offset : Nat) : List Lexeme → List Token
  | [] => []
  | x :: xs =>
    ⟨x.kind, x.text, p, offset⟩ :: lay (p.advance x.text.toList) (offset + bytes x.text.toList) xs

theorem lay_append (p : Position) (offset : Nat) (xs ys : List Lexeme) :
    lay p offset (xs ++ ys)
      = lay p offset xs ++ lay (p.advance (letters xs)) (offset + bytes (letters xs)) ys := by
  induction xs generalizing p offset with
  | nil => rfl
  | cons x xs ih => simp [lay, ih, Position.advance_append, Nat.add_assoc]

theorem tokens_read (skip : Nat) (p : Position) (offset : Nat) (cs : List Char) :
    (Scanned.read skip p offset cs).tokens
      = lay (p.advance (cs.take skip)) (offset + bytes (cs.take skip)) (read skip cs) := by
  induction cs generalizing skip p offset with
  | nil => rfl
  | cons c rest ih =>
    cases skip with
    | zero => simp [Scanned.read, Scanned.add, read, first, lay, ih, Nat.add_assoc]
    | succ n => simp [Scanned.read, read, ih, Nat.add_assoc]

theorem tokens_ofText (source : String) :
    (Scanned.ofText source).tokens = lay {} 0 (ofText source) :=
  tokens_read 0 {} 0 source.toList

end Lexeme

def Token.lexeme (t : Token) : Lexeme := ⟨t.kind, t.text⟩

def Token.letters (ts : List Token) : List Char := ts.flatMap (·.text.toList)

namespace Lexeme

@[simp] theorem letters_map_lexeme (ts : List Token) :
    letters (ts.map Token.lexeme) = Token.letters ts := by
  simp [letters, Token.letters, Token.lexeme, List.flatMap_map]

@[simp] theorem map_lexeme_lay (p : Position) (offset : Nat) (xs : List Lexeme) :
    (lay p offset xs).map Token.lexeme = xs := by
  induction xs generalizing p offset with
  | nil => rfl
  | cons x xs ih => simp [lay, Token.lexeme, ih]

theorem place_of_lay {p : Position} {offset : Nat} {xs : List Lexeme} {before after : List Token}
    {t : Token} (h : lay p offset xs = before ++ t :: after) :
    t.pos = p.advance (Token.letters before) ∧
      t.offset = offset + bytes (Token.letters before) := by
  have hxs : xs = before.map Token.lexeme ++ t.lexeme :: after.map Token.lexeme := by
    rw [← map_lexeme_lay p offset xs, h, List.map_append, List.map_cons]
  rw [hxs, lay_append] at h
  have hlength : (lay p offset (before.map Token.lexeme)).length = before.length := by
    rw [← List.length_map Token.lexeme, map_lexeme_lay, List.length_map]
  have ht := (List.cons.inj (List.append_inj h hlength).2).1
  rw [← ht, letters_map_lexeme]
  exact ⟨rfl, rfl⟩

end Lexeme

namespace Position

theorem advance_concat (p : Position) (cs : List Char) (c : Char) :
    p.advance (cs ++ [c]) = (p.advance cs).next c := by
  simp [advance_append]

theorem line_advance (p : Position) (cs : List Char) :
    (p.advance cs).line = p.line + cs.count '\n' := by
  induction cs using List.reverseRecOn with
  | nil => rfl
  | append_singleton cs c ih =>
    rw [advance_concat, next, List.count_append]
    by_cases hc : c = '\n'
    · simp [hc, ih, Nat.add_assoc]
    · simp [hc, ih]

theorem column_advance (cs : List Char) :
    (advance {} cs).column = 1 + (cs.reverse.takeWhile (· ≠ '\n')).length := by
  induction cs using List.reverseRecOn with
  | nil => rfl
  | append_singleton cs c ih =>
    rw [advance_concat, next, List.reverse_append]
    by_cases hc : c = '\n'
    · simp [hc]
    · simp [hc, ih, Nat.add_assoc]

end Position

/-- A token between others: the text before it gives its place, the text from it on its kind and
length. -/
structure Token.Located (before : List Token) (t : Token) (after : List Token) : Prop where
  nonempty : t.text ≠ ""
  offset : t.offset = (String.join (before.map Token.text)).utf8ByteSize
  line : t.pos.line = 1 + (Token.letters before).count '\n'
  column : t.pos.column = 1 + ((Token.letters before).reverse.takeWhile (· ≠ '\n')).length
  extent : ∃ c rest, Token.letters (t :: after) = c :: rest ∧
    t.kind = (Scan.extent c rest).kind ∧ t.text.length = (Scan.extent c rest).more + 1

theorem Token.toList_join (ts : List Token) :
    (String.join (ts.map Token.text)).toList = Token.letters ts := by
  rw [String.toList_join, List.flatMap_map]
  rfl

/-- The tokens of a text are the text, cut into pieces, each with its own place. -/
theorem Scanned.ofText_lossless (source : String) :
    let tokens := (Scanned.ofText source).tokens
    String.join (tokens.map Token.text) = source ∧
      ∀ before t after, tokens = before ++ t :: after → t.Located before after := by
  intro tokens
  have hlay : tokens = Lexeme.lay {} 0 (Lexeme.ofText source) := Lexeme.tokens_ofText source
  have hlexemes : tokens.map Token.lexeme = Lexeme.ofText source := by
    rw [hlay, Lexeme.map_lexeme_lay]
  refine ⟨?_, fun before t after hsplit => ?_⟩
  · apply String.toList_injective
    rw [Token.toList_join, ← Lexeme.letters_map_lexeme, hlexemes, Lexeme.ofText,
      Lexeme.letters_read, List.drop_zero]
  · obtain ⟨hpos, hoffset⟩ := Lexeme.place_of_lay (hlay.symm.trans hsplit)
    have hread : Lexeme.ofText source
        = before.map Token.lexeme ++ t.lexeme :: after.map Token.lexeme := by
      rw [← hlexemes, hsplit, List.map_append, List.map_cons]
    obtain ⟨c, rest, hrest, hfirst⟩ := Lexeme.first_of_read hread
    obtain ⟨hnonempty, hlength⟩ := Lexeme.text_first c rest
    rw [← List.map_cons, Lexeme.letters_map_lexeme] at hrest
    rw [← hfirst] at hnonempty hlength
    exact
      { nonempty := hnonempty
        offset := by rw [hoffset, Nat.zero_add, ← Lexeme.bytes_toList, Token.toList_join]
        line := by rw [hpos, Position.line_advance]
        column := by rw [hpos, Position.column_advance]
        extent := ⟨c, rest, hrest, congrArg Lexeme.kind hfirst, hlength⟩ }

/-- A letter of two bytes, and a literal with a line break inside. -/
theorem Scanned.ofText_lossless_lineBreak :
    let literal : Token := ⟨.literal, "(\n)", ⟨1, 2⟩, 2⟩
    let name : Token := ⟨.identifier, "x", ⟨2, 2⟩, 5⟩
    let before : List Token := [⟨.unknown, "é", ⟨1, 1⟩, 0⟩, literal]
    (Scanned.ofText "é(\n)x").tokens = before ++ name :: [] ∧ name.Located before [] := by
  intro literal name before
  have htokens : (Scanned.ofText "é(\n)x").tokens = before ++ name :: [] := by decide +kernel
  exact ⟨htokens, (Scanned.ofText_lossless "é(\n)x").2 before name [] htokens⟩

end VippDocdef
