import Mathlib.Data.List.TakeWhile
import VippDocdef.Proofs.Enclosures

/-! Tokens that stand alone. Some rules look at what follows a token, but only to find its end: the
letters of a token show its end and its kind, whatever comes next. -/

set_option autoImplicit false

namespace VippDocdef

namespace Scan

/-- What a rule takes, it takes also where nothing follows. -/
def Stable (rule : List Char → Extent) : Prop :=
  ∀ rest, rule (rest.take (rule rest).more) = rule rest

theorem take_length_takeWhile (p : Char → Bool) (cs : List Char) :
    cs.take (cs.takeWhile p).length = cs.takeWhile p :=
  (List.prefix_iff_eq_take.1 (List.takeWhile_prefix p)).symm

theorem stable_while (kind : TokenKind) (p : Char → Bool) : Stable (Extent.while kind p) := by
  intro rest
  simp [Extent.while, take_length_takeWhile, List.takeWhile_idem]

theorem stable_operator (c : Char) : Stable (operator c) := by
  intro rest
  cases rest with
  | nil => rfl
  | cons d rest => by_cases hpair : (c, d) ∈ operatorPairs <;> simp [operator, hpair]

theorem stable_word (c : Char) : Stable (word c) := by
  intro rest
  simp [word, take_length_takeWhile, List.takeWhile_idem]

theorem number_eq_while {c : Char} {rest : List Char}
    (h : c = '0' → rest.head? ≠ some 'x' ∧ rest.head? ≠ some 'X') :
    number c rest = .while .number (fun d => d.isDigit || d == '.') rest := by
  unfold number
  split
  · simp at h
  · simp at h
  · rfl

theorem stable_number (c : Char) : Stable (number c) := by
  intro rest
  by_cases hplain : c = '0' → rest.head? ≠ some 'x' ∧ rest.head? ≠ some 'X'
  · have htake (n : Nat) :
        c = '0' → (rest.take n).head? ≠ some 'x' ∧ (rest.take n).head? ≠ some 'X' := by
      intro hc
      cases n with
      | zero => simp
      | succ n => simpa [List.head?_take] using hplain hc
    rw [number_eq_while hplain, number_eq_while (htake _)]
    exact stable_while _ _ rest
  · obtain ⟨rfl, hhex⟩ := Classical.not_imp.1 hplain
    have hdigits (digits : List Char) :
        (digits.take (digits.takeWhile isHexDigit).length).takeWhile isHexDigit
          = digits.takeWhile isHexDigit := by
      rw [take_length_takeWhile, List.takeWhile_idem]
    rcases rest with _ | ⟨d, digits⟩
    · simp at hhex
    · have hd : d = 'x' ∨ d = 'X' := by simpa [or_iff_not_imp_left] using hhex
      rcases hd with rfl | rfl <;> simp [number, hdigits]

theorem ofLetters?_take {c : Char} {rest : List Char} {e : Enclosure}
    (h : Enclosure.ofLetters? (c :: rest) = some e) (n : Nat) :
    Enclosure.ofLetters? (c :: rest.take (n + 1)) = some e := by
  rcases Enclosure.starts_of_ofLetters? h
    with ⟨rfl, ⟨body, rfl⟩, rfl⟩ | ⟨rfl | rfl, rfl⟩ | ⟨rfl, rfl⟩
  all_goals rfl

theorem not_closed_singleton {c : Char} {rest : List Char} {e : Enclosure}
    (h : Enclosure.ofLetters? (c :: rest) = some e) : ¬ e.Closed [c] := by
  rcases Enclosure.starts_of_ofLetters? h with ⟨rfl, -, rfl⟩ | ⟨rfl | rfl, rfl⟩ | ⟨rfl, rfl⟩
  all_goals simp [Enclosure.Closed]

theorem stable_enclosure {c : Char} {rest : List Char} {e : Enclosure}
    (h : Enclosure.ofLetters? (c :: rest) = some e) :
    extent c (rest.take (extent c rest).more) = extent c rest := by
  obtain ⟨stop, hextent, hstops⟩ := extent_of_ofLetters? h
  rw [hextent]
  cases stop with
  | none =>
    simp only [Extent.closed, List.take_length]
    exact hextent
  | some n =>
    cases n with
    | zero => exact absurd hstops.2.1 (not_closed_singleton h)
    | succ n =>
      obtain ⟨stop', hextent', hstops'⟩ := extent_of_ofLetters? (ofLetters?_take h n)
      obtain rfl := hstops.take.unique hstops'
      exact hextent'

/-- A letter may need another one behind it to start a run, and is a token by itself without it. -/
theorem stable_of_gate {rule : List Char → Extent} {alone kind : TokenKind} {p : Char → Bool}
    {gate : Char → Bool} {allowed : Char → Prop} (hgate : ∀ d, gate d = true → p d = true)
    (hnil : rule [] = ⟨alone, 0, none⟩)
    (hcons : ∀ d rest, allowed d →
      rule (d :: rest) = if gate d then .while kind p (d :: rest) else ⟨alone, 0, none⟩)
    {rest : List Char} (hrest : ∀ d ∈ rest.head?, allowed d) :
    rule (rest.take (rule rest).more) = rule rest := by
  cases rest with
  | nil => rw [List.take_nil]
  | cons d rest =>
    have hd : allowed d := hrest d rfl
    rw [hcons d rest hd]
    split
    · next hopen =>
      have hstable := stable_while kind p (d :: rest)
      have hmore : (Extent.while kind p (d :: rest)).more = (rest.takeWhile p).length + 1 := by
        simp [Extent.while, hgate d hopen]
      rw [hmore, List.take_succ_cons] at hstable ⊢
      rw [hcons d _ hd, if_pos hopen, hstable]
    · exact hnil

theorem stable_extent (c : Char) : Stable (extent c) := by
  intro rest
  cases henclosure : Enclosure.ofLetters? (c :: rest) with
  | some e => exact stable_enclosure henclosure
  | none =>
    have hrule := rule_extent c
    generalize extent c = rule at hrule ⊢
    cases hrule with
    | slash =>
      have hrest : ∀ d ∈ rest.head?, d ≠ '*' := by
        rintro d hd rfl
        obtain ⟨tail, rfl⟩ := List.head?_eq_some_iff.1 hd
        simp [Enclosure.ofLetters?] at henclosure
      exact stable_of_gate (fun _ hd => hd) rfl (fun d rest hd => extent_slash_cons hd rest) hrest
    | quoted c quote => rcases quote with rfl | rfl <;> simp [Enclosure.ofLetters?] at henclosure
    | parenthesized => simp [Enclosure.ofLetters?] at henclosure
    | run c kind p => exact stable_while kind p rest
    | number c => exact stable_number c rest
    | point =>
      have hgate (d : Char) (hd : d.isDigit = true) : (d.isDigit || d == '.') = true := by simp [hd]
      have hcons (d : Char) (rest : List Char) (_ : True) := extent_point_cons d rest
      exact stable_of_gate hgate rfl hcons fun _ _ => trivial
    | word c => exact stable_word c rest
    | operator c => exact stable_operator c rest
    | single c kind => rfl

end Scan

namespace Lexeme

theorem read_eq_nil {skip : Nat} {cs : List Char} (h : cs.length ≤ skip) : read skip cs = [] := by
  induction cs generalizing skip with
  | nil => rfl
  | cons c rest ih =>
    cases skip with
    | zero => simp at h
    | succ n => exact ih (Nat.le_of_succ_le_succ h)

theorem ofText_first (c : Char) (rest : List Char) :
    ofText (first c rest).text = [first c rest] := by
  have hsame : first c (rest.take (Scan.extent c rest).more) = first c rest := by
    rw [first, Scan.stable_extent, List.take_take, Nat.min_self, first]
  have hrest : read (Scan.extent c rest).more (rest.take (Scan.extent c rest).more) = [] :=
    read_eq_nil (List.length_take_le _ _)
  rw [ofText, first, String.toList_ofList, read, hsame, Scan.stable_extent, hrest, first]

end Lexeme

/-- Every token is the only token of its own text. -/
theorem Scanned.ofText_alone (source : String) :
    ∀ t ∈ (Scanned.ofText source).tokens,
      (Scanned.ofText t.text).tokens = [⟨t.kind, t.text, {}, 0⟩] := by
  intro t ht
  have hlexeme : t.lexeme ∈ Lexeme.ofText source := by
    rw [← Lexeme.map_lexeme_lay {} 0 (Lexeme.ofText source), ← Lexeme.tokens_ofText]
    exact List.mem_map_of_mem ht
  obtain ⟨before, after, hsplit⟩ := List.append_of_mem hlexeme
  obtain ⟨c, rest, -, hfirst⟩ := Lexeme.first_of_read hsplit
  have halone : Lexeme.ofText t.text = [t.lexeme] := by
    have htext : t.text = (Lexeme.first c rest).text := congrArg Lexeme.text hfirst
    rw [htext, Lexeme.ofText_first, hfirst]
  rw [Lexeme.tokens_ofText, halone]
  rfl

/-- A star that a comment cannot end with, because it is the one that starts it. -/
theorem Scanned.ofText_alone_comment :
    let t : Token := ⟨.comment, "/*/ )", ⟨1, 3⟩, 2⟩
    t ∈ (Scanned.ofText "0x/*/ )").tokens ∧
      (Scanned.ofText t.text).tokens = [⟨.comment, "/*/ )", ⟨1, 1⟩, 0⟩] := by
  intro t
  have ht : t ∈ (Scanned.ofText "0x/*/ )").tokens := by decide +kernel
  exact ⟨ht, Scanned.ofText_alone "0x/*/ )" t ht⟩

end VippDocdef
