import VippDocdef.Proofs.Lexemes

/-! Literals and comments, and how far they go: to the first closing mark that counts, or else to
the end of the text. What counts is said of the letters alone, and the rules of the scanner are
compared with it. -/

set_option autoImplicit false

namespace VippDocdef

/-- `Stops P xs stop`: the shortest start of `xs` with the property `P` ends at `stop`; without a
stop there is none. -/
def Stops {α : Type} (P : List α → Prop) (xs : List α) : Option Nat → Prop
  | some n => n ≤ xs.length ∧ P (xs.take n) ∧ ∀ m < n, ¬ P (xs.take m)
  | none => ∀ m, ¬ P (xs.take m)

namespace Stops

variable {α : Type} {P Q : List α → Prop} {x : α} {xs : List α} {stop stop' : Option Nat}

theorem unique (h : Stops P xs stop) (h' : Stops P xs stop') : stop = stop' := by
  cases stop with
  | none =>
    cases stop' with
    | none => rfl
    | some n => exact absurd h'.2.1 (h n)
  | some n =>
    cases stop' with
    | none => exact absurd h.2.1 (h' n)
    | some n' =>
      have hle : ¬ n' < n := fun hlt => h.2.2 n' hlt h'.2.1
      have hge : ¬ n < n' := fun hlt => h'.2.2 n hlt h.2.1
      exact congrArg some (by omega)

theorem congr (h : Stops P xs stop) (heq : ∀ m, P (xs.take m) ↔ Q (xs.take m)) :
    Stops Q xs stop := by
  cases stop with
  | none => exact fun m hm => h m ((heq m).2 hm)
  | some n => exact ⟨h.1, (heq n).1 h.2.1, fun m hm hq => h.2.2 m hm ((heq m).2 hq)⟩

theorem nil (hnil : ¬ P []) : Stops P [] none := by
  intro m
  rwa [List.take_nil]

theorem cons (hnil : ¬ P []) (h : Stops (fun p => P (x :: p)) xs stop) :
    Stops P (x :: xs) (stop.map (· + 1)) := by
  cases stop with
  | none =>
    intro m
    cases m with
    | zero => exact hnil
    | succ m => exact h m
  | some n =>
    refine ⟨Nat.succ_le_succ h.1, h.2.1, fun m hm => ?_⟩
    cases m with
    | zero => exact hnil
    | succ m => exact h.2.2 m (Nat.lt_of_succ_lt_succ hm)

theorem first (hnil : ¬ P []) (h : P [x]) : Stops P (x :: xs) (some 1) := by
  refine ⟨by simp, h, fun m hm => ?_⟩
  obtain rfl : m = 0 := by omega
  exact hnil

theorem take {n : Nat} (h : Stops P xs (some n)) : Stops P (xs.take n) (some n) := by
  obtain ⟨hle, hn, hless⟩ := h
  refine ⟨by simp [hle], by rwa [List.take_take, Nat.min_self], fun m hm => ?_⟩
  rw [List.take_take, Nat.min_eq_left (Nat.le_of_lt hm)]
  exact hless m hm

end Stops

/-- Whether the letter behind a text is escaped: it follows a backslash that is not escaped
itself. -/
def escapesNext (cs : List Char) : Bool := cs.foldl (fun escaped c => c == '\\' && !escaped) false

inductive Enclosure where
  | comment
  | quoted (quote : Char)
  | parenthesized
  deriving DecidableEq, Repr

namespace Enclosure

/-- What the first letters of a text start. -/
def ofLetters? : List Char → Option Enclosure
  | '/' :: '*' :: _ => some .comment
  | '\'' :: _ => some (.quoted '\'')
  | '"' :: _ => some (.quoted '"')
  | '(' :: _ => some .parenthesized
  | _ => none

def Closed : Enclosure → List Char → Prop
  | .comment, cs => 4 ≤ cs.length ∧ ['*', '/'] <:+ cs
  | .quoted quote, cs => ∃ before, before ≠ [] ∧ cs = before ++ [quote] ∧ escapesNext before = false
  | .parenthesized, cs => cs ≠ [] ∧ cs.count '(' = cs.count ')'

def kind : Enclosure → TokenKind
  | .comment => .comment
  | .quoted _ | .parenthesized => .literal

def missing : Enclosure → Unterminated
  | .comment => .blockComment
  | .quoted _ => .quoted
  | .parenthesized => .parenthesized

theorem starts_of_ofLetters? {c : Char} {rest : List Char} {e : Enclosure}
    (h : ofLetters? (c :: rest) = some e) :
    (c = '/' ∧ (∃ body, rest = '*' :: body) ∧ e = .comment) ∨
      ((c = '\'' ∨ c = '"') ∧ e = .quoted c) ∨ (c = '(' ∧ e = .parenthesized) := by
  unfold ofLetters? at h
  split at h
  · next body heq =>
    obtain ⟨rfl, rfl⟩ := List.cons.inj heq
    exact .inl ⟨rfl, ⟨body, rfl⟩, (Option.some.inj h).symm⟩
  · next heq =>
    obtain ⟨rfl, -⟩ := List.cons.inj heq
    exact .inr (.inl ⟨.inl rfl, (Option.some.inj h).symm⟩)
  · next heq =>
    obtain ⟨rfl, -⟩ := List.cons.inj heq
    exact .inr (.inl ⟨.inr rfl, (Option.some.inj h).symm⟩)
  · next heq =>
    obtain ⟨rfl, -⟩ := List.cons.inj heq
    exact .inr (.inr ⟨rfl, (Option.some.inj h).symm⟩)
  · cases h

theorem not_closed_nil (e : Enclosure) : ¬ e.Closed [] := by
  cases e <;> simp [Closed]

end Enclosure

namespace Scan

theorem stops_parenEnd? (depth : Nat) (cs : List Char) :
    Stops (fun p => p.count '(' + depth + 1 = p.count ')') cs (parenEnd? depth cs) := by
  fun_induction parenEnd? depth cs with
  | case1 depth => exact .nil (by simp)
  | case2 depth cs ih =>
    refine .cons (by simp) (ih.congr fun m => ?_)
    simp; omega
  | case3 cs => exact .first (by simp) (by simp)
  | case4 depth cs ih =>
    refine .cons (by simp) (ih.congr fun m => ?_)
    simp; omega
  | case5 depth c cs hopening hlast hclosing ih =>
    have hnot : c ≠ '(' ∧ c ≠ ')' := by
      refine ⟨hopening, ?_⟩
      rintro rfl
      cases depth with
      | zero => exact hlast rfl rfl
      | succ depth => exact hclosing depth rfl rfl
    refine .cons (by simp) (ih.congr fun m => ?_)
    simp [hnot]

theorem stops_commentEnd? (cs : List Char) : Stops (['*', '/'] <:+ ·) cs (commentEnd? cs) := by
  fun_induction commentEnd? cs with
  | case1 cs =>
    have hstar : ¬ ['*', '/'] <:+ ['*'] := by decide
    have hslash : Stops (fun p => ['*', '/'] <:+ '*' :: p) ('/' :: cs) (some 1) :=
      .first hstar (List.suffix_refl _)
    exact .cons (by simp) hslash
  | case2 c cs hmark ih =>
    refine .cons (by simp) (ih.congr fun m => ?_)
    rw [List.suffix_cons_iff]
    refine ⟨.inr, fun h => h.resolve_left fun heq => ?_⟩
    obtain ⟨rfl, htake⟩ := List.cons.inj heq
    obtain ⟨tail, htail⟩ := htake ▸ List.take_prefix m cs
    exact hmark tail rfl htail.symm
  | case3 => exact .nil (by simp)

/-- `Ends quote escaped p`: the text `p` ends with a `quote` that is not escaped; `escaped` tells
whether the first letter is. -/
def Ends (quote : Char) (escaped : Bool) (p : List Char) : Prop :=
  ∃ before, p = before ++ [quote] ∧ before.foldl (fun escaped c => c == '\\' && !escaped)
    escaped = false

theorem not_ends_nil (quote : Char) (escaped : Bool) : ¬ Ends quote escaped [] := by
  rintro ⟨before, h, -⟩
  simp at h

theorem ends_cons {quote c : Char} {escaped : Bool} {p : List Char} :
    Ends quote escaped (c :: p) ↔
      c = quote ∧ p = [] ∧ escaped = false ∨ Ends quote (c == '\\' && !escaped) p := by
  constructor
  · rintro ⟨before, h, hbefore⟩
    cases before with
    | nil => exact .inl (by simp_all)
    | cons d before =>
      obtain ⟨rfl, rfl⟩ := List.cons.inj h
      exact .inr ⟨before, rfl, hbefore⟩
  · rintro (⟨rfl, rfl, rfl⟩ | ⟨before, rfl, hbefore⟩)
    · exact ⟨[], rfl, rfl⟩
    · exact ⟨c :: before, rfl, hbefore⟩

theorem stops_quoteEnd? {quote : Char} (hquote : quote ≠ '\\') (cs : List Char) :
    Stops (Ends quote false) cs (quoteEnd? quote cs) := by
  have hnil := not_ends_nil quote
  have hbackslash : ¬ Ends quote false ['\\'] := by
    simp [ends_cons, hnil, hquote.symm]
  fun_induction quoteEnd? quote cs with
  | case1 => exact .nil (hnil _)
  | case2 =>
    have hend : Stops (fun p => Ends quote false ('\\' :: p)) [] none := .nil hbackslash
    exact .cons (hnil _) hend
  | case3 d cs ih =>
    -- the backslash and the letter it escapes are passed together
    have hpair : Stops (Ends quote false) ('\\' :: d :: cs)
        (((quoteEnd? quote cs).map (· + 1)).map (· + 1)) := by
      refine .cons (hnil _) (.cons hbackslash (ih.congr fun m => ?_))
      simp [ends_cons, hquote.symm]
    simpa [Function.comp_def] using hpair
  | case4 cs => exact .first (hnil _) (ends_cons.2 (.inl ⟨rfl, rfl, rfl⟩))
  | case5 c cs hlast hescape hother ih =>
    have hplain : c ≠ '\\' := by
      rintro rfl
      cases cs with
      | nil => exact hlast rfl rfl
      | cons d cs => exact hescape d cs rfl rfl
    refine .cons (hnil _) (ih.congr fun m => ?_)
    simp [ends_cons, hother, beq_eq_false_iff_ne.2 hplain]

theorem closed_comment {p : List Char} :
    Enclosure.comment.Closed ('/' :: '*' :: p) ↔ ['*', '/'] <:+ p := by
  constructor
  · rintro ⟨hlength, hsuffix⟩
    rw [List.suffix_cons_iff, List.suffix_cons_iff] at hsuffix
    rcases hsuffix with heq | heq | hsuffix
    · simp at heq
    · -- the star of the opening mark does not count for the closing one
      obtain ⟨-, rfl⟩ := List.cons.inj heq
      simp at hlength
    · exact hsuffix
  · intro h
    have hlength := h.length_le
    simp only [List.length_cons, List.length_nil] at hlength
    refine ⟨by simp only [List.length_cons]; omega, ?_⟩
    exact h.trans (List.suffix_append ['/', '*'] p)

theorem closed_quoted {quote : Char} (hquote : quote ≠ '\\') {p : List Char} :
    (Enclosure.quoted quote).Closed (quote :: p) ↔ Ends quote false p := by
  have hnext : (quote == '\\' && !false) = false := by simp [hquote]
  constructor
  · rintro ⟨before, hsome, heq, hbefore⟩
    obtain ⟨d, before, rfl⟩ := List.exists_cons_of_ne_nil hsome
    obtain ⟨rfl, rfl⟩ := List.cons.inj heq
    refine ⟨before, rfl, ?_⟩
    rwa [escapesNext, List.foldl_cons, hnext] at hbefore
  · rintro ⟨before, rfl, hbefore⟩
    refine ⟨quote :: before, List.cons_ne_nil _ _, rfl, ?_⟩
    rwa [escapesNext, List.foldl_cons, hnext]

theorem closed_parenthesized {p : List Char} :
    Enclosure.parenthesized.Closed ('(' :: p) ↔ p.count '(' + 0 + 1 = p.count ')' := by
  simp [Enclosure.Closed]

theorem extent_of_ofLetters? {c : Char} {rest : List Char} {e : Enclosure}
    (h : Enclosure.ofLetters? (c :: rest) = some e) : ∃ stop,
      extent c rest = .closed e.kind rest stop e.missing ∧
      Stops (fun p => e.Closed (c :: p)) rest stop := by
  rcases Enclosure.starts_of_ofLetters? h
    with ⟨rfl, ⟨body, rfl⟩, rfl⟩ | ⟨rfl | rfl, rfl⟩ | ⟨rfl, rfl⟩
  · refine ⟨_, rfl, .cons (by simp [Enclosure.Closed]) ?_⟩
    exact (stops_commentEnd? body).congr fun m => closed_comment.symm
  · exact ⟨_, rfl, (stops_quoteEnd? (by decide) rest).congr fun m =>
      (closed_quoted (by decide)).symm⟩
  · exact ⟨_, rfl, (stops_quoteEnd? (by decide) rest).congr fun m =>
      (closed_quoted (by decide)).symm⟩
  · exact ⟨_, rfl, (stops_parenEnd? 0 rest).congr fun m => closed_parenthesized.symm⟩

inductive Rule : Char → (List Char → Extent) → Prop where
  | slash : Rule '/' (extent '/')
  | quoted (c : Char) (quote : c = '\'' ∨ c = '"') : Rule c (extent c)
  | parenthesized : Rule '(' (extent '(')
  | run (c : Char) (kind : TokenKind) (p : Char → Bool) : Rule c (.while kind p)
  | number (c : Char) : Rule c (number c)
  | point : Rule '.' (extent '.')
  | word (c : Char) : Rule c (word c)
  | operator (c : Char) : Rule c (operator c)
  | single (c : Char) (kind : TokenKind) : Rule c fun _ => ⟨kind, 0, none⟩

theorem rule_extent (c : Char) : Rule c (extent c) := by
  by_cases hslash : c = '/'
  · exact hslash ▸ .slash
  by_cases hquote : c = '\'' ∨ c = '"'
  · exact .quoted c hquote
  by_cases hparen : c = '('
  · exact hparen ▸ .parenthesized
  by_cases hpoint : c = '.'
  · exact hpoint ▸ .point
  unfold extent
  simp only [hslash, hparen, hpoint, if_false]
  split_ifs
  · exact .run c .blank _
  · exact .run c .comment _
  · simp_all
  · exact .number c
  · exact .word c
  · exact .single c .delimiter
  · exact .operator c
  · exact .single c .unknown

theorem extent_slash_cons {d : Char} (hstar : d ≠ '*') (rest : List Char) :
    extent '/' (d :: rest) =
      if isNameChar d then .while .variable isNameChar (d :: rest) else ⟨.operator, 0, none⟩ := by
  have hpairs : operatorPairs.contains ('/', d) = false := by simp [operatorPairs]
  have hblank : Text.isBlank '/' = false := by decide
  unfold extent
  rw [hblank, if_neg Bool.false_ne_true, if_pos rfl]
  split
  · simp_all
  · simp_all [operator]
  · simp_all

theorem extent_point_cons (d : Char) (rest : List Char) :
    extent '.' (d :: rest) =
      if d.isDigit then .while .number (fun d => d.isDigit || d == '.') (d :: rest)
      else ⟨.unknown, 0, none⟩ := rfl

theorem missing_operator (c : Char) (rest : List Char) : (operator c rest).missing = none := by
  unfold operator
  split <;> rfl

theorem missing_number (c : Char) (rest : List Char) : (number c rest).missing = none := by
  unfold number
  split <;> rfl

theorem missing_extent {c : Char} {rest : List Char} (h : Enclosure.ofLetters? (c :: rest) = none) :
    (extent c rest).missing = none := by
  have hrule := rule_extent c
  generalize extent c = rule at hrule ⊢
  cases hrule with
  | slash =>
    cases rest with
    | nil => rfl
    | cons d rest =>
      have hstar : d ≠ '*' := by
        rintro rfl
        simp [Enclosure.ofLetters?] at h
      rw [extent_slash_cons hstar]
      split <;> rfl
  | quoted c quote => rcases quote with rfl | rfl <;> simp [Enclosure.ofLetters?] at h
  | parenthesized => simp [Enclosure.ofLetters?] at h
  | run c kind p => rfl
  | number c => exact missing_number c rest
  | point =>
    cases rest with
    | nil => rfl
    | cons d rest =>
      rw [extent_point_cons]
      split <;> rfl
  | word c => rfl
  | operator c => exact missing_operator c rest
  | single c kind => rfl

end Scan

structure IsShortest (P : List Char → Prop) (text p : List Char) : Prop where
  start : p <+: text
  holds : P p
  shortest : ∀ q, q <+: text → P q → p.length ≤ q.length

theorem Stops.isShortest {P : List Char → Prop} {text : List Char} {n : Nat}
    (h : Stops P text (some n)) :
    IsShortest P text (text.take n) := by
  refine ⟨List.take_prefix n text, h.2.1, fun q hq hholds => ?_⟩
  rw [List.prefix_iff_eq_take.1 hq] at hholds
  have hnot : ¬ q.length < n := fun hlt => h.2.2 q.length hlt hholds
  have hlength := List.length_take_le n text
  omega

theorem Stops.none_iff {P : List Char → Prop} {text : List Char} :
    Stops P text none ↔ ∀ p, p <+: text → ¬ P p := by
  refine ⟨fun h p hp => ?_, fun h m => h _ (List.take_prefix m text)⟩
  rw [List.prefix_iff_eq_take.1 hp]
  exact h p.length

/-- How far an enclosure goes in a text that starts with it: to its first closing mark, or else to
the end. -/
inductive Enclosure.Spans (e : Enclosure) (text : List Char) : List Char → Prop where
  | closed {p : List Char} (shortest : IsShortest e.Closed text p) : e.Spans text p
  | unclosed (never : ∀ p, p <+: text → ¬ e.Closed p) : e.Spans text text

theorem Enclosure.ofLetters?_first {c : Char} {rest : List Char} {e : Enclosure}
    (h : ofLetters? (Lexeme.first c rest).text.toList = some e) :
    ofLetters? (c :: rest) = some e := by
  rw [Lexeme.first, String.toList_ofList] at h
  rcases starts_of_ofLetters? h with ⟨rfl, ⟨body, htake⟩, rfl⟩ | ⟨rfl | rfl, rfl⟩ | ⟨rfl, rfl⟩
  · obtain ⟨tail, rfl⟩ := htake ▸ List.take_prefix _ rest
    rfl
  · rfl
  · rfl
  · rfl

namespace Scan

theorem stops_enclosure {c : Char} {rest : List Char} {e : Enclosure}
    (h : Enclosure.ofLetters? (c :: rest) = some e) : ∃ stop,
      extent c rest = .closed e.kind rest stop e.missing ∧
      Stops e.Closed (c :: rest) (stop.map (· + 1)) := by
  obtain ⟨stop, hextent, hstops⟩ := extent_of_ofLetters? h
  exact ⟨stop, hextent, .cons e.not_closed_nil hstops⟩

theorem spans_first {c : Char} {rest : List Char} {e : Enclosure}
    (h : Enclosure.ofLetters? (c :: rest) = some e) :
    e.Spans (c :: rest) (Lexeme.first c rest).text.toList := by
  obtain ⟨stop, hextent, hstops⟩ := stops_enclosure h
  rw [Lexeme.first, hextent, String.toList_ofList]
  cases stop with
  | none =>
    simp only [Extent.closed, List.take_length]
    exact .unclosed (Stops.none_iff.1 hstops)
  | some n => exact .closed hstops.isShortest

/-- A mark is missing where no start of the text is closed. Then the text is read to its end. -/
theorem missing_eq_some {c : Char} {rest : List Char} {m : Unterminated} :
    (extent c rest).missing = some m ↔ ∃ e, Enclosure.ofLetters? (c :: rest) = some e ∧
      e.missing = m ∧
      ∀ p, p <+: c :: rest → ¬ e.Closed p := by
  cases henclosure : Enclosure.ofLetters? (c :: rest) with
  | none => simp [missing_extent henclosure]
  | some e =>
    obtain ⟨stop, hextent, hstops⟩ := stops_enclosure henclosure
    rw [hextent]
    cases stop with
    | none =>
      simp [Extent.closed, ← Stops.none_iff, show Stops e.Closed (c :: rest) none from hstops]
    | some n =>
      have hclosed := hstops.isShortest
      simp only [Extent.closed, Option.some.injEq, reduceCtorEq, false_iff]
      rintro ⟨e', rfl, -, hnever⟩
      exact hnever _ hclosed.start hclosed.holds

theorem more_of_missing {c : Char} {rest : List Char} {m : Unterminated}
    (h : (extent c rest).missing = some m) : (extent c rest).more = rest.length := by
  obtain ⟨e, henclosure, -, -⟩ := missing_eq_some.1 h
  obtain ⟨stop, hextent, -⟩ := stops_enclosure henclosure
  rw [hextent] at h ⊢
  cases stop with
  | none => rfl
  | some n => simp [Extent.closed] at h

end Scan

def Token.ahead (source : String) (before : List Token) : List Char :=
  source.toList.drop (Token.letters before).length

/-- The token `t` behind `before` starts an enclosure which the source never closes. -/
structure Token.Unclosed (source : String) (before : List Token) (t : Token) (e : Enclosure) :
    Prop where
  starts : Enclosure.ofLetters? t.text.toList = some e
  never : ∀ p, p <+: Token.ahead source before → ¬ e.Closed p

/-- `Warned ts ws`: of the tokens `ts`, which end their text, only the last one can miss a mark, and
`ws` tells where it stands. -/
inductive Warned : List Token → List ScanWarning → Prop where
  | nil : Warned [] []
  | closed {t : Token} {after : List Token} {ws : List ScanWarning} {c : Char} {rest : List Char}
      (letters : Token.letters (t :: after) = c :: rest)
        (found : (Scan.extent c rest).missing = none)
      (next : Warned after ws) : Warned (t :: after) ws
  | unclosed {t : Token} {c : Char} {rest : List Char} {m : Unterminated}
      (letters : Token.letters [t] = c :: rest) (missing : (Scan.extent c rest).missing = some m) :
      Warned [t] [⟨t.pos, m⟩]

theorem Scanned.letters_read (skip : Nat) (p : Position) (offset : Nat) (cs : List Char) :
    Token.letters (Scanned.read skip p offset cs).tokens = cs.drop skip := by
  rw [Lexeme.tokens_read, ← Lexeme.letters_map_lexeme, Lexeme.map_lexeme_lay, Lexeme.letters_read]

theorem Scanned.read_length (p : Position) (offset : Nat) (cs : List Char) :
    Scanned.read cs.length p offset cs = ⟨[], []⟩ := by
  induction cs generalizing p offset with
  | nil => rfl
  | cons c cs ih => exact ih _ _

theorem Scanned.warned_read (skip : Nat) (p : Position) (offset : Nat) (cs : List Char) :
    Warned (Scanned.read skip p offset cs).tokens (Scanned.read skip p offset cs).warnings := by
  induction cs generalizing skip p offset with
  | nil => exact .nil
  | cons c rest ih =>
    cases skip with
    | succ n => exact ih n _ _
    | zero =>
      have hletters := Scanned.letters_read 0 p offset (c :: rest)
      rw [Scanned.read] at hletters ⊢
      cases hmissing : (Scan.extent c rest).missing with
      | none =>
        have hnext := ih (Scan.extent c rest).more (p.next c) (offset + c.utf8Size)
        simp only [Scanned.add, hmissing] at hletters ⊢
        exact .closed hletters hmissing hnext
      | some m =>
        rw [Scan.more_of_missing hmissing, Scanned.read_length] at hletters ⊢
        simp only [Scanned.add, hmissing] at hletters ⊢
        exact .unclosed hletters hmissing

namespace Warned

theorem length_le {ts : List Token} {ws : List ScanWarning} (h : Warned ts ws) : ws.length ≤ 1 := by
  induction h with
  | nil => exact Nat.zero_le 1
  | closed _ _ _ ih => exact ih
  | unclosed _ _ => exact Nat.le_refl 1

theorem exists_unclosed {ts : List Token} {ws : List ScanWarning} (h : Warned ts ws)
    (hws : ws ≠ []) :
    ∃ before t c rest m, ts = before ++ [t] ∧ Token.letters [t] = c :: rest ∧
      (Scan.extent c rest).missing = some m := by
  induction h with
  | nil => exact absurd rfl hws
  | @closed t after ws _ _ _ _ _ ih =>
    obtain ⟨before, u, c, rest, m, rfl, hletters, hmissing⟩ := ih hws
    exact ⟨t :: before, u, c, rest, m, rfl, hletters, hmissing⟩
  | unclosed letters missing => exact ⟨[], _, _, _, _, rfl, letters, missing⟩

theorem of_missing {before after : List Token} {t : Token} {ws : List ScanWarning} {c : Char}
    {rest : List Char} {m : Unterminated} (h : Warned (before ++ t :: after) ws)
    (hletters : Token.letters (t :: after) = c :: rest)
    (hmissing : (Scan.extent c rest).missing = some m) :
    after = [] ∧ ws = [⟨t.pos, m⟩] := by
  induction before with
  | nil =>
    cases h with
    | closed letters found next =>
      obtain ⟨rfl, rfl⟩ := List.cons.inj (letters.symm.trans hletters)
      rw [found] at hmissing
      cases hmissing
    | unclosed letters missing =>
      obtain ⟨rfl, rfl⟩ := List.cons.inj (letters.symm.trans hletters)
      rw [missing] at hmissing
      cases hmissing
      exact ⟨rfl, rfl⟩
  | cons u before ih =>
    generalize htokens : u :: before ++ t :: after = ts at h
    cases h with
    | nil => cases htokens
    | closed letters found next =>
      obtain ⟨rfl, rfl⟩ := List.cons.inj htokens
      exact ih next
    | unclosed letters missing => simp at htokens

end Warned

theorem Scanned.first_of_split {source : String} {before after : List Token} {t : Token}
    (h : (Scanned.ofText source).tokens = before ++ t :: after) : ∃ c rest,
      Token.ahead source before = c :: rest ∧ Token.letters (t :: after) = c :: rest ∧
        t.text = (Lexeme.first c rest).text := by
  have hlexemes :
      Lexeme.ofText source = before.map Token.lexeme ++ t.lexeme :: after.map Token.lexeme := by
    rw [← Lexeme.map_lexeme_lay {} 0 (Lexeme.ofText source), ← Lexeme.tokens_ofText, h,
      List.map_append, List.map_cons]
  obtain ⟨c, rest, hletters, hfirst⟩ := Lexeme.first_of_read hlexemes
  rw [← List.map_cons, Lexeme.letters_map_lexeme] at hletters
  have hsource : source.toList = Token.letters before ++ Token.letters (t :: after) := by
    have hall := Scanned.letters_read 0 {} 0 source.toList
    rw [List.drop_zero] at hall
    have htokens : (Scanned.read 0 {} 0 source.toList).tokens = before ++ t :: after := h
    rw [← hall, htokens, Token.letters, List.flatMap_append]
    rfl
  refine ⟨c, rest, ?_, hletters, congrArg Lexeme.text hfirst⟩
  rw [Token.ahead, hsource, List.drop_left, hletters]

/-- Literals and comments go as far as their marks say. At most one of them misses its closing mark:
it is the last token, and the only warning names its place. -/
theorem Scanned.ofText_enclosures (source : String) :
    let scanned : Scanned := Scanned.ofText source
    (∀ (before after : List Token) (t : Token) (e : Enclosure),
      scanned.tokens = before ++ t :: after → Enclosure.ofLetters? t.text.toList = some e →
      e.Spans (Token.ahead source before) t.text.toList) ∧
    scanned.warnings.length ≤ 1 ∧
    (scanned.warnings ≠ [] ↔ ∃ (before after : List Token) (t : Token) (e : Enclosure),
      scanned.tokens = before ++ t :: after ∧ t.Unclosed source before e) ∧
    ∀ (before after : List Token) (t : Token) (e : Enclosure),
      scanned.tokens = before ++ t :: after → t.Unclosed source before e →
      after = [] ∧ scanned.warnings = [⟨t.pos, e.missing⟩] := by
  intro scanned
  have hwarned : Warned scanned.tokens scanned.warnings := Scanned.warned_read 0 {} 0 source.toList
  have hlast : ∀ (before after : List Token) (t : Token) (e : Enclosure),
      scanned.tokens = before ++ t :: after → t.Unclosed source before e →
        after = [] ∧ scanned.warnings = [⟨t.pos, e.missing⟩] := by
    intro before after t e hsplit hunclosed
    obtain ⟨c, rest, hahead, hletters, htext⟩ := Scanned.first_of_split hsplit
    obtain ⟨hstarts, hnever⟩ := hunclosed
    rw [htext] at hstarts
    rw [hahead] at hnever
    have hmissing := Scan.missing_eq_some.2 ⟨e, Enclosure.ofLetters?_first hstarts, rfl, hnever⟩
    rw [hsplit] at hwarned
    exact hwarned.of_missing hletters hmissing
  refine ⟨fun before after t e hsplit hstarts => ?_, hwarned.length_le, ⟨fun hws => ?_, ?_⟩, hlast⟩
  · obtain ⟨c, rest, hahead, -, htext⟩ := Scanned.first_of_split hsplit
    rw [htext] at hstarts ⊢
    rw [hahead]
    exact Scan.spans_first (Enclosure.ofLetters?_first hstarts)
  · obtain ⟨before, t, c, rest, m, hsplit, hletters, hmissing⟩ := hwarned.exists_unclosed hws
    obtain ⟨_, _, hahead, hsame, -⟩ := Scanned.first_of_split hsplit
    obtain ⟨e, hstarts, -, hnever⟩ := Scan.missing_eq_some.1 hmissing
    have htext : t.text.toList = c :: rest := by simpa [Token.letters] using hletters
    rw [← htext] at hstarts
    exact ⟨before, [], t, e, hsplit, hstarts, by rwa [hahead, ← hsame, hletters]⟩
  · rintro ⟨before, after, t, e, hsplit, hunclosed⟩
    rw [(hlast before after t e hsplit hunclosed).2]
    exact List.cons_ne_nil _ _

/-- An escaped quote, and a comment whose own star does not close it. -/
theorem Scanned.ofText_enclosures_escaped :
    let source := "'a\\'b'/*/ ("
    let quoted : Token := ⟨.literal, "'a\\'b'", ⟨1, 1⟩, 0⟩
    let comment : Token := ⟨.comment, "/*/ (", ⟨1, 7⟩, 6⟩
    (Scanned.ofText source).tokens = [quoted, comment] ∧
      (Enclosure.quoted '\'').Spans source.toList quoted.text.toList ∧
      comment.Unclosed source [quoted] .comment ∧
      (Scanned.ofText source).warnings = [⟨⟨1, 7⟩, .blockComment⟩] := by
  intro source quoted comment
  have htokens : (Scanned.ofText source).tokens = [quoted, comment] := by decide +kernel
  obtain ⟨hspans, -, -, hlast⟩ := Scanned.ofText_enclosures source
  have hquoted := hspans [] [comment] quoted (.quoted '\'') htokens (by decide +kernel)
  have hunclosed : comment.Unclosed source [quoted] .comment := by
    have hahead : Token.ahead source [quoted] = ['/', '*', '/', ' ', '('] := by decide +kernel
    obtain ⟨e, hstarts, -, hnever⟩ := Scan.missing_eq_some.1
      (show (Scan.extent '/' ['*', '/', ' ', '(']).missing = some .blockComment by decide)
    obtain rfl : .comment = e := Option.some.inj hstarts
    exact ⟨by decide +kernel, hahead ▸ hnever⟩
  exact ⟨htokens, hquoted, hunclosed, (hlast [quoted] [] comment .comment htokens hunclosed).2⟩

end VippDocdef
