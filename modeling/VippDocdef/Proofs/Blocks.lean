import Mathlib.Data.List.Forall2
import Mathlib.Order.Bounds.Defs
import VippDocdef.Token.Bracket

/-! Bracketed stretches of a token list. A bracket ends at the first place where as many of its kind
have been closed as opened, and nothing but the delimiters of that kind has a part in where that
is. -/

set_option autoImplicit false

namespace VippDocdef

inductive Bracket where
  | brace
  | square
  deriving DecidableEq, Repr

namespace Bracket

variable (b : Bracket)

def opening : Bracket → String
  | brace => "\x7b"
  | square => "["

def closing : Bracket → String
  | brace => "\x7d"
  | square => "]"

def opens (ts : List Token) : Nat := ts.countP (·.isDelimiter b.opening)

def closes (ts : List Token) : Nat := ts.countP (·.isDelimiter b.closing)

/-- No start of the tokens closes more than `depth` brackets beyond those it opens. -/
def Within (depth : Nat) (ts : List Token) : Prop :=
  ∀ start, start <+: ts → b.closes start ≤ b.opens start + depth

structure Balanced (ts : List Token) : Prop where
  even : b.opens ts = b.closes ts
  within : b.Within 0 ts

/-- Behind a token, how many brackets are open; one that closes nothing counts for nothing. -/
def step (depth : Nat) (t : Token) : Nat :=
  if t.isDelimiter b.opening then depth + 1 else if t.isDelimiter b.closing then depth - 1
    else depth

def level (depth : Nat) (ts : List Token) : Nat := ts.foldl b.step depth

variable {b} {t : Token} {depth : Nat} {ts : List Token}

theorem closingOf_opening : closingOf b.opening = b.closing := by
  cases b <;> simp [closingOf, opening, closing]

theorem not_closing (h : t.isDelimiter b.opening = true) : t.isDelimiter b.closing = false := by
  have hne : b.opening ≠ b.closing := by cases b <;> decide
  simp only [Token.isDelimiter, Bool.and_eq_true, decide_eq_true_eq] at h
  simp [Token.isDelimiter, h.2, hne]

theorem not_opening (h : t.isDelimiter b.closing = true) : t.isDelimiter b.opening = false := by
  cases ho : t.isDelimiter b.opening with
  | true => rw [not_closing ho] at h; cases h
  | false => rfl

theorem opens_cons : b.opens (t :: ts) = b.opens ts + if t.isDelimiter b.opening then 1 else 0 :=
  List.countP_cons

theorem closes_cons : b.closes (t :: ts) = b.closes ts + if t.isDelimiter b.closing then 1 else 0 :=
  List.countP_cons

theorem step_add (h : ¬ (t.isDelimiter b.closing = true ∧ depth = 0)) :
    b.step depth t + (if t.isDelimiter b.closing then 1 else 0)
      = depth + if t.isDelimiter b.opening then 1 else 0 := by
  unfold step
  by_cases ho : t.isDelimiter b.opening = true
  · simp [ho, not_closing ho]
  · by_cases hc : t.isDelimiter b.closing = true
    · simp only [ho, hc, true_and, if_true, Bool.false_eq_true, if_false] at h ⊢
      omega
    · simp [ho, hc]

theorem within_nil : b.Within depth [] := by
  intro start hstart
  rw [List.prefix_nil.1 hstart]
  exact Nat.zero_le _

theorem within_cons : b.Within depth (t :: ts) ↔
    ¬ (t.isDelimiter b.closing = true ∧ depth = 0) ∧ b.Within (b.step depth t) ts := by
  have hstarts : b.Within depth (t :: ts) ↔
      ∀ start, start <+: ts → b.closes (t :: start) ≤ b.opens (t :: start) + depth := by
    refine ⟨fun h start hstart => h _ (List.cons_prefix_cons.2 ⟨rfl, hstart⟩),
      fun h start hstart => ?_⟩
    rcases List.prefix_cons_iff.1 hstart with rfl | ⟨start, rfl, hprefix⟩
    · exact Nat.zero_le _
    · exact h start hprefix
  rw [hstarts]
  constructor
  · intro h
    have hfirst : ¬ (t.isDelimiter b.closing = true ∧ depth = 0) := by
      rintro ⟨hc, rfl⟩
      have hone := h [] List.nil_prefix
      simp [opens, closes, hc, not_opening hc] at hone
    refine ⟨hfirst, fun start hstart => ?_⟩
    have hle := h start hstart
    have hstep := step_add hfirst
    rw [opens_cons, closes_cons] at hle
    omega
  · rintro ⟨hfirst, h⟩ start hstart
    have hle := h start hstart
    have hstep := step_add hfirst
    rw [opens_cons, closes_cons]
    omega

theorem level_add (h : b.Within depth ts) :
    b.level depth ts + b.closes ts = depth + b.opens ts := by
  induction ts generalizing depth with
  | nil => rfl
  | cons t ts ih =>
    obtain ⟨hfirst, hrest⟩ := within_cons.1 h
    have hlevel := ih hrest
    have hstep := step_add hfirst
    rw [opens_cons, closes_cons, level, List.foldl_cons, ← level]
    omega

theorem closingIndex?_cons : closingIndex? b.opening depth (t :: ts) =
    if t.isDelimiter b.closing = true ∧ depth = 0 then some 0
    else (closingIndex? b.opening (b.step depth t) ts).map (· + 1) := by
  rw [closingIndex?.eq_def]
  by_cases ho : t.isDelimiter b.opening = true
  · simp [step, ho, not_closing ho]
  · by_cases hc : t.isDelimiter b.closing = true
    · cases depth <;> simp [step, ho, hc, closingOf_opening]
    · simp [step, ho, hc, closingOf_opening]

/-- The search passes a stretch that closes no more than is open, and goes on at the level behind
it. -/
theorem closingIndex?_append (h : b.Within depth ts) (more : List Token) :
    closingIndex? b.opening depth (ts ++ more) =
      (closingIndex? b.opening (b.level depth ts) more).map (· + ts.length) := by
  induction ts generalizing depth with
  | nil => simp [level]
  | cons t ts ih =>
    obtain ⟨hfirst, hrest⟩ := within_cons.1 h
    rw [List.cons_append, closingIndex?_cons, if_neg hfirst, ih hrest, Option.map_map]
    rfl

theorem within_of_closingIndex?_eq_none (h : closingIndex? b.opening depth ts = none) :
    b.Within depth ts := by
  induction ts generalizing depth with
  | nil => exact within_nil
  | cons t ts ih =>
    rw [closingIndex?_cons] at h
    split at h
    · cases h
    · next hfirst => exact within_cons.2 ⟨hfirst, ih (Option.map_eq_none_iff.1 h)⟩

theorem within_iff : b.Within depth ts ↔ closingIndex? b.opening depth ts = none := by
  refine ⟨fun h => ?_, within_of_closingIndex?_eq_none⟩
  rw [← List.append_nil ts, closingIndex?_append h, closingIndex?, Option.map_none]

instance : Decidable (b.Within depth ts) := decidable_of_iff _ within_iff.symm

instance : Decidable (b.Balanced ts) :=
  decidable_of_iff (b.opens ts = b.closes ts ∧ b.Within 0 ts)
    ⟨fun h => ⟨h.1, h.2⟩, fun h => ⟨h.even, h.within⟩⟩

theorem exists_of_closingIndex?_eq_some {n : Nat} (h : closingIndex? b.opening depth ts = some n) :
    ∃ inner c after, ts = inner ++ c :: after ∧ inner.length = n ∧ c.isDelimiter b.closing = true ∧
      b.Within depth inner ∧ b.level depth inner = 0 := by
  induction ts generalizing depth n with
  | nil => simp [closingIndex?] at h
  | cons t ts ih =>
    rw [closingIndex?_cons] at h
    split at h
    · next hlast =>
      refine ⟨[], t, ts, rfl, ?_, hlast.1, within_nil, hlast.2⟩
      simpa using h
    · next hfirst =>
      obtain ⟨m, hm, rfl⟩ := Option.map_eq_some_iff.1 h
      obtain ⟨inner, c, after, rfl, rfl, hc, hwithin, hlevel⟩ := ih hm
      exact ⟨t :: inner, c, after, rfl, rfl, hc, within_cons.2 ⟨hfirst, hwithin⟩, hlevel⟩

theorem Within.mono (h : b.Within 0 ts) (depth : Nat) : b.Within depth ts := fun start hstart =>
  Nat.le_trans (h start hstart) (Nat.add_le_add_left (Nat.zero_le depth) _)

theorem Balanced.level_eq (h : b.Balanced ts) (depth : Nat) : b.level depth ts = depth := by
  have hadd := level_add (h.within.mono depth)
  have heven := h.even
  omega

theorem balanced_of_level (h : b.Within 0 ts) (hlevel : b.level 0 ts = 0) : b.Balanced ts := by
  refine ⟨?_, h⟩
  have := level_add h
  omega

theorem splitBracket_balanced {c : Token} (h : b.Balanced ts) (hc : c.isDelimiter b.closing = true)
    (after : List Token) : splitBracket b.opening (ts ++ c :: after) = (ts, after) := by
  have hindex : closingIndex? b.opening 0 (ts ++ c :: after) = some ts.length := by
    rw [closingIndex?_append h.within, h.level_eq, closingIndex?_cons, if_pos ⟨hc, rfl⟩]
    simp
  simp [splitBracket, hindex]

theorem step_opening (h : t.isDelimiter b.opening = true) : b.step depth t = depth + 1 := if_pos h

theorem step_closing (h : t.isDelimiter b.closing = true) : b.step depth t = depth - 1 := by
  simp [step, not_opening h, h]

theorem level_cons : b.level depth (t :: ts) = b.level (b.step depth t) ts := rfl

theorem level_append (us : List Token) : b.level depth (ts ++ us) = b.level (b.level depth ts) us :=
  List.foldl_append

theorem level_of_no_opening (h : ∀ t ∈ ts, t.isDelimiter b.opening = false) : b.level 0 ts = 0 := by
  induction ts with
  | nil => rfl
  | cons t ts ih =>
    obtain ⟨ht, hts⟩ := List.forall_mem_cons.1 h
    have hstep : b.step 0 t = 0 := by simp [step, ht]
    rw [level_cons, hstep, ih hts]

theorem level_block {o c : Token} {body : List Token} (ho : o.isDelimiter b.opening = true)
    (hbody : b.Balanced body) (hc : c.isDelimiter b.closing = true) (after : List Token) :
    b.level depth (o :: (body ++ c :: after)) = b.level depth after := by
  rw [level_cons, step_opening ho, level_append, hbody.level_eq, level_cons, step_closing hc,
    Nat.add_sub_cancel]

theorem within_append (us : List Token) :
    b.Within depth (ts ++ us) ↔ b.Within depth ts ∧ b.Within (b.level depth ts) us := by
  induction ts generalizing depth with
  | nil => exact ⟨fun h => ⟨within_nil, h⟩, fun h => h.2⟩
  | cons t ts ih => rw [List.cons_append, within_cons, within_cons, ih, level_cons, and_assoc]

theorem balanced_nil : b.Balanced [] := ⟨rfl, within_nil⟩

theorem Balanced.cons (h : b.Balanced ts) (ho : t.isDelimiter b.opening = false)
    (hc : t.isDelimiter b.closing = false) : b.Balanced (t :: ts) := by
  have hstep : b.step 0 t = 0 := by simp [step, ho]
  refine balanced_of_level (within_cons.2 ⟨by simp [hc], ?_⟩) ?_
  · rw [hstep]
    exact h.within
  · rw [level_cons, hstep, h.level_eq]

theorem Balanced.block_append {o c : Token} {body : List Token} (h : b.Balanced ts)
    (ho : o.isDelimiter b.opening = true) (hbody : b.Balanced body)
    (hc : c.isDelimiter b.closing = true) :
    b.Balanced (o :: (body ++ c :: ts)) := by
  refine balanced_of_level ?_ ((level_block ho hbody hc ts).trans (h.level_eq 0))
  rw [within_cons, step_opening ho, within_append, hbody.level_eq, within_cons, step_closing hc]
  exact ⟨by simp [not_closing ho], hbody.within.mono 1, by simp, h.within⟩

theorem Within.le_level (h : b.Within 0 ts) : depth ≤ b.level depth ts := by
  have hadd := level_add (h.mono depth)
  have hle := h ts (List.prefix_refl ts)
  omega

theorem exists_block (h : b.level 1 ts = 0) :
    ∃ body c after, ts = body ++ c :: after ∧ b.Balanced body ∧
    c.isDelimiter b.closing = true ∧ b.level 0 after = 0 := by
  cases hindex : closingIndex? b.opening 0 ts with
  | none =>
    have hle : 1 ≤ b.level 1 ts := (within_of_closingIndex?_eq_none hindex).le_level
    omega
  | some n =>
    obtain ⟨body, c, after, rfl, -, hc, hwithin, hlevel⟩ := exists_of_closingIndex?_eq_some hindex
    have hbalanced := balanced_of_level hwithin hlevel
    refine ⟨body, c, after, rfl, hbalanced, hc, ?_⟩
    rwa [level_append, hbalanced.level_eq, level_cons, step_closing hc] at h

variable (b) in
/-- A token without a part in the nesting: a word, a literal, a comment, or a delimiter of another
kind. -/
def Inert (t : Token) : Prop := t.kind ≠ .delimiter ∨ t.text ≠ b.opening ∧ t.text ≠ b.closing

theorem Inert.isDelimiter_eq (h : b.Inert t) :
    t.isDelimiter b.opening = false ∧ t.isDelimiter b.closing = false := by
  rcases h with h | h
  · simp [Token.isDelimiter, h]
  · simp [Token.isDelimiter, h.1, h.2]

theorem closingIndex?_congr {us : List Token}
    (h : List.Forall₂ (fun t u => t = u ∨ b.Inert t ∧ b.Inert u) ts us) :
    closingIndex? b.opening depth ts = closingIndex? b.opening depth us := by
  induction h generalizing depth with
  | nil => rfl
  | @cons t u ts us htu _ ih =>
    rcases htu with rfl | ⟨ht, hu⟩
    · rw [closingIndex?_cons, closingIndex?_cons, ih]
    · simp [closingIndex?_cons, step, ht.isDelimiter_eq, hu.isDelimiter_eq, ih]

variable (b) in
/-- From `start` to `stop`, both included, as many brackets are closed as opened. -/
def EvenAt (ts : List Token) (start stop : Nat) : Prop :=
  start < stop ∧ stop < ts.length ∧
    b.opens (ts.extract start (stop + 1)) = b.closes (ts.extract start (stop + 1))

section Ends

variable {start : Nat} (ht : ts[start]? = some t) (hopening : t.isDelimiter b.opening = true)

include ht in
theorem drop_eq_cons : ts.drop start = t :: ts.drop (start + 1) := by
  obtain ⟨hlt, rfl⟩ := List.getElem?_eq_some_iff.1 ht
  exact List.drop_eq_getElem_cons hlt

include ht hopening

theorem bracketEnd_of_some {n : Nat}
    (h : closingIndex? b.opening 0 (ts.drop (start + 1)) = some n) :
    bracketEnd ts start = start + 1 + n := by
  have htext : t.text = b.opening := by simpa using (Bool.and_eq_true_iff.1 hopening).2
  rw [← htext] at h
  simp only [bracketEnd, drop_eq_cons ht, h]

theorem bracketEnd_of_none (h : closingIndex? b.opening 0 (ts.drop (start + 1)) = none) :
    bracketEnd ts start = ts.length := by
  have htext : t.text = b.opening := by simpa using (Bool.and_eq_true_iff.1 hopening).2
  rw [← htext] at h
  simp only [bracketEnd, drop_eq_cons ht, h]

theorem bracketEnd_congr {us : List Token}
    (h : List.Forall₂ (fun t u => t = u ∨ b.Inert t ∧ b.Inert u) ts us) :
    bracketEnd us start = bracketEnd ts start := by
  have hdrop := List.forall₂_drop (start + 1) h
  have hu : us[start]? = some t := by
    have hboth := List.forall₂_drop start h
    rw [drop_eq_cons ht, List.forall₂_cons_left_iff] at hboth
    obtain ⟨u, us', hor, -, hus⟩ := hboth
    rcases hor with rfl | ⟨hinert, -⟩
    · rw [← Nat.add_zero start, ← List.getElem?_drop, hus, List.getElem?_cons_zero]
    · simp [hinert.isDelimiter_eq] at hopening
  cases hindex : closingIndex? b.opening 0 (ts.drop (start + 1)) with
  | some n =>
    rw [bracketEnd_of_some ht hopening hindex, bracketEnd_of_some hu hopening]
    rw [← hindex, closingIndex?_congr hdrop]
  | none =>
    rw [bracketEnd_of_none ht hopening hindex, bracketEnd_of_none hu hopening, h.length_eq]
    rw [← hindex, closingIndex?_congr hdrop]

theorem evenAt_iff {stop : Nat} : b.EvenAt ts start stop ↔ start < stop ∧ stop < ts.length ∧
    b.opens ((ts.drop (start + 1)).take (stop - start)) + 1
      = b.closes ((ts.drop (start + 1)).take (stop - start)) := by
  refine and_congr_right fun hlt => and_congr_right fun _ => ?_
  have hextract : ts.extract start (stop + 1) = t :: (ts.drop (start + 1)).take (stop - start) := by
    rw [List.extract, drop_eq_cons ht, Nat.sub_add_comm (Nat.le_of_lt hlt), List.take_succ_cons]
  rw [hextract, opens_cons, closes_cons, if_pos hopening, not_closing hopening]
  simp

theorem lt_of_evenAt {inner after : List Token} (hdrop : ts.drop (start + 1) = inner ++ after)
    (hwithin : b.Within 0 inner) {stop : Nat} (h : b.EvenAt ts start stop) :
    start + inner.length < stop := by
  obtain ⟨hlt, -, heven⟩ := (evenAt_iff ht hopening).1 h
  rw [hdrop] at heven
  by_contra hle
  rw [List.take_append_of_le_length (by omega)] at heven
  have := hwithin _ (List.take_prefix (stop - start) inner)
  omega

theorem evenAt_closing {inner after : List Token} {c : Token} (hbalanced : b.Balanced inner)
    (hc : c.isDelimiter b.closing = true) (hdrop : ts.drop (start + 1) = inner ++ c :: after) :
    b.EvenAt ts start (start + 1 + inner.length) := by
  have hlength := congrArg List.length hdrop
  have hfront : (inner ++ c :: after).take (start + 1 + inner.length - start) = inner ++ [c] := by
    rw [Nat.add_assoc, Nat.add_sub_cancel_left, Nat.add_comm 1, List.take_length_add_append]
    rfl
  have hcount : b.opens (inner ++ [c]) + 1 = b.closes (inner ++ [c]) := by
    simpa [opens, closes, not_opening hc, hc] using hbalanced.even
  simp only [List.length_drop, List.length_append, List.length_cons] at hlength
  refine (evenAt_iff ht hopening).2 ⟨by omega, by omega, ?_⟩
  rw [hdrop, hfront, hcount]

end Ends

end Bracket

open VippDocdef.Bracket in
/-- The end of a bracket is the first place where as many of its kind are closed as opened, or the
end of the list if there is none. What stands inside is balanced, or at least closes nothing from
outside, and tokens that are no delimiters of that kind can be exchanged for others. -/
theorem bracketEnd_isLeast (b : Bracket) {ts : List Token} {start : Nat} {t : Token}
    (ht : ts[start]? = some t) (hopening : t.isDelimiter b.opening = true) :
    let stop : Nat := bracketEnd ts start
    let inside : List Token := ts.extract (start + 1) stop
    ((∃ i, b.EvenAt ts start i) → IsLeast {i | b.EvenAt ts start i} stop ∧
      b.opens inside = b.closes inside) ∧
    ((¬ ∃ i, b.EvenAt ts start i) → stop = ts.length) ∧
    (∀ front, front <+: inside → b.closes front ≤ b.opens front) ∧
    splitBracket b.opening (ts.drop (start + 1)) = (inside, ts.drop (stop + 1)) ∧
    ∀ us, List.Forall₂ (fun t u => t = u ∨ b.Inert t ∧ b.Inert u) ts us →
      bracketEnd us start = stop := by
  intro stop inside
  have hcongr (us : List Token)
      (h : List.Forall₂ (fun t u => t = u ∨ b.Inert t ∧ b.Inert u) ts us) :
      bracketEnd us start = stop := bracketEnd_congr ht hopening h
  cases hindex : closingIndex? b.opening 0 (ts.drop (start + 1)) with
  | some n =>
    obtain ⟨inner, c, after, hdrop, rfl, hc, hwithin, hlevel⟩ :=
      exists_of_closingIndex?_eq_some hindex
    have hbalanced := balanced_of_level hwithin hlevel
    have hstop : stop = start + 1 + inner.length := bracketEnd_of_some ht hopening hindex
    have hinside : inside = inner := by
      show (ts.drop (start + 1)).take (stop - (start + 1)) = inner
      rw [hdrop, hstop, Nat.add_sub_cancel_left, List.take_left]
    have heven : b.EvenAt ts start stop := hstop ▸ evenAt_closing ht hopening hbalanced hc hdrop
    refine ⟨fun _ => ⟨⟨heven, fun i hi => ?_⟩, ?_⟩, fun h => absurd ⟨stop, heven⟩ h, ?_, ?_, hcongr⟩
    · have := lt_of_evenAt ht hopening hdrop hwithin hi
      omega
    · rw [hinside, hbalanced.even]
    · rw [hinside]
      exact hwithin
    · have hafter : ts.drop (stop + 1) = after := by
        rw [hstop, Nat.add_assoc, ← List.drop_drop, hdrop, List.drop_length_add_append]
        rfl
      rw [hinside, hafter, hdrop, splitBracket_balanced hbalanced hc]
  | none =>
    have hwithin := within_of_closingIndex?_eq_none hindex
    have hstop : stop = ts.length := bracketEnd_of_none ht hopening hindex
    have hinside : inside = ts.drop (start + 1) := by
      show (ts.drop (start + 1)).take (stop - (start + 1)) = ts.drop (start + 1)
      rw [hstop, ← List.length_drop, List.take_length]
    have hnever : ¬ ∃ i, b.EvenAt ts start i := by
      rintro ⟨i, hi⟩
      have := lt_of_evenAt ht hopening (List.append_nil _).symm hwithin hi
      have := hi.2.1
      rw [List.length_drop] at *
      omega
    refine ⟨fun h => absurd h hnever, fun _ => hstop, ?_, ?_, hcongr⟩
    · rw [hinside]
      exact hwithin
    · rw [hinside, hstop, List.drop_eq_nil_of_le (Nat.le_succ _)]
      simp [splitBracket, hindex]

/-- A brace with a square bracket that closes behind it, a nested pair, and braces in a literal and
a comment. -/
theorem bracketEnd_isLeast_interleaved :
    let delimiter (text : String) (offset : Nat) : Token := ⟨.delimiter, text, {}, offset⟩
    let ts : List Token :=
      [delimiter "\x7b" 0, delimiter "[" 1, ⟨.literal, "(\x7d)", {}, 2⟩, delimiter "\x7b" 5,
      delimiter "\x7d" 6, ⟨.comment, "%\x7d", {}, 7⟩, delimiter "\x7d" 10, delimiter "]" 11]
    ts[0]? = some (delimiter "\x7b" 0) ∧
      (delimiter "\x7b" 0).isDelimiter Bracket.brace.opening = true ∧
    bracketEnd ts 0 = 6 ∧ IsLeast {i | Bracket.brace.EvenAt ts 0 i} (bracketEnd ts 0) := by
  intro delimiter ts
  have hfirst : ts[0]? = some (delimiter "\x7b" 0) := rfl
  have hopening : (delimiter "\x7b" 0).isDelimiter Bracket.brace.opening = true := by decide
  have heven : Bracket.brace.EvenAt ts 0 6 := ⟨by decide, by decide, by decide⟩
  exact ⟨hfirst, hopening, by decide, ((bracketEnd_isLeast .brace hfirst hopening).1 ⟨6, heven⟩).1⟩

end VippDocdef
