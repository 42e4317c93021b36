import Mathlib.Data.Prod.Lex
import Mathlib.Algebra.Order.Ring.Int

/-! Sizes in order. A size is a floating-point number. What is not a number stands in no order; all
others are ordered by their sign, then by their exponent and their mantissa, and infinity is above
them. -/

set_option autoImplicit false

namespace VippDocdef.Size

open Float.Model (UnpackedFloat)

/-- The sign of a number comes first, with infinity beyond it, then its exponent and its
mantissa. -/
def unpackedRank : UnpackedFloat → ℤ ×ₗ ℤ ×ₗ ℤ
  | .infinity .negative => toLex (-2, toLex (0, 0))
  | .finite .negative m e _ => toLex (-1, toLex (-e, -m))
  | .zero _ | .notANumber => toLex (0, toLex (0, 0))
  | .finite .positive m e _ => toLex (1, toLex (e, m))
  | .infinity .positive => toLex (2, toLex (0, 0))

theorem compare_neg (a b : ℤ) : compare (-a) (-b) = (compare a b).swap := by
  rcases lt_trichotomy a b with h | h | h
  · rw [Int.compare_eq_lt.2 h, Int.compare_eq_gt.2 (by omega)]
    rfl
  · rw [Int.compare_eq_eq.2 h, Int.compare_eq_eq.2 (by omega)]
    rfl
  · rw [Int.compare_eq_gt.2 h, Int.compare_eq_lt.2 (by omega)]
    rfl

theorem compare_cast (m n : ℕ) : compare (m : ℤ) n = compare m n := by
  rcases lt_trichotomy m n with h | h | h
  · rw [Nat.compare_eq_lt.2 h, Int.compare_eq_lt.2 (by omega)]
  · rw [Nat.compare_eq_eq.2 h, Int.compare_eq_eq.2 (by omega)]
  · rw [Nat.compare_eq_gt.2 h, Int.compare_eq_gt.2 (by omega)]

theorem compare_eq_unpackedRank {a b : UnpackedFloat} (ha : a.isNaN = false)
    (hb : b.isNaN = false) :
    a.compare b = some (compare (unpackedRank a) (unpackedRank b)) := by
  cases a with
  | notANumber => cases ha
  | infinity s =>
    cases b with
    | notANumber => cases hb
    | infinity t => cases s <;> cases t <;> rfl
    | zero t => cases s <;> rfl
    | finite t => cases s <;> cases t <;> rfl
  | zero s =>
    cases b with
    | notANumber => cases hb
    | zero t => rfl
    | infinity t | finite t => cases t <;> rfl
  | finite s m e hm =>
    cases b with
    | notANumber => cases hb
    | infinity t => cases s <;> cases t <;> rfl
    | zero t => cases s <;> rfl
    | finite t n f hn =>
      cases s <;> cases t
      · -- Among negative numbers all is the other way round.
        change some ((compare e f).then (compare m n)).swap
          = some ((compare (-e) (-f)).then (compare (-(m : ℤ)) (-(n : ℤ))))
        rw [compare_neg, compare_neg, compare_cast, Ordering.swap_then]
      · rfl
      · rfl
      · change some ((compare e f).then (compare m n))
          = some ((compare e f).then (compare (m : ℤ) n))
        rw [compare_cast]

def rank (x : Float) : ℤ ×ₗ ℤ ×ₗ ℤ := unpackedRank x.toModel.unpack

section Order

variable {a b c : Float}

theorem compare_eq_rank (ha : a.isNaN = false) (hb : b.isNaN = false) :
    a.toModel.unpack.compare b.toModel.unpack = some (compare (rank a) (rank b)) :=
  compare_eq_unpackedRank ha hb

theorem le_iff : a ≤ b ↔ (a.toModel.unpack.compare b.toModel.unpack).any (·.isLE) = true := by
  change decide (a.toModel ≤ b.toModel) = true ↔ _
  rw [decide_eq_true_iff]
  rfl

theorem lt_iff : a < b ↔ a.toModel.unpack.compare b.toModel.unpack = some .lt := by
  change decide (a.toModel < b.toModel) = true ↔ _
  rw [decide_eq_true_iff]
  exact beq_iff_eq

theorem le_iff_rank (ha : a.isNaN = false) (hb : b.isNaN = false) : a ≤ b ↔ rank a ≤ rank b := by
  rw [le_iff, compare_eq_rank ha hb, Option.any_some, Ordering.isLE_iff_ne_gt]
  exact compare_le_iff_le

theorem lt_iff_rank (ha : a.isNaN = false) (hb : b.isNaN = false) : a < b ↔ rank a < rank b := by
  rw [lt_iff, compare_eq_rank ha hb, Option.some_inj, compare_lt_iff_lt]

theorem isNaN_of_lt (h : a < b) : a.isNaN = false ∧ b.isNaN = false := by
  rw [lt_iff] at h
  change a.toModel.unpack.isNaN = false ∧ b.toModel.unpack.isNaN = false
  cases ha : a.toModel.unpack with
  | notANumber =>
    rw [ha] at h
    cases h
  | _ =>
    refine ⟨rfl, ?_⟩
    cases hb : b.toModel.unpack with
    | notANumber =>
      rw [ha, hb] at h
      cases h
    | _ => rfl

theorem not_le_of_lt (h : a < b) : ¬ b ≤ a := by
  obtain ⟨ha, hb⟩ := isNaN_of_lt h
  rw [le_iff_rank hb ha, not_le]
  exact (lt_iff_rank ha hb).1 h

theorem lt_trans (hab : a < b) (hbc : b < c) : a < c := by
  obtain ⟨ha, hb⟩ := isNaN_of_lt hab
  have hc := (isNaN_of_lt hbc).2
  exact (lt_iff_rank ha hc).2 (((lt_iff_rank ha hb).1 hab).trans ((lt_iff_rank hb hc).1 hbc))

instance isTrans_lt : IsTrans Float (· < ·) := ⟨fun _ _ _ => lt_trans⟩

theorem isNaN_of_isFinite (h : a.isFinite = true) : a.isNaN = false := by
  change a.toModel.unpack.isFinite = true at h
  change a.toModel.unpack.isNaN = false
  cases ha : a.toModel.unpack with
  | notANumber =>
    rw [ha] at h
    cases h
  | _ => rfl

theorem le_self (h : a.isNaN = false) : a ≤ a := (le_iff_rank h h).2 le_rfl

theorem not_le_iff_lt (ha : a.isNaN = false) (hb : b.isNaN = false) : ¬ b ≤ a ↔ a < b := by
  rw [le_iff_rank hb ha, lt_iff_rank ha hb, not_le]

end Order

def infinity : Float := 1 / 0

theorem rank_infinity : rank infinity = toLex (2, toLex (0, 0)) := by decide +kernel

theorem lt_infinity {x : Float} (h : x.isFinite = true) : x < infinity := by
  rw [lt_iff_rank (isNaN_of_isFinite h) (by decide +kernel), rank_infinity, rank]
  change x.toModel.unpack.isFinite = true at h
  cases hx : x.toModel.unpack with
  | notANumber | infinity =>
    rw [hx] at h
    cases h
  | zero => exact Prod.Lex.toLex_lt_toLex.2 (.inl (by decide))
  | finite s =>
    cases s
    · exact Prod.Lex.toLex_lt_toLex.2 (.inl (by decide : (-1 : ℤ) < 2))
    · exact Prod.Lex.toLex_lt_toLex.2 (.inl (by decide : (1 : ℤ) < 2))

end VippDocdef.Size
