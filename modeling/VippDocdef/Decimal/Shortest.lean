/-! The shortest decimal that reads back as a given floating point value. All arithmetic is exact,
on the significand and exponent of the value. -/

set_option autoImplicit false

namespace VippDocdef.Decimal

structure Digits where
  digits : Nat
  exponent : Int
  deriving DecidableEq, Repr

/-- A positive binary value `significand * 2 ^ exponent`; `narrow` marks a power of two whose lower
neighbour is only half as far away as its upper one. -/
structure Binary where
  significand : Nat
  exponent : Int
  narrow : Bool
  deriving DecidableEq, Repr

def Binary.ofBits (bits : Nat) : Binary :=
  let fraction : Nat := bits % Nat.pow 2 52
  let biased : Nat := bits / Nat.pow 2 52 % Nat.pow 2 11
  if biased = 0 then ⟨fraction, -1074, false⟩
  else ⟨Nat.pow 2 52 + fraction, (biased : Int) - 1075, fraction = 0 && biased != 1⟩

def powerRatio (base : Nat) (e : Int) : Nat × Nat :=
  match e with
  | .ofNat n => (Nat.pow base n, 1)
  | .negSucc n => (1, Nat.pow base (n + 1))

/-- The power of ten at the first digit: `10 ^ e ≤ value < 10 ^ (e + 1)`. -/
def Binary.magnitude (b : Binary) : Int :=
  let (num, den) := powerRatio 2 b.exponent
  let scaled := b.significand * num * Nat.pow 10 400 / den
  ((Nat.toDigits 10 scaled).length : Int) - 401

/-- The grid of multiples of `10 ^ e` laid over the quarter units of the value: a multiple `k` of
the grid equals `x` quarter units iff `k * step = x * quarter`. -/
structure Grid where
  step : Nat
  quarter : Nat

def Binary.grid (b : Binary) (e : Int) : Grid :=
  let (gridNum, gridDen) := powerRatio 10 e
  let (unitNum, unitDen) := powerRatio 2 (b.exponent - 2)
  ⟨gridNum * unitDen, unitNum * gridDen⟩

/-- Whether the `k`-th grid point rounds to the value; the ends of the interval belong to it iff the
significand is even. -/
def Binary.reads (b : Binary) (g : Grid) (k : Nat) : Bool :=
  let low := (4 * b.significand - if b.narrow then 1 else 2) * g.quarter
  let high := (4 * b.significand + 2) * g.quarter
  let point := k * g.step
  if b.significand % 2 = 0 then low ≤ point && point ≤ high else low < point && point < high

/-- The grid point next to the value that reads back, if one does: the nearer of two, and of two
equally near the greater. -/
def Binary.nearest? (b : Binary) (e : Int) : Option Digits :=
  let g := b.grid e
  let value := 4 * b.significand * g.quarter
  let k := value / g.step
  match b.reads g k, b.reads g (k + 1) with
  | true, true => some ⟨if 2 * value < (2 * k + 1) * g.step then k else k + 1, e⟩
  | true, false => some ⟨k, e⟩
  | false, true => some ⟨k + 1, e⟩
  | false, false => none

def Digits.normalize (d : Digits) : (fuel : Nat) → Digits
  | 0 => d
  | fuel + 1 =>
    if d.digits % 10 = 0 && d.digits != 0 then
      Digits.normalize ⟨d.digits / 10, d.exponent + 1⟩ fuel
    else d

/-- The shortest decimal that reads back. Seventeen digits always suffice. -/
def Binary.shortest (b : Binary) : Digits :=
  let top := b.magnitude
  let hit := (List.range 17).findSome? fun (n : Nat) => b.nearest? (top - n)
  (hit.getD ⟨0, 0⟩).normalize 20

end VippDocdef.Decimal
