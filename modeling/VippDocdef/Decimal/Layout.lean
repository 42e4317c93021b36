import VippDocdef.Decimal.Shortest

/-! Writing floating point values as decimal text. -/

set_option autoImplicit false

namespace VippDocdef.Decimal

structure Format where
  wholeFraction : Bool
  /-- Powers of ten of the first digit, from the first to before the second, that are written
  without an exponent; every number is, if there are none. -/
  positional : Option (Int × Int)

/-- Lengths in millimetres: always a fraction, an exponent from `10 ^ 16` on and below `10 ^ -4`. -/
def measured : Format := ⟨true, some (-4, 16)⟩

/-- Calibration values: no exponent, and no fraction on whole numbers. -/
def plain : Format := ⟨false, none⟩

def zeros (n : Nat) : List Char := List.replicate n '0'

def placePoint (f : Format) (ds : List Char) (point : Int) : List Char :=
  if point ≤ 0 then '0' :: '.' :: zeros (-point).toNat ++ ds
  else if ds.length ≤ point.toNat then
    ds ++ zeros (point.toNat - ds.length) ++ (if f.wholeFraction then ['.', '0'] else [])
  else ds.take point.toNat ++ '.' :: ds.drop point.toNat

def placeExponent (ds : List Char) (e : Int) : List Char :=
  let mantissa := match ds with
    | [] => []
    | [d] => [d]
    | d :: more => d :: '.' :: more
  mantissa ++ 'e' :: (toString e).toList

def Format.positive (f : Format) (d : Digits) : List Char :=
  let ds := Nat.toDigits 10 d.digits
  let point := (ds.length : Int) + d.exponent
  match f.positional with
  | none => placePoint f ds point
  | some (low, high) =>
    if low ≤ point - 1 && point - 1 < high then placePoint f ds point
    else placeExponent ds (point - 1)

def Format.zero (f : Format) : List Char := if f.wholeFraction then "0.0".toList else ['0']

def Format.text (f : Format) (x : Float) : String :=
  let bits := x.toBits.toNat
  let negative := Nat.pow 2 63 ≤ bits
  let magnitude := bits % Nat.pow 2 63
  let infinite := 2047 * Nat.pow 2 52
  if infinite < magnitude then "NaN"
  else
    let body :=
      if magnitude = infinite then "inf".toList
      else if magnitude = 0 then f.zero
      else f.positive (Binary.ofBits magnitude).shortest
    .ofList (if negative then '-' :: body else body)

end VippDocdef.Decimal
