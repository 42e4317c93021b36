/-! Reading decimal text as floating point values: an optional sign, then `inf`, `infinity` or `nan`
in any letter case, or digits with an optional point and an optional exponent. -/

set_option autoImplicit false

namespace VippDocdef.Decimal

def digitValue (c : Char) : Nat := c.toNat - '0'.toNat

def ofDigits (ds : List Char) : Nat := ds.foldl (fun n d => 10 * n + digitValue d) 0

/-- The value `significand * 10 ^ exponent`, rounded to nearest. Powers of ten far beyond the range
of floating point values are not computed. -/
def scientific (significand : Nat) (exponent : Int) : Float :=
  let top := ((Nat.toDigits 10 significand).length : Int) + exponent
  if significand = 0 || top < -400 then 0.0
  else if 400 < top then 1.0 / 0.0
  else Float.ofScientific significand (exponent < 0) exponent.natAbs

def exponent? : List Char → Option Int
  | [] => some 0
  | e :: rest =>
    if e != 'e' && e != 'E' then none
    else
      let (negative, ds) := match rest with
        | '-' :: ds => (true, ds)
        | '+' :: ds => (false, ds)
        | ds => (false, ds)
      if ds.isEmpty || !ds.all Char.isDigit then none
      else some (if negative then -(ofDigits ds : Int) else ofDigits ds)

def unsignedNumber? (cs : List Char) : Option Float :=
  let whole := cs.takeWhile Char.isDigit
  let (fraction, rest) := match cs.dropWhile Char.isDigit with
    | '.' :: more => (more.takeWhile Char.isDigit, more.dropWhile Char.isDigit)
    | rest => ([], rest)
  if whole.isEmpty && fraction.isEmpty then none
  else (exponent? rest).map fun e => scientific (ofDigits (whole ++ fraction)) (e - fraction.length)

def unsigned? (cs : List Char) : Option Float :=
  match String.ofList (cs.map Char.toLower) with
  | "inf" | "infinity" => some (1.0 / 0.0)
  | "nan" => some (0.0 / 0.0)
  | _ => unsignedNumber? cs

def read? (s : String) : Option Float :=
  match s.toList with
  | '-' :: cs => (unsigned? cs).map fun x => -x
  | '+' :: cs => unsigned? cs
  | cs => unsigned? cs

def readInt? (s : String) : Option Int :=
  let (negative, ds) := match s.toList with
    | '-' :: ds => (true, ds)
    | '+' :: ds => (false, ds)
    | ds => (false, ds)
  if ds.isEmpty || !ds.all Char.isDigit then none
  else some (if negative then -(ofDigits ds : Int) else ofDigits ds)

def readInt64? (s : String) : Option Int :=
  (readInt? s).filter fun n => -(Nat.pow 2 63 : Nat) ≤ n && n < (Nat.pow 2 63 : Nat)

end VippDocdef.Decimal
