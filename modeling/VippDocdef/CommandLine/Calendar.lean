/-! Dates of the Gregorian calendar. -/

set_option autoImplicit false

namespace VippDocdef.CommandLine

structure Date where
  year : Int
  month : Nat
  day : Nat
  deriving DecidableEq, Repr

namespace Date

/-- The date some days after the first of January 1970. Years are counted from March, in cycles of
400, so that a leap day is the last one of its year. -/
def ofDays (days : Int) : Date :=
  let shifted := days + 719468
  let cycle := shifted.fdiv 146097
  let dayOfCycle := (shifted.fmod 146097).toNat
  let year := (dayOfCycle - dayOfCycle / 1460 + dayOfCycle / 36524 - dayOfCycle / 146096) / 365
  let dayOfYear := dayOfCycle - (365 * year + year / 4 - year / 100)
  let month := (5 * dayOfYear + 2) / 153
  let day := dayOfYear - (153 * month + 2) / 5 + 1
  let month := if month < 10 then month + 3 else month - 9
  ⟨year + cycle * 400 + (if month ≤ 2 then 1 else 0), month, day⟩

def padded (width : Nat) (n : Int) : String :=
  let digits := toString n
  .ofList (List.replicate (width - digits.length) '0') ++ digits

def text (d : Date) : String := s!"{padded 4 d.year}-{padded 2 d.month}-{padded 2 d.day}"

example : (ofDays 0).text = "1970-01-01" := by decide +kernel

example : (ofDays 19782).text = "2024-02-29" := by decide +kernel

end Date

end VippDocdef.CommandLine
