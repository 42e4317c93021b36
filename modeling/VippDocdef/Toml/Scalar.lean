import VippDocdef.Decimal.Reader
import VippDocdef.Toml

/-! Numbers, dates and strings of TOML. -/

set_option autoImplicit false

namespace VippDocdef.Toml

def isDigitRun (digit : Char → Bool) (cs : List Char) : Bool :=
  (cs.splitOn '_').all fun part => !part.isEmpty && part.all digit

def splitSign : List Char → List Char × List Char
  | '+' :: cs => (['+'], cs)
  | '-' :: cs => (['-'], cs)
  | cs => ([], cs)

def isDecimalRun (cs : List Char) : Bool :=
  isDigitRun Char.isDigit cs && (cs = ['0'] || cs.head? ≠ some '0')

def dropUnderscores (cs : List Char) : String := .ofList (cs.filter (· != '_'))

def digitValue (c : Char) : Nat :=
  if c.isDigit then c.toNat - '0'.toNat else c.toLower.toNat - 'a'.toNat + 10

def basedInteger? (base : Nat) (cs : List Char) : Option Int :=
  let isDigit := fun c => (c.isDigit || ('a' ≤ c.toLower && c.toLower ≤ 'f')) && digitValue c < base
  if isDigitRun isDigit cs then
    let n := (cs.filter (· != '_')).foldl (fun n c => base * n + digitValue c) 0
    if n < Nat.pow 2 63 then some n else none
  else none

def integer? : List Char → Option Int
  | '0' :: 'x' :: cs => basedInteger? 16 cs
  | '0' :: 'o' :: cs => basedInteger? 8 cs
  | '0' :: 'b' :: cs => basedInteger? 2 cs
  | cs =>
    let (sign, digits) := splitSign cs
    if isDecimalRun digits then Decimal.readInt64? (.ofList sign ++ dropUnderscores digits)
    else none

def isExponent : List Char → Bool
  | e :: cs => (e = 'e' || e = 'E') && isDigitRun Char.isDigit (splitSign cs).2
  | [] => false

def isFloatTail : List Char → Bool
  | '.' :: cs =>
    let isPart := fun c => c.isDigit || c == '_'
    isDigitRun Char.isDigit (cs.takeWhile isPart)
      && ((cs.dropWhile isPart).isEmpty || isExponent (cs.dropWhile isPart))
  | cs => isExponent cs

def isInfinite (x : Float) : Bool := x == 1.0 / 0.0

def float? (cs : List Char) : Option Float :=
  let (sign, body) := splitSign cs
  if body = ['i', 'n', 'f'] || body = ['n', 'a', 'n'] then Decimal.read? (.ofList cs)
  else
    let isPart := fun c => c.isDigit || c == '_'
    if isDecimalRun (body.takeWhile isPart) && isFloatTail (body.dropWhile isPart) then
      (Decimal.read? (.ofList sign ++ dropUnderscores body)).filter fun x => !isInfinite x
    else none

def twoDigits? (a b : Char) : Option Nat :=
  if a.isDigit && b.isDigit then some (10 * digitValue a + digitValue b) else none

def isLeapYear (year : Nat) : Bool := year % 4 = 0 && (year % 100 ≠ 0 || year % 400 = 0)

def daysInMonth (year month : Nat) : Nat :=
  if month = 2 then (if isLeapYear year then 29 else 28)
  else if month ∈ [4, 6, 9, 11] then 30
  else 31

def afterDate? : List Char → Option (List Char)
  | a :: b :: c :: d :: '-' :: e :: f :: '-' :: g :: h :: rest => do
    let year := 100 * (← twoDigits? a b) + (← twoDigits? c d)
    let month ← twoDigits? e f
    let day ← twoDigits? g h
    if 1 ≤ month && month ≤ 12 && 1 ≤ day && day ≤ daysInMonth year month then some rest else none
  | _ => none

/-- What follows a time of day; the last minute may have a leap second. -/
def afterTime? : List Char → Option (List Char)
  | a :: b :: ':' :: c :: d :: ':' :: e :: f :: rest => do
    let hour ← twoDigits? a b
    let minute ← twoDigits? c d
    let second ← twoDigits? e f
    if hour ≤ 23 && minute ≤ 59 && second ≤ 60 then
      match rest with
      | '.' :: more =>
        if (more.takeWhile Char.isDigit).isEmpty then none else some (more.dropWhile Char.isDigit)
      | _ => some rest
    else none
  | _ => none

def isOffset : List Char → Bool
  | [] | ['Z'] | ['z'] => true
  | sign :: a :: b :: ':' :: c :: d :: [] =>
    (sign = '+' || sign = '-') && (twoDigits? a b).any (· ≤ 23) && (twoDigits? c d).any (· ≤ 59)
  | _ => false

def isTimeWithOffset (cs : List Char) : Bool := (afterTime? cs).any isOffset

def isMoment (cs : List Char) : Bool :=
  match afterDate? cs with
  | some [] => true
  | some (c :: rest) => (c = 'T' || c = 't') && isTimeWithOffset rest
  | none => afterTime? cs = some []

def isWordChar (c : Char) : Bool := c.isAlphanum || c ∈ ['+', '-', '_', '.', ':']

def word? (cs : List Char) : Option Value :=
  if cs = ['t', 'r', 'u', 'e'] then some (.boolean true)
  else if cs = ['f', 'a', 'l', 's', 'e'] then some (.boolean false)
  else if isMoment cs then some .moment
  else
    match float? cs with
    | some x => some (.float x)
    | none => (integer? cs).map .integer

/-- A value without quotes or brackets. A time may follow its date behind a space. -/
def readWord? (cs : List Char) : Option (Value × List Char) :=
  let word := cs.takeWhile isWordChar
  let rest := cs.dropWhile isWordChar
  match afterDate? word, rest with
  | some [], ' ' :: c :: more =>
    if c.isDigit then
      if isTimeWithOffset ((c :: more).takeWhile isWordChar) then
        some (.moment, (c :: more).dropWhile isWordChar)
      else none
    else some (.moment, rest)
  | _, _ => (word? word).map (·, rest)

def isTextChar (c : Char) : Bool := c = '\t' || (' ' ≤ c && c ≠ '\x7f')

def ofHexDigits? (cs : List Char) : Option Char :=
  match basedInteger? 16 cs with
  | some n =>
    if h : n.toNat.isValidChar then
      if cs.contains '_' then none else some (Char.ofNatAux n.toNat h)
    else none
  | none => none

def escaped? : List Char → Option (Char × List Char)
  | 'b' :: rest => some ('\x08', rest)
  | 't' :: rest => some ('\t', rest)
  | 'n' :: rest => some ('\n', rest)
  | 'f' :: rest => some ('\x0c', rest)
  | 'r' :: rest => some ('\r', rest)
  | '"' :: rest => some ('"', rest)
  | '\\' :: rest => some ('\\', rest)
  | 'u' :: rest =>
    if 4 ≤ rest.length then (ofHexDigits? (rest.take 4)).map (·, rest.drop 4) else none
  | 'U' :: rest =>
    if 8 ≤ rest.length then (ofHexDigits? (rest.take 8)).map (·, rest.drop 8) else none
  | _ => none

def before (cs : List Char) (read : Option (List Char × List Char)) :
    Option (List Char × List Char) :=
  read.map fun (text, rest) => (cs ++ text, rest)

def basicString? : (fuel : Nat) → List Char → Option (List Char × List Char)
  | 0, _ | _, [] => none
  | _, '"' :: rest => some ([], rest)
  | fuel + 1, '\\' :: rest =>
    match escaped? rest with
    | some (c, rest) => before [c] (basicString? fuel rest)
    | none => none
  | fuel + 1, c :: rest => if isTextChar c then before [c] (basicString? fuel rest) else none

def literalString? : List Char → Option (List Char × List Char)
  | [] => none
  | '\'' :: rest => some ([], rest)
  | c :: rest => if isTextChar c then before [c] (literalString? rest) else none

def newline? : List Char → Option (List Char)
  | '\n' :: rest | '\r' :: '\n' :: rest => some rest
  | _ => none

def isSpace (c : Char) : Bool := c = ' ' || c = '\t'

def isSpaceOrBreak (c : Char) : Bool := isSpace c || c = '\n' || c = '\r'

def breaksAreWhole : List Char → Bool
  | '\r' :: '\n' :: rest => breaksAreWhole rest
  | '\r' :: _ => false
  | _ :: rest => breaksAreWhole rest
  | [] => true

def continued? (cs : List Char) : Option (List Char) :=
  match newline? (cs.dropWhile isSpace) with
  | some rest =>
    if breaksAreWhole (rest.takeWhile isSpaceOrBreak) then some (rest.dropWhile isSpaceOrBreak)
    else none
  | none => none

/-- A string on several lines behind its opening quotes. Up to two quotes may stand before the
closing ones. -/
def longString? (quote : Char) (escapes : Bool) :
    (fuel : Nat) → List Char → Option (List Char × List Char)
  | 0, _ | _, [] => none
  | fuel + 1, c :: rest =>
    if c = quote then
      let quotes := (c :: rest).takeWhile (· == quote)
      let behind := (c :: rest).dropWhile (· == quote)
      if quotes.length < 3 then before quotes (longString? quote escapes fuel behind)
      else if quotes.length ≤ 5 then some (quotes.drop 3, behind)
      else none
    else if c = '\\' && escapes then
      match escaped? rest, continued? rest with
      | some (d, rest), _ => before [d] (longString? quote escapes fuel rest)
      | none, some rest => longString? quote escapes fuel rest
      | none, none => none
    else
      match newline? (c :: rest) with
      | some rest => before ['\n'] (longString? quote escapes fuel rest)
      | none => if isTextChar c then before [c] (longString? quote escapes fuel rest) else none

def dropNewline (cs : List Char) : List Char := (newline? cs).getD cs

def readString? (cs : List Char) : Option (String × List Char) :=
  (match cs with
   | '"' :: '"' :: '"' :: rest => longString? '"' true (rest.length + 1) (dropNewline rest)
   | '\'' :: '\'' :: '\'' :: rest => longString? '\'' false (rest.length + 1) (dropNewline rest)
   | '"' :: rest => basicString? (rest.length + 1) rest
   | '\'' :: rest => literalString? rest
   | _ => none).map fun (text, rest) => (.ofList text, rest)

end VippDocdef.Toml
