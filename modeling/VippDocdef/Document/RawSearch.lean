import VippDocdef.Decimal.Reader
import VippDocdef.Document.Build
import VippDocdef.Text.Word

/-! Searches in the raw text of a document, comments included. -/

set_option autoImplicit false

namespace VippDocdef

def everywhere {α : Type} (read : List Char → Option α) : List Char → List α
  | [] => (read []).toList
  | c :: cs => (read (c :: cs)).toList ++ everywhere read cs

/-- `(c) SETDBSEP`: the character that divides fields. -/
def separatorAt? : List Char → Option Char
  | '(' :: c :: ')' :: rest =>
    if c = '\n' then none
    else ((afterBlanks? rest).bind (Text.after? "SETDBSEP".toList)).map fun _ => c
  | _ => none

def numeral? (cs : List Char) : Option (List Char × List Char) :=
  let whole := cs.takeWhile Text.isDecimalDigit
  let rest := cs.dropWhile Text.isDecimalDigit
  if whole.isEmpty then none
  else
    match rest with
    | '.' :: more =>
      let fraction := more.takeWhile Text.isDecimalDigit
      if fraction.isEmpty then some (whole, rest)
      else some (whole ++ '.' :: fraction, more.dropWhile Text.isDecimalDigit)
    | _ => some (whole, rest)

/-- `number SETLSP`: the spacing of lines. -/
def lineSpacingAt? (cs : List Char) : Option String := do
  let (number, rest) ← numeral? cs
  let rest ← afterBlanks? rest
  let _ ← Text.after? "SETLSP".toList rest
  return .ofList number

def bracket? (bracket : Char) (cs : List Char) : Option (List Char) :=
  match cs.dropWhile Text.isBlank with
  | c :: rest => if c = bracket then some (rest.dropWhile Text.isBlank) else none
  | [] => none

def numeralThenBlanks? (cs : List Char) : Option (List Char × List Char) := do
  let (number, rest) ← numeral? cs
  let rest ← afterBlanks? rest
  return (number, rest)

/-- `[[x y width height n]]`: the origin of a page. -/
def pageOriginAt? (cs : List Char) : Option (String × String) := do
  let rest ← if cs.head? = some '[' then bracket? '[' cs.tail else none
  let (x, rest) ← numeralThenBlanks? rest
  let (y, rest) ← numeralThenBlanks? rest
  let (_, rest) ← numeralThenBlanks? rest
  let (_, rest) ← numeralThenBlanks? rest
  let rest ← if (rest.head?.map Text.isDecimalDigit).getD false then
      some (rest.dropWhile Text.isDecimalDigit) else none
  let rest ← bracket? ']' rest
  let _ ← bracket? ']' rest
  return (.ofList x, .ofList y)

def afterWord? (word : String) (cs : List Char) : Option (List Char) :=
  if (cs.take word.length).map Char.toLower = word.toList then some (cs.drop word.length) else none

/-- Letters and digits of a record type in any letter case; two letters outside ASCII are variants
of `S` and `K`. -/
def isPrefixChar (c : Char) : Bool := c.isAlphanum || c = '\u017f' || c = '\u212a'

def prefixReferenceAt? (cs : List Char) : Option String := do
  let rest ← afterWord? "prefix" cs
  let rest ← afterBlanks? rest
  let rest ← ["eq", "ne", "gt", "lt", "ge", "le"].findSome? (afterWord? · rest)
  let rest ← afterBlanks? rest
  let rest ← Text.after? ['('] rest
  let key := rest.takeWhile isPrefixChar
  if !key.isEmpty && (rest.dropWhile isPrefixChar).head? = some ')' then
    some (.ofList (key.map Char.toUpper))
  else none

namespace Document

def separator? (d : Document) : Option Char := (everywhere separatorAt? d.raw.toList).head?

/-- The spacing that the commands outside the cases set first, or else the first in the raw text. -/
def lineSpacing? (d : Document) : Option String :=
  ((Command.actions d.prologue).findSome? fun
    | .generic "SETLSP" (spacing :: _) => some spacing
    | _ => none).or (everywhere lineSpacingAt? d.raw.toList).head?

/-- The origin of the last page definition, in whole millimetres. -/
def pageOrigin? (d : Document) : Option (Int × Int) := do
  let (x, y) ← (everywhere pageOriginAt? d.raw.toList).getLast?
  let x ← Decimal.read? x
  let y ← Decimal.read? y
  return (x.toInt64.toInt, y.toInt64.toInt)

end Document

def referencedPrefixes (raw : String) : List String :=
  (Table.ofList ((everywhere prefixReferenceAt? raw.toList).map (·, ()))).keys

end VippDocdef
