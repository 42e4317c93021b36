import VippDocdef.Text.Blank
import VippDocdef.Text.Cut

/-! Numeric pictures. VIPP writes an optional digit as `@` and a required one as `#`; DocDEF writes
them as `#` and `0`. -/

set_option autoImplicit false

namespace VippDocdef.Docdef

def pictureDigits (group : List Char) : List Char :=
  group.filterMap fun c => if c = '@' then some '#' else if c = '#' then some '0' else none

/-- The mask of the whole part: at most one thousands separator is kept. -/
def wholeMask (groups : List (List Char)) : List Char :=
  match groups with
  | [] => []
  | [single] => pictureDigits single
  | [first, last] => pictureDigits first ++ ',' :: pictureDigits last
  | _ :: _ :: rest => '#' :: ',' :: pictureDigits (rest.getLastD [])

def numPicture (pattern : String) : String :=
  let bare := Text.dropEndWhile (· == ')') (pattern.toList.dropWhile (· == '('))
  let (whole, decimals) := match Text.splitLast? '.' (.ofList bare) with
    | some (whole, decimals) => (whole.toList, decimals.toList)
    | none => (bare, [])
  let mask := wholeMask (whole.splitOn ',')
  let decimals := pictureDigits decimals
  let body := if decimals.isEmpty then mask else mask ++ '.' :: decimals
  "'" ++ .ofList body ++ "'"

end VippDocdef.Docdef
