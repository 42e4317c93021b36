import VippDocdef.Table
import VippDocdef.Text.Blank
import VippDocdef.Text.Cut
import VippDocdef.Token.Scan

/-! Files that a source refers to: literals that name a picture, a document or a font. -/

set_option autoImplicit false

namespace VippDocdef

def resourceEndings : List String := ["jpg", "tif", "eps", "png", "gif", "pdf", "ttf", "otf"]

def isLiteralMark (c : Char) : Bool := c ∈ ['\'', '"', '(', ')']

def resourceName? (literal : String) : Option String :=
  let name := Text.trimMatches isLiteralMark literal
  match Text.splitLast? '.' name with
  | some (_, ending) => if resourceEndings.contains ending.toLower then some name else none
  | none => none

def referencedResources (source : String) : List String :=
  let literals := (Scanned.ofText source).tokens.filter (·.kind = .literal)
  (Table.ofList ((literals.filterMap fun t => resourceName? t.text).map (·, ()))).keys

end VippDocdef
