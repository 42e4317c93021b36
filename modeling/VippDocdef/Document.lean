import VippDocdef.Command
import VippDocdef.Files.Path
import VippDocdef.Table

/-! Source units. A project is one document, a database master, with the forms that share the names
of its fonts and colors. -/

set_option autoImplicit false

namespace VippDocdef

/-- `/ALIAS /FACE size INDEXFONT`. -/
structure FontDef where
  aliasName : String
  face : String
  size : Float

/-- `/ALIAS NAME INDEXCOLOR`. -/
structure ColorDef where
  aliasName : String
  name : String
  deriving DecidableEq, Repr

/-- `/NAME value SETVAR` outside any case. -/
structure VariableDef where
  name : String
  value : String
  initial : Bool
  deriving DecidableEq, Repr

structure Metadata where
  title : Option String := none
  creator : Option String := none
  creationDate : Option String := none
  deriving DecidableEq, Repr

structure Case where
  key : String
  commands : List Command

def defaultKey : String := "\x7b\x7d"

def Case.isDefault (c : Case) : Bool := c.key = defaultKey

structure RenameTable where
  fonts : Table String := {}
  colors : Table String := {}

def RenameTable.font (t : RenameTable) (name : String) : String := (t.fonts.get? name).getD name

def RenameTable.color (t : RenameTable) (name : String) : String := (t.colors.get? name).getD name

structure Document where
  file : String := ""
  raw : String := ""
  metadata : Metadata := {}
  prefixes : List String := []
  fields : List String := []
  fonts : Table FontDef := {}
  colors : Table ColorDef := {}
  assigned : List VariableDef := []
  prologue : List Command := []
  cases : List Case := []
  subroutines : Table (List Command) := {}

def Document.programName (d : Document) : String :=
  let name := (Path.stem ⟨d.file⟩).toList.filter Char.isAlphanum
  if name.isEmpty then "CONVERTED" else .ofList name

/-- The name of a form's format: letters, digits and underscores of the file name, in capitals. -/
def formatName (file : String) : String :=
  .ofList ((Path.stem ⟨file⟩).toUpper.toList.filter fun c => c.isAlphanum || c == '_')

structure Form where
  file : String := ""
  raw : String := ""
  metadata : Metadata := {}
  fonts : Table FontDef := {}
  colors : Table ColorDef := {}
  attributes : Table String := {}
  commands : List Command := []
  subroutines : Table (List Command) := {}
  renames : RenameTable := {}

def Form.formatName (f : Form) : String := VippDocdef.formatName f.file

structure Project where
  document : Document := {}
  forms : List Form := []

namespace Project

/-- A subroutine of the document, or else of the first form that has it. -/
def subroutine? (p : Project) (name : String) : Option (List Command) :=
  (p.document.subroutines.get? name).or (p.forms.findSome? (·.subroutines.get? name))

def subroutineNames (p : Project) : List String :=
  p.document.subroutines.keys ++ p.forms.flatMap (·.subroutines.keys)

def fonts (p : Project) : List FontDef :=
  p.document.fonts.values ++ p.forms.flatMap (·.fonts.values)

def colors (p : Project) : List ColorDef :=
  p.document.colors.values ++ p.forms.flatMap (·.colors.values)

end Project

end VippDocdef
