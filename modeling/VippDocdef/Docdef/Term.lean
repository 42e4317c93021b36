import VippDocdef.Text.Blank
import VippDocdef.Text.Cut

/-! VIPP operands as DocDEF terms. A DocDEF literal stands in single quotes, and a quote inside it
is written twice. -/

set_option autoImplicit false

namespace VippDocdef.Docdef

def escape : List Char → List Char
  | [] => []
  | c :: cs => if c = '\'' then '\'' :: '\'' :: escape cs else c :: escape cs

def quote (s : String) : String := "'" ++ .ofList (escape s.toList) ++ "'"

def unparen? (s : String) : Option String :=
  (Text.stripPrefix? "(" s).bind (Text.stripSuffix? ")")

/-- `/x` is the name `x`, and `(s)` the literal `'s'`. -/
def term (operand : String) : String :=
  match Text.stripPrefix? "/" operand with
  | some name => name
  | none =>
    match unparen? operand with
    | some inner => quote inner
    | none => operand

inductive Source where
  | literal (text : String)
  | variable (name : String)
  deriving DecidableEq, Repr

def Source.ofOperand? (operand : String) : Option Source :=
  let operand := Text.trim operand
  if operand = "" then none
  else
    match unparen? operand with
    | some inner => some (.literal inner)
    | none =>
      let name := Text.dropLeading '/' operand
      if name = "" then none else some (.variable name)

def isWhole (s : String) : Bool :=
  let digits := ((Text.stripPrefix? "-" s).getD s).toList
  !digits.isEmpty && digits.all Char.isDigit

/-- The first value of an `/INI` variable: truth values are numbers, whole numbers stay, and all
else is put in quotes as it stands. -/
def initialValue (value : String) : String :=
  if value = "true" then "1"
  else if value = "false" then "0"
  else
    match unparen? value with
    | some inner => "'" ++ inner ++ "'"
    | none => if isWhole value then value else "'" ++ value ++ "'"

end VippDocdef.Docdef
