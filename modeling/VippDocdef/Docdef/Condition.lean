import VippDocdef.Docdef.Term

/-! Conditions. Atoms of a condition come in the order of the operand stack; they are joined, cut
into operands again and written with DocDEF operators. -/

set_option autoImplicit false

namespace VippDocdef.Docdef

structure Condition where
  /-- Statements that stand before the condition, from `++` and `--` inside it. -/
  hoisted : List String
  expression : String
  /-- Whether the expression compares, and so needs `ISTRUE`. -/
  relational : Bool
  deriving DecidableEq, Repr

namespace Condition

def ignoredWords : List String :=
  ["INDEXBAT", "INDEXFONT", "INDEXCOLOR", "SETUNIT", "MM", "CM", "INCH", "null"]

def relations : List String := ["==", "<>", ">", "<", ">=", "<="]

def comparison? (word : String) : Option String :=
  match word.toLower with
  | "eq" => some "=="
  | "ne" => some "<>"
  | "lt" => some "<"
  | "gt" => some ">"
  | "le" => some "<="
  | "ge" => some ">="
  | _ => none

def logical? (word : String) : Option String :=
  match word.toLower with
  | "and" => some "AND"
  | "or" => some "OR"
  | "not" => some "NOT"
  | _ => none

def isOperator (word : String) : Bool := (comparison? word).isSome || (logical? word).isSome

def isConnective (word : String) : Bool := word.toLower = "and" || word.toLower = "or"

/-- Writes each `and` and `or` between its two operands; `stack` has the topmost first. -/
def foldStep (stack : List String) (atom : String) : List String :=
  match stack with
  | right :: left :: below =>
    if isConnective atom && !isOperator right && !isOperator left then
      s!"{left} {atom} {right}" :: below
    else atom :: stack
  | _ => atom :: stack

def foldLogical (atoms : List String) : List String := (atoms.foldl foldStep []).reverse

def addOperand (word : List Char) (rest : List String) : List String :=
  if word.isEmpty then rest else .ofList word.reverse :: rest

def splitFrom (depth : Nat) (word : List Char) : List Char → List String
  | [] => addOperand word []
  | c :: cs =>
    if c = '(' then splitFrom (depth + 1) (c :: word) cs
    else if c = ')' then splitFrom (depth - 1) (c :: word) cs
    else if Text.isBlank c && depth = 0 then addOperand word (splitFrom 0 [] cs)
    else splitFrom depth (c :: word) cs

def splitOperands (s : String) : List String := splitFrom 0 [] s.toList

def reversed? (op : String) : Option String :=
  match op.toLower with
  | "lt" | "<" => some ">"
  | "gt" | ">" => some "<"
  | "ge" | ">=" => some "<="
  | "le" | "<=" => some ">="
  | _ => none

/-- `FRLEFT t op` or `FRLEFT op t`: the space left in the frame against a threshold. -/
def frameLeft? (params : List String) : Option String :=
  match params.dropWhile (· ≠ "FRLEFT") with
  | _ :: first :: second :: _ =>
    let (threshold, op) := if (reversed? first).isSome then (second, first) else (first, second)
    (reversed? op).map fun test => s!"$SL_MAXY{test}$LP_HEIGHT-MM({threshold})"
  | _ => none

/-- Strings compare without trailing blanks: a variable before a literal is wrapped in `NOSPACE`. -/
def wraps (op before next : String) : Bool :=
  (op = "==" || op = "<>")
    && (Text.startsWith next "'" || next.toUpper = next)
    && (Text.startsWith before "VAR_" || Text.startsWith before "FLD[")
    && !Text.startsWith before "NOSPACE("

def convertFrom (done : List String) : List String → List String
  | [] => done.reverse
  | param :: rest =>
    match comparison? param with
    | none => convertFrom (param :: done) rest
    | some op =>
      match done, rest with
      | before :: earlier, next :: _ =>
        if wraps op before next then convertFrom (op :: s!"NOSPACE({before})" :: earlier) rest
        else convertFrom (op :: done) rest
      | _, _ => convertFrom (op :: done) rest

def convertOperators (params : List String) : List String := convertFrom [] params

def stepStatement (name : String) (sign : String) : String := s!"{name} = {name} {sign} 1;"

def hoistStep (state : List String × List String) (param : String) : List String × List String :=
  let (hoisted, params) := state
  if param = "++" || param = "--" then
    match params with
    | [] => (hoisted, [])
    | var :: below =>
      let sign := if param = "++" then "+" else "-"
      (stepStatement (Text.dropLeading '/' var) sign :: hoisted, below)
  else (hoisted, param :: params)

def writeOperand (param : String) : String := (logical? param).getD (term param)

def ofAtoms (atoms : List String) : Condition :=
  let operands := splitOperands (" ".intercalate (foldLogical atoms))
  let (hoisted, params) :=
    (operands.filter fun p => !ignoredWords.contains p).foldl hoistStep ([], [])
  match frameLeft? params.reverse with
  | some expression => ⟨hoisted.reverse, expression, true⟩
  | none =>
    let expression := " ".intercalate ((convertOperators params.reverse).map writeOperand)
    ⟨hoisted.reverse, expression, relations.any (Text.contains expression ·)⟩

def ifLine (c : Condition) : String :=
  if Text.trim c.expression = "" then "IF 1;"
  else if c.relational then "IF ISTRUE(" ++ c.expression ++ ");"
  else "IF " ++ c.expression ++ ";"

end Condition

end VippDocdef.Docdef
