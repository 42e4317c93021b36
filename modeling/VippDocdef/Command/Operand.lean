import VippDocdef.Command
import VippDocdef.Decimal.Reader
import VippDocdef.Text.Blank
import VippDocdef.Text.Cut
import VippDocdef.Token

/-! The operand stack of VIPP and the commands that take their operands from it. The top of a stack
is the head of the list. -/

set_option autoImplicit false

namespace VippDocdef

inductive CommandFault where
  | tooFew (word : String) (expected found : Nat)
  | noText (word : String)
  | noAssignment
  | noDefinition
  deriving DecidableEq, Repr

def CommandFault.message : CommandFault → String
  | .tooFew word expected found => s!"{word} expects {expected} operand(s), found {found}"
  | .noText word => s!"{word} without text operand"
  | .noAssignment => "SETVAR needs a name and a value"
  | .noDefinition => "XGFRESDEF needs a name and a block"

structure CommandWarning where
  pos : Position
  cause : CommandFault
  deriving DecidableEq, Repr

def CommandWarning.text (w : CommandWarning) : String := w.pos.note w.cause.message

structure Script where
  commands : List Command := []
  warnings : List CommandWarning := []

inductive Tag where
  | interpolate
  | picture (pattern : String)
  deriving DecidableEq, Repr

inductive Operand where
  | literal (text : String)
  | block (tokens : List Token) (script : Script)
  | tagged (text : String) (tag : Tag)

namespace Operand

def text : Operand → String
  | .literal t => t
  | .block ts _ => " ".intercalate (ts.map (·.text))
  | .tagged t _ => t

def isBlock : Operand → Bool
  | .block .. => true
  | _ => false

end Operand

structure Step where
  stack : List Operand
  commands : List Command := []
  warnings : List CommandWarning := []

def genericArity : List (String × Nat) :=
  [("SETFORM", 1), ("SETLKF", 1), ("SETPAGEDEF", 1), ("SETPARAMS", 1), ("NEWFRAME", 0),
   ("PAGEBRK", 0), ("SKIPPAGE", 0), ("NEWFRONT", 0), ("NEWBACK", 0), ("INDEXFONT", 3),
   ("INDEXCOLOR", 2), ("INDEXBAT", 2), ("FOR", 0), ("ENDFOR", 0), ("BOOKMARK", 1),
   ("SETPAGENUMBER", 5), ("CLIP", 4), ("ENDCLIP", 0), ("GETINTV", 4), ("GETITEM", 2),
   ("SETUNIT", 1), ("SETLSP", 1), ("ORITL", 0), ("PORT", 0), ("LAND", 0), ("SETFTSW", 2),
   ("ADD", 0)]

def comparisons : List String := ["eq", "ne", "lt", "gt", "le", "ge"]

def specialWords : List String :=
  ["SH", "SHL", "SHR", "SHr", "SHC", "SHP", "MOVETO", "MOVEH", "NL", "SETVAR", "++", "--",
   "DRAWB", "SCALL", "ICALL", "CACHE", "XGFRESDEF", "IF", "ELSE", "ENDIF", "VSUB", "FORMAT"]
    ++ comparisons

def Token.isCommand (t : Token) : Bool :=
  (t.kind = .keyword || t.kind = .identifier || t.kind = .operator)
    && (specialWords.contains t.text || (genericArity.lookup t.text).isSome)

def units : List String := ["MM", "CM", "INCH", "POINT"]

def colorLetters : List String := ["R", "B", "W", "G", "C", "M", "Y", "K"]

/-- A number, also behind one more minus sign. -/
def isNumeric (text : String) : Bool :=
  let digits := (Text.stripPrefix? "-" text).getD text
  digits ≠ "" && (Decimal.read? digits).isSome

/-- Replaces the two operands of a comparison by the atom `left op right`. -/
def foldCondition (words : List String) : List String :=
  (words.foldl (fun stack word =>
    match comparisons.contains word, stack with
    | true, right :: left :: below => s!"{left} {word} {right}" :: below
    | _, _ => word :: stack) []).reverse

namespace Step

def pop (t : Token) (count : Nat) (stack : List Operand) (make : List String → List Command) :
    Step :=
  { stack := stack.drop count
    commands := make ((stack.take count).reverse.map (·.text))
    warnings :=
      if stack.length < count then [⟨t.pos, .tooFew t.text count stack.length⟩] else [] }

def emit (t : Token) (a : Action) : List Command := [.act t.pos a]

def output (keyword : String) : Option Operand → TextOutput
  | none => { keyword, source := "" }
  | some (.tagged text .interpolate) => { keyword, source := text, interpolate := true }
  | some (.tagged text (.picture p)) => { keyword, source := text, picture := some p }
  | some other => { keyword, source := other.text }

def noText (t : Token) (stack : List Operand) : List CommandWarning :=
  if stack.isEmpty then [⟨t.pos, .noText t.text⟩] else []

def showText (t : Token) (stack : List Operand) : Step :=
  { stack := stack.tail
    commands := emit t (.text (output t.text stack.head?))
    warnings := noText t stack }

/-- `text width align SHP`; an interpolated text has no width. -/
def showParagraph (t : Token) (stack : List Operand) : Step :=
  let below := stack.tail
  let (width, rest) := match below with
    | .tagged _ .interpolate :: _ => (none, below)
    | _ => (below.head?.map Operand.text, below.tail)
  let o := output "SHP" rest.head?
  { stack := rest.tail
    commands := emit t (.text { o with width, align := stack.head?.map Operand.text })
    warnings := noText t rest }

/-- `NL` takes a number from the stack, together with a minus sign before it. -/
def newLine (t : Token) (stack : List Operand) : Step :=
  match stack with
  | [] => { stack, commands := emit t (.newLine none) }
  | top :: below =>
    let number := top.text
    if !isNumeric number then { stack, commands := emit t (.newLine none) }
    else
      match below with
      | minus :: rest =>
        if minus.text = "-" && !Text.startsWith number "-" then
          { stack := rest, commands := emit t (.newLine (some ("-" ++ number))) }
        else { stack := below, commands := emit t (.newLine (some number)) }
      | [] => { stack := below, commands := emit t (.newLine (some number)) }

/-- `/name value [/INI] SETVAR` looks at the four topmost operands. -/
def setVar (t : Token) (stack : List Operand) : Step :=
  let params := (stack.take 4).reverse.map (·.text)
  let below := stack.drop 4
  match params.filter (· ≠ "/INI") with
  | target :: value :: _ =>
    { stack := below
      commands := emit t (.assign ⟨.set, target, some value, params.contains "/INI"⟩) }
  | _ => { stack := below, warnings := [⟨t.pos, .noAssignment⟩] }

/-- `(name) SCALL`, or `(name) scale SCALL`. -/
def resourceCall (t : Token) (stack : List Operand) : Step :=
  let kind := if t.text = "ICALL" then ResourceKind.image else .segment
  let call := fun (args : List String) (name : String) => emit t (.call ⟨kind, name, args⟩)
  match stack with
  | [] => pop t 1 stack fun _ => call [] ""
  | top :: .literal below :: rest =>
    if isNumeric top.text && Text.startsWith below "(" then
      { stack := rest, commands := call [top.text] below }
    else { stack := .literal below :: rest, commands := call [] top.text }
  | top :: rest => { stack := rest, commands := call [] top.text }

def bareName (text : String) : String :=
  let name := Text.dropLeading '/' text
  ((Text.stripPrefix? "(" name).bind (Text.stripSuffix? ")")).getD name

def definition (t : Token) (stack : List Operand) : Step :=
  match stack with
  | .block _ script :: name :: below =>
    { stack := below
      commands := [.define t.pos (bareName name.text) script.commands]
      warnings := script.warnings }
  | _ => { stack := stack.drop 2, warnings := [⟨t.pos, .noDefinition⟩] }

def splitBlock? : List Operand → Option (List Operand × Script × List Operand)
  | [] => none
  | .block _ script :: below => some ([], script, below)
  | top :: below => (splitBlock? below).map fun (above, s, rest) => (top :: above, s, rest)

/-- `condition block IF` takes the whole stack; the block last pushed is the body. -/
def postfixIf? (t : Token) (stack : List Operand) : Option Step :=
  (splitBlock? stack).map fun (above, script, below) =>
    { stack := []
      commands := [.ifBlock t.pos ((above ++ below).reverse.map (·.text)) script.commands]
      warnings := script.warnings }

def compare (word : String) : List Operand → List Operand
  | right :: left :: below => .literal s!"{left.text} {word} {right.text}" :: below
  | stack => .literal word :: stack

def generic (t : Token) (arity : Nat) (stack : List Operand) : Step :=
  pop t arity stack fun args => emit t (.generic t.text args)

def ofWord (t : Token) (stack : List Operand) : Step :=
  match t.text with
  | "SH" | "SHL" | "SHR" | "SHr" | "SHC" => showText t stack
  | "SHP" => showParagraph t stack
  | "MOVETO" =>
    pop t 2 stack fun args => emit t (.move (args.headD "") (some (args.tail.headD "")))
  | "MOVEH" => pop t 1 stack fun args => emit t (.move (args.headD "") none)
  | "NL" => newLine t stack
  | "SETVAR" => setVar t stack
  | "++" => pop t 1 stack fun args => emit t (.assign ⟨.increment, args.headD "", none, false⟩)
  | "--" => pop t 1 stack fun args => emit t (.assign ⟨.decrement, args.headD "", none, false⟩)
  | "DRAWB" => pop t 5 stack fun args => emit t (.box args)
  | "SCALL" | "ICALL" => resourceCall t stack
  | "XGFRESDEF" => definition t stack
  | "ENDIF" => { stack, commands := [.endIf t.pos] }
  | "VSUB" =>
    match stack with
    | [] => { stack }
    | top :: below => { stack := .tagged top.text .interpolate :: below }
  | "FORMAT" =>
    let pattern := (stack.head?.map Operand.text).getD ""
    let value := (stack.tail.head?.map Operand.text).getD ""
    { stack := .tagged value (.picture pattern) :: stack.drop 2 }
  | word =>
    if comparisons.contains word then { stack := compare word stack }
    else generic t ((genericArity.lookup word).getD 0) stack

/-- Identifiers that are no commands: short names starting with F select a font, single letters a
color, and all others are operands. -/
def ofIdentifier (t : Token) (stack : List Operand) : Step :=
  let upper := t.text.toUpper
  if units.contains upper then { stack := .literal t.text :: stack }
  else if t.text.utf8ByteSize ≤ 3 && Text.startsWith upper "F" && upper ≠ "FLD" then
    { stack, commands := emit t (.font t.text) }
  else if colorLetters.contains upper then { stack, commands := emit t (.color upper) }
  else { stack := .literal t.text :: stack }

end Step

end VippDocdef
