import VippDocdef.Position

/-! VIPP commands. A command either acts on the page or the data, or shapes control flow; branches
come in a block form, which owns its commands, and in a flat form, whose commands follow as
siblings. -/

set_option autoImplicit false

namespace VippDocdef

inductive AssignOp where
  | set
  | increment
  | decrement
  deriving DecidableEq, Repr

structure Assignment where
  op : AssignOp
  target : String
  value : Option String
  /-- Marked `/INI`: assigned once, before the first document. -/
  initial : Bool
  deriving DecidableEq, Repr

structure TextOutput where
  keyword : String
  source : String
  interpolate : Bool := false
  picture : Option String := none
  width : Option String := none
  align : Option String := none
  deriving DecidableEq, Repr

inductive ResourceKind where
  | segment
  | image
  deriving DecidableEq, Repr

structure ResourceCall where
  kind : ResourceKind
  name : String
  args : List String
  deriving DecidableEq, Repr

inductive Action where
  | assign (assignment : Assignment)
  | text (output : TextOutput)
  | call (call : ResourceCall)
  | move (x : String) (y : Option String)
  | newLine (amount : Option String)
  | box (args : List String)
  | font (name : String)
  | color (name : String)
  | generic (name : String) (args : List String)
  deriving DecidableEq, Repr

namespace Action

def name : Action → String
  | .assign a =>
    match a.op with
    | .set => "SETVAR"
    | .increment => "++"
    | .decrement => "--"
  | .text o => o.keyword
  | .call c =>
    match c.kind with
    | .segment => "SCALL"
    | .image => "ICALL"
  | .move _ (some _) => "MOVETO"
  | .move _ none => "MOVEH"
  | .newLine _ => "NL"
  | .box _ => "DRAWB"
  | .font _ => "SETFONT"
  | .color _ => "SETCOLOR"
  | .generic name _ => name

/-- Whether the action needs an open outline: it puts something onto the page, or sets the line
spacing of what follows. -/
def isOutput : Action → Bool
  | .text _ | .newLine _ | .box _ | .call _ => true
  | .generic name _ => name = "SETLSP"
  | .assign _ | .move .. | .font _ | .color _ => false

end Action

inductive Command where
  | act (pos : Position) (action : Action)
  /-- A condition over the siblings up to the matching `ENDIF`. -/
  | ifFlat (pos : Position) (condition : List String)
  | ifBlock (pos : Position) (condition : List String) (body : List Command)
  | elseFlat (pos : Position)
  | elseBlock (pos : Position) (body : List Command)
  | endIf (pos : Position)
  | define (pos : Position) (name : String) (body : List Command)

namespace Command

def pos : Command → Position
  | .act p _ | .ifFlat p _ | .ifBlock p _ _ | .elseFlat p | .elseBlock p _ | .endIf p
  | .define p _ _ => p

def name : Command → String
  | .act _ a => a.name
  | .ifFlat .. | .ifBlock .. => "IF"
  | .elseFlat _ | .elseBlock .. => "ELSE"
  | .endIf _ => "ENDIF"
  | .define .. => "XGFRESDEF"

def isOutput : Command → Bool
  | .act _ a => a.isOutput
  | _ => false

def body : Command → List Command
  | .ifBlock _ _ b | .elseBlock _ b | .define _ _ b => b
  | _ => []

mutual

def within : Command → List Command
  | .ifBlock p c b => .ifBlock p c b :: walk b
  | .elseBlock p b => .elseBlock p b :: walk b
  | .define p n b => .define p n b :: walk b
  | .act p a => [.act p a]
  | .ifFlat p c => [.ifFlat p c]
  | .elseFlat p => [.elseFlat p]
  | .endIf p => [.endIf p]

def walk : List Command → List Command
  | [] => []
  | c :: cs => within c ++ walk cs

end

def actions (cs : List Command) : List Action :=
  (walk cs).filterMap fun
    | .act _ a => some a
    | _ => none

end Command

end VippDocdef
