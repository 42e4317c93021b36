import VippDocdef.Docdef.Walk
import VippDocdef.Document.RawSearch

/-! Formats of record types and of subroutines. -/

set_option autoImplicit false

namespace VippDocdef

def Action.needsFormat : Action → Bool
  | .text _ | .box _ | .call _ | .newLine _ | .move .. => true
  | .assign a =>
    match a.op with
    | .increment | .decrement => true
    | .set =>
      let value := a.value.getD ""
      value = "++" || value = "--" || value.toUpper = "PREFIX"
  | .generic name _ =>
    name ∈ ["SETLSP", "SETFORM", "SETPAGEDEF", "SETLKF", "GETINTV", "SUBSTR", "GETITEM"]
  | .font _ | .color _ => false

/-- Page control, which counts only together with a condition. -/
def Action.isPageControl : Action → Bool
  | .generic name _ => name ∈ ["PAGEBRK", "NEWFRAME", "ADD", "BOOKMARK"]
  | _ => false

def Command.isConditional : Command → Bool
  | .ifFlat .. | .ifBlock .. => true
  | _ => false

namespace Docdef

def needsFormat (commands : List Command) : Bool :=
  (Command.actions commands).any Action.needsFormat
    || (Command.walk commands).any Command.isConditional
      && (Command.actions commands).any Action.isPageControl

structure Written where
  lines : List Line
  state : State

structure Bodies where
  bodies : List (String × Block)
  state : State

def formatLines (name : String) (body : Block) : List Line :=
  flush [s!"DOCFORMAT {name};"] ++ indented body.lines ++ [.blank]

def Bodies.lines (b : Bodies) (formatOf : String → String) : List Line :=
  b.bodies.flatMap fun (key, body) => formatLines (formatOf key) body

def formatCases (d : Document) : List Case :=
  d.cases.filter fun c => !c.isDefault && needsFormat c.commands

def formatOfKey (key : String) : String := s!"DF_{key}"

def caseOrigin : Float × Float := (20, 40)

def caseBodies (e : Env) : List Case → State → Bodies
  | [], s => ⟨[], s⟩
  | c :: rest, s =>
    let body := (s.beginSection e caseOrigin.1 caseOrigin.2).emit e c.commands
    let others := caseBodies e rest body.state
    ⟨(c.key, body.block) :: others.bodies, others.state⟩

def caseFormats (e : Env) (s : State) : Written :=
  let cases := caseBodies e (formatCases e.project.document) s
  ⟨flush ["/* Individual DOCFORMAT sections for each record type */", ""] ++ cases.lines formatOfKey
    ++ flush ["/* END OF INDIVIDUAL DOCFORMATS */", ""], cases.state⟩

def registry (d : Document) : Table String :=
  Table.ofList ((formatCases d).map fun c => (c.key, formatOfKey c.key))

def formatOfRoutine (name : String) : String := s!"SR_{name}"

def routineBody (e : Env) (x y : Float) (name : String) (body : List Command) (s : State) :
    Emission :=
  let fresh := s.beginSection e x y
  let written := ((fresh.enter? name).getD fresh).emit e body
  ⟨written.block, written.state.leave⟩

/-- Bodies for the subroutines that wait, and for those that these ask for, up to some number. -/
def routineBodies (e : Env) (x y : Float) : (most : Nat) → State → Bodies
  | 0, s => ⟨[], s⟩
  | most + 1, s =>
    match s.nextWaiting? with
    | none => ⟨[], s⟩
    | some (name, s) =>
      match e.project.subroutine? name with
      | none => routineBodies e x y most s
      | some body =>
        let first := routineBody e x y name body s
        let others := routineBodies e x y most first.state
        ⟨(name, first.block) :: others.bodies, others.state⟩

/-- Each subroutine asks at most once, so their number bounds those that follow the ones that
wait. -/
def allRoutineBodies (e : Env) (x y : Float) (s : State) : Bodies :=
  routineBodies e x y (s.waiting.length + e.nesting) s

def routineFormats (e : Env) (x y : Float) (s : State) : Written :=
  let routines := allRoutineBodies e x y s
  ⟨if routines.bodies.isEmpty then []
    else routines.lines formatOfRoutine ++ flush ["/* END OF SUBROUTINE DOCFORMATS */", ""],
    routines.state⟩

def stubLines (key : String) : List Line :=
  [⟨0, s!"DOCFORMAT {formatOfKey key};"⟩, ⟨1, s!"/* {key} Prefix not found or commented out */"⟩,
   ⟨1, "/* Add implementation here */"⟩, ⟨0, "ENDFORMAT;"⟩, .blank]

/-- Formats for the record types that the source compares with and that have none. -/
def stubs (d : Document) (written : List String) : List Line :=
  let missing := (referencedPrefixes d.raw).filter fun key => !written.contains key
  if missing.isEmpty then []
  else
    flush ["/* Stub DOCFORMATs for undefined PREFIX cases */", ""] ++ missing.flatMap stubLines
      ++ flush ["/* END OF STUB DOCFORMATS */", ""]

end Docdef

end VippDocdef
