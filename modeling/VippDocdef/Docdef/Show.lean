import VippDocdef.Decimal.Reader
import VippDocdef.Docdef.FontSwitch
import VippDocdef.Docdef.Interpolation
import VippDocdef.Docdef.Picture
import VippDocdef.Docdef.State

/-! Show commands. A variable or a short literal is printed on one line; text in several fonts, in a
column, or too long for a line is set as a block. -/

set_option autoImplicit false

namespace VippDocdef.Docdef

def Alignment.ofCode? (code : String) : Option Alignment :=
  match ((Decimal.read? (Text.trim code)).map fun x => x.toInt64.toInt : Option Int) with
  | some 0 => some .left
  | some 1 => some .right
  | some 2 => some .center
  | some 3 => some .justify
  | _ => none

def alignment? (o : TextOutput) : Option Alignment :=
  match o.keyword with
  | "SHL" => some .left
  | "SHR" | "SHr" => some .right
  | "SHC" => some .center
  | "SHP" => o.align.bind Alignment.ofCode?
  | _ => none

def columnWidth? (o : TextOutput) : Option Float :=
  (o.width.bind fun w => Decimal.read? (Text.trim w)).filter (0 < ·)

def lineCapacity : Nat := 50

def needsBlock (text : String) (align : Option Alignment) : Bool :=
  lineCapacity < text.length || Text.contains text "**" || align = some .justify

namespace State

def output (s : State) (e : Env) (content : String) (align : Option Alignment) : Statement :=
  .output content s.sec.font (s.place e) s.sec.color align

def afterOutput (s : State) (block : Bool) : State := s.withCursor (·.afterOutput block)

def printLine (s : State) (e : Env) (content : String) (align : Option Alignment) : Emission :=
  .one (s.output e content align) (s.afterOutput false)

def printColumn (s : State) (e : Env) (items : String) (width : Float) (align : Option Alignment) :
    Emission :=
  .one (.column items s.sec.font (s.place e) width align) (s.afterOutput false)

/-- Text with font switches in it. Stretches of blanks are left out. -/
def printSwitched (s : State) (e : Env) (segments : List (String × String))
    (align : Option Alignment) : Emission :=
  let runs := (segments.filter fun (_, text) => Text.trim text ≠ "").map fun (font, text) =>
    (e.fontAlias font, textItems text)
  let place := s.place e
  let statement :=
    if align = some .right then
      .switchedRight runs { place with x := .keyword "LEFT-$MR_LEFT" }
        (if s.sec.cursor.xSet then some s.sec.cursor.x else none)
    else .switched runs place
  .one statement (s.afterOutput false)

def printPlain (s : State) (e : Env) (text : String) (align : Option Alignment) : Emission :=
  match interpolate? text with
  | some expression => s.printLine e expression align
  | none =>
    if needsBlock text align then
      .one (.baseline (chunks text) s.sec.font align) (s.afterOutput true)
    else s.printLine e (quote text) align

def withFont (s : State) (font : String) : State := { s with sec := { s.sec with font } }

/-- A literal. A single stretch of text next to a font switch is printed in its font, and the font
before it comes back. -/
def printLiteral (s : State) (e : Env) (text : String) (align : Option Alignment) : Emission :=
  match fontSegments s.sec.font text with
  | [] => s.printPlain e text align
  | [(font, segment)] =>
    if segment = text then s.printPlain e text align
    else
      let printed := (s.withFont (e.fontAlias font)).printPlain e segment align
      ⟨printed.block, printed.state.withFont s.sec.font⟩
  | segments => s.printSwitched e segments align

def variableExpression (name : String) (picture : Option String) : String :=
  match picture with
  | some p => "NUMPICTURE(" ++ name ++ "," ++ numPicture p ++ ")"
  | none => name

def emitText (s : State) (e : Env) (o : TextOutput) : Emission :=
  match Source.ofOperand? o.source, columnWidth? o with
  | none, _ => .quiet s
  | some (.variable name), some width =>
    s.printColumn e ("(" ++ variableExpression name o.picture ++ ")") width (alignment? o)
  | some (.variable name), none => s.printLine e (variableExpression name o.picture) (alignment? o)
  | some (.literal text), some width => s.printColumn e (textItems text) width (alignment? o)
  | some (.literal text), none => s.printLiteral e text (alignment? o)

end State

end VippDocdef.Docdef
