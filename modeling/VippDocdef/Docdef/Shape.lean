import VippDocdef.Decimal.Reader
import VippDocdef.Docdef.State

/-! Boxes and rules. `DRAWB` draws both; what is thin becomes a rule. -/

set_option autoImplicit false

namespace VippDocdef.Docdef

def boxThickness : Float := 1.0

def leastDimension : Float := 0.01

def hairline : Float := 0.1

def drawable (dimension : Float) : Float :=
  if leastDimension ≤ dimension then dimension else hairline

def thicknessOfWord (word : String) : Float :=
  match word with
  | "LTHN" => 0.1
  | "LTHK" => 0.5
  | _ => 0.2

def thickness (operand : String) : Float × String :=
  match Decimal.read? operand with
  | some value => (value, operand)
  | none => (thicknessOfWord operand, millimetres (thicknessOfWord operand))

def shade? (style : String) : Option Nat :=
  ([("S1", 100), ("S2", 75), ("S3", 50), ("S4", 25)].find? fun (mark, _) =>
    Text.contains style mark).map (·.2)

def lineType (style : String) : String :=
  if style = "LDSH" || style = "L_DSH" then "DASHED"
  else if style = "LDOT" || style = "L_DOT" then "DOTTED"
  else "SOLID"

def styleColor? (style : String) : Option String :=
  match style.toList.head? with
  | some 'S' => some "F"
  | some c => if c ∈ ['R', 'G', 'B', 'F'] then some (.ofList [c]) else none
  | none => none

def Env.stroke (e : Env) (style : String) : Stroke :=
  if e.declaresColor style then
    ⟨some (e.colorAlias style), some ((shade? style).getD 100), lineType style⟩
  else ⟨styleColor? style, shade? style, lineType style⟩

def defaultStyle : String := "R_S1"

def shape (e : Env) (x y length : Float) (thick : Float × String) (style : String) : Statement :=
  if boxThickness < thick.1 then
    .box x y.abs (drawable length) (drawable thick.1) (e.stroke style)
  else
    .rule x y.abs (drawable length) (decide (thick.1 ≤ drawable length)) thick.2 (e.stroke style)

def shape? (e : Env) (x y length thick style : String) : Option Statement := do
  let x ← Decimal.read? x
  let y ← Decimal.read? y
  let length ← Decimal.read? length
  return shape e x y length (thickness thick) style

/-- The first shape of an outline keeps the point that all are relative to. -/
def State.anchorStatements (s : State) : List Statement := if s.sec.anchored then [] else [.anchor]

def State.emitBox (s : State) (e : Env) (args : List String) : Emission :=
  match args with
  | x :: y :: length :: thick :: rest =>
    .many (s.anchorStatements ++ (shape? e x y length thick (rest.head?.getD defaultStyle)).toList)
      { s with sec := { s.sec with anchored := true } }
  | _ => .quiet s

end VippDocdef.Docdef
