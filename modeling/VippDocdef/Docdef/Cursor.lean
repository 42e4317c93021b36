import VippDocdef.Decimal.Layout

/-! Positions on the page. VIPP keeps an absolute cursor in millimetres; a DocDEF position is either
an absolute value, corrected by the margins, or a word relative to the output before it. -/

set_option autoImplicit false

namespace VippDocdef.Docdef

def millimetres (x : Float) : String := Decimal.measured.text x

inductive Coordinate where
  | value (millimetres : Float)
  | keyword (word : String)

namespace Coordinate

def xClause : Coordinate → String
  | .value v => "(" ++ millimetres v ++ " MM-$MR_LEFT)"
  | .keyword word => "(" ++ word ++ ")"

/-- The vertical clause; the correction of the font applies to absolute values only. -/
def yClause (correction : Option String) : Coordinate → String
  | .value v =>
    match correction with
    | some c => "(" ++ millimetres v ++ " MM-$MR_TOP+" ++ c ++ ")"
    | none => "(" ++ millimetres v ++ " MM-$MR_TOP)"
  | .keyword word => "(" ++ word ++ ")"

end Coordinate

structure Place where
  x : Coordinate
  y : Coordinate
  correction : Option String := none

def Place.clause (p : Place) : String :=
  "POSITION " ++ p.x.xClause ++ " " ++ p.y.yClause p.correction

inductive Vertical where
  | explicit
  | same
  | next
  | afterText
  /-- On the next line, and back up by one line less than this. -/
  | back (lines : Nat)
  deriving DecidableEq, Repr

structure Cursor where
  x : Float
  y : Float
  xSet : Bool := false
  vertical : Vertical := .same

namespace Cursor

def ySet (c : Cursor) : Bool := c.vertical = .explicit

def moveTo (_ : Cursor) (x y : Float) : Cursor := ⟨x, y, true, .explicit⟩

def moveHorizontal (c : Cursor) (x : Float) : Cursor :=
  { c with x, xSet := true, vertical := .same }

def afterOutput (c : Cursor) (block : Bool) : Cursor :=
  { c with xSet := false, vertical := if block then .afterText else .next }

def afterNewLine (c : Cursor) : Cursor := { c with vertical := .next }

def backUp (c : Cursor) (lines : Nat) : Cursor := { c with vertical := .back lines }

def release (c : Cursor) : Cursor :=
  { c with xSet := false, vertical := if c.vertical = .explicit then .same else c.vertical }

def xCoordinate (c : Cursor) : Coordinate := if c.xSet then .value c.x else .keyword "SAME"

def yCoordinate (c : Cursor) : Coordinate :=
  match c.vertical with
  | .explicit => .value c.y
  | .same => .keyword "SAME"
  | .next | .back 0 | .back 1 => .keyword "NEXT"
  | .afterText => .keyword "LASTMAX+6 MM"
  | .back (n + 2) => .keyword s!"NEXT-($LINESP*#{n + 1})"

def place (c : Cursor) (correction : Option String) : Place :=
  ⟨c.xCoordinate, c.yCoordinate, correction⟩

end Cursor

end VippDocdef.Docdef
