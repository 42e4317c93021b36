import VippDocdef.Aliases
import VippDocdef.Docdef.Palette
import VippDocdef.Docdef.Statement

/-! What the writer of a program knows and what it keeps track of. -/

set_option autoImplicit false

namespace VippDocdef.Docdef

structure Env where
  settings : Settings := {}
  project : Project := {}
  renames : Option RenameTable := none

namespace Env

def fontAlias (e : Env) (name : String) : String :=
  (match e.renames with
   | some table => table.font name
   | none => name).toUpper

def colorAlias (e : Env) (name : String) : String :=
  match e.renames with
  | some table => table.color name
  | none => name

def declaresColor (e : Env) (name : String) : Bool :=
  e.project.document.colors.contains name || e.project.forms.any (·.colors.contains name)

/-- The size of a font, in any letter case; of several definitions the last counts. -/
def fontSize? (e : Env) (font : String) : Option Float :=
  ((defaultFonts ++ e.project.fonts).reverse.find? (·.aliasName.toUpper = font.toUpper)).map
    (·.size)

def correction? (e : Env) (font : String) : Option String :=
  match e.fontSize? font with
  | some size =>
    if size ≤ 0 then none else (e.settings.calibration.band? size).map (·.variable)
  | none => none

end Env

structure Section where
  cursor : Cursor
  font : String
  color : Option String := none
  /-- The operands of `CACHE`, up to the next `SCALL`. -/
  cache : List String := []
  outlineOpen : Bool := false
  anchored : Bool := false

structure State where
  sec : Section
  /-- Subroutines that wait for a format of their own. -/
  waiting : List String := []
  /-- Subroutines that ever asked for one. -/
  requested : List String := []
  expanding : List String := []
  warnings : List String := []

namespace State

def freshSection (e : Env) (x y : Float) : Section :=
  ⟨⟨x, y, false, .same⟩, e.settings.layout.defaultFont, none, [], false, false⟩

def initial (e : Env) : State := { sec := freshSection e 0 0 }

def beginSection (s : State) (e : Env) (x y : Float) : State := { s with sec := freshSection e x y }

def withCursor (s : State) (f : Cursor → Cursor) : State :=
  { s with sec := { s.sec with cursor := f s.sec.cursor } }

def request (s : State) (name : String) : State :=
  if s.requested.contains name then s
  else { s with waiting := s.waiting ++ [name], requested := name :: s.requested }

def nextWaiting? (s : State) : Option (String × State) :=
  match s.waiting with
  | [] => none
  | name :: rest => some (name, { s with waiting := rest })

/-- Begins to expand a subroutine, unless it is being expanded. -/
def enter? (s : State) (name : String) : Option State :=
  if s.expanding.contains name then none else some { s with expanding := name :: s.expanding }

def leave (s : State) : State := { s with expanding := s.expanding.tail }

def warn (s : State) (message : String) : State := { s with warnings := s.warnings ++ [message] }

def openOutline (s : State) : State :=
  { s with sec := { s.sec with outlineOpen := true, anchored := false } }

def closeOutline (s : State) : State := { s with sec := { s.sec with outlineOpen := false } }

def correction? (s : State) (e : Env) : Option String := e.correction? s.sec.font

def place (s : State) (e : Env) : Place := s.sec.cursor.place (s.correction? e)

end State

structure Emission where
  block : Block
  state : State

namespace Emission

def quiet (s : State) : Emission := ⟨.done, s⟩

def one (st : Statement) (s : State) : Emission := ⟨.single st, s⟩

def many (ss : List Statement) (s : State) : Emission := ⟨.ofList ss, s⟩

end Emission

end VippDocdef.Docdef
