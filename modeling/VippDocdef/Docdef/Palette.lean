import VippDocdef.Document

/-! Fonts and colors of the target. -/

set_option autoImplicit false

namespace VippDocdef.Docdef

def fontFace (name : String) : String :=
  match name with
  | "ARIAL" => "Arial"
  | "ARIALB" => "Arial Bold"
  | "ARIALO" => "Arial Italic"
  | "ARIALBO" => "Arial Bold Italic"
  | "COURIER" => "Courier New"
  | "COURIERB" => "Courier New Bold"
  | "COURIERO" => "Courier New Italic"
  | "COURIERBO" => "Courier New Bold Italic"
  | "HELVETICA" | "HELVE" => "Helvetica"
  | "HELVEB" => "Helvetica Bold"
  | "TIMES" => "Times New Roman"
  | "TIMESB" => "Times New Roman Bold"
  | "TIMESI" => "Times New Roman Italic"
  | "TIMESBI" => "Times New Roman Bold Italic"
  | other => other

structure Rgb where
  red : Nat
  green : Nat
  blue : Nat
  deriving DecidableEq, Repr

def colorRgb (name : String) : Rgb :=
  match name with
  | "WHITE" => ⟨255, 255, 255⟩
  | "RED" => ⟨255, 0, 0⟩
  | "GREEN" => ⟨0, 255, 0⟩
  | "BLUE" => ⟨0, 0, 255⟩
  | "YELLOW" => ⟨255, 255, 0⟩
  | "CYAN" => ⟨0, 255, 255⟩
  | "MAGENTA" => ⟨255, 0, 255⟩
  | "ORANGE" => ⟨255, 165, 0⟩
  | "GRAY" => ⟨128, 128, 128⟩
  | "LIGHTGRAY" => ⟨192, 192, 192⟩
  | "DARKGRAY" => ⟨64, 64, 64⟩
  | "LMED" | "MED" => ⟨217, 217, 217⟩
  | "XDRK" => ⟨166, 166, 166⟩
  | _ => ⟨0, 0, 0⟩

def defaultFonts : List FontDef :=
  [⟨"ARIAL06", "Arial", 6.0⟩, ⟨"ARIAL08", "Arial", 8.0⟩, ⟨"ARIAL10", "Arial", 10.0⟩,
   ⟨"ARIAL12", "Arial", 12.0⟩, ⟨"COURIER08", "Courier New", 8.0⟩,
   ⟨"COURIER10", "Courier New", 10.0⟩]

def requiredColors : List String := ["FBLACK", "LMED", "MED", "XDRK"]

end VippDocdef.Docdef
