import VippDocdef.Docdef.Detector

/-! Lines of a program and how they are written. -/

set_option autoImplicit false

namespace VippDocdef.Docdef

/-- A line and how deep it is indented; an empty text is a blank line. -/
structure Line where
  depth : Nat
  text : String
  deriving DecidableEq, Repr

namespace Line

def blank : Line := ⟨0, ""⟩

def deeper (n : Nat) (l : Line) : Line := ⟨n + l.depth, l.text⟩

def indentation (n : Nat) : String := .ofList (List.replicate (4 * n) ' ')

def write (d : Detector) (l : Line) : String :=
  if l.text = "" then "" else indentation l.depth ++ d.sanitize l.text

@[simp] theorem deeper_zero (l : Line) : l.deeper 0 = l := by simp [deeper]

@[simp] theorem deeper_deeper (m n : Nat) (l : Line) :
    (l.deeper n).deeper m = l.deeper (m + n) := by
  simp [deeper, Nat.add_assoc]

end Line

def flush (texts : List String) : List Line := texts.map (⟨0, ·⟩)

def indented (lines : List Line) : List Line := lines.map (Line.deeper 1)

structure Listing where
  level : Nat := 0
  written : List String := []
  deriving DecidableEq, Repr

namespace Listing

def add (d : Detector) (l : Listing) (lines : List Line) : Listing :=
  { l with written := l.written ++ lines.map fun x => (x.deeper l.level).write d }

def indent (l : Listing) : Listing := { l with level := l.level + 1 }

def dedent (l : Listing) : Listing := { l with level := l.level - 1 }

theorem add_append (d : Detector) (l : Listing) (a b : List Line) :
    l.add d (a ++ b) = (l.add d a).add d b := by
  simp [add]

theorem dedent_add_indent (d : Detector) (l : Listing) (lines : List Line) :
    (l.indent.add d lines).dedent = l.add d (indented lines) := by
  simp [add, indent, dedent, indented]

def text (l : Listing) : String := "\n".intercalate l.written ++ "\n"

end Listing

end VippDocdef.Docdef
