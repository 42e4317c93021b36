/-! Places in a source text. -/

set_option autoImplicit false

namespace VippDocdef

/-- Line and column of a character, both counted from one; columns count characters. -/
structure Position where
  line : Nat := 1
  column : Nat := 1
  deriving DecidableEq, Repr

def Position.next (p : Position) (c : Char) : Position :=
  if c = '\n' then ⟨p.line + 1, 1⟩ else ⟨p.line, p.column + 1⟩

def Position.advance (p : Position) (cs : List Char) : Position := cs.foldl Position.next p

@[simp] theorem Position.advance_nil (p : Position) : p.advance [] = p := rfl

@[simp] theorem Position.advance_cons (p : Position) (c : Char) (cs : List Char) :
    p.advance (c :: cs) = (p.next c).advance cs := rfl

theorem Position.advance_append (p : Position) (cs ds : List Char) :
    p.advance (cs ++ ds) = (p.advance cs).advance ds := by
  simp [Position.advance, List.foldl_append]

def Position.note (p : Position) (message : String) : String :=
  s!"line {p.line}, column {p.column}: {message}"

end VippDocdef
