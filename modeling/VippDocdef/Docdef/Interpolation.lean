import VippDocdef.Docdef.Term

/-! Markers `$$NAME.` inside literals. -/

set_option autoImplicit false

namespace VippDocdef.Docdef

inductive Piece where
  | literal (text : List Char)
  | variable (name : List Char)
  deriving DecidableEq, Repr

def isMarkerStart (c : Char) : Bool := c.isAlpha || c == '_'

def isMarkerChar (c : Char) : Bool := c.isAlphanum || c == '_'

def marker? : List Char → Option (List Char × List Char)
  | '$' :: '$' :: c :: cs =>
    if isMarkerStart c then
      match cs.dropWhile isMarkerChar with
      | '.' :: rest => some (c :: cs.takeWhile isMarkerChar, rest)
      | _ => none
    else none
  | _ => none

theorem length_of_marker? {cs name rest : List Char} (h : marker? cs = some (name, rest)) :
    rest.length < cs.length := by
  unfold marker? at h
  split at h
  · next c ds =>
    split at h
    · split at h
      · next r hr =>
        simp only [Option.some.injEq, Prod.mk.injEq] at h
        have hl : ('.' :: r).length ≤ ds.length := by
          rw [← hr]; exact (List.dropWhile_suffix _).length_le
        simp only [List.length_cons] at hl ⊢
        rw [← h.2]; omega
      · cases h
    · cases h
  · cases h

def Piece.cons (c : Char) : List Piece → List Piece
  | .literal text :: ps => .literal (c :: text) :: ps
  | ps => .literal [c] :: ps

def pieces : List Char → List Piece
  | [] => []
  | c :: cs =>
    match h : marker? (c :: cs) with
    | some (name, rest) =>
      have := length_of_marker? h
      .variable name :: pieces rest
    | none => Piece.cons c (pieces cs)
termination_by cs => cs.length
decreasing_by all_goals (simp only [List.length_cons] at *; omega)

def Piece.isVariable : Piece → Bool
  | .variable _ => true
  | .literal _ => false

/-- `'text' ! NAME ! 'text'`, if the text has a marker. -/
def interpolate? (s : String) : Option String :=
  let ps := pieces s.toList
  if ps.any Piece.isVariable then
    some (" ! ".intercalate (ps.map fun
      | .literal text => quote (.ofList text)
      | .variable name => .ofList name))
  else none

/-- The items of a text block: literals in quotes, variables in parentheses. -/
def textItems (s : String) : String :=
  " ".intercalate ((pieces s.toList).map fun
    | .literal text => quote (.ofList text)
    | .variable name => "(" ++ .ofList name ++ ")")

end VippDocdef.Docdef
