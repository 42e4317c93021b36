import VippDocdef.Text.Blank

/-! Cutting long literals into lines. -/

set_option autoImplicit false

namespace VippDocdef.Docdef

def chunkWidth : Nat := 70

def lastSpace? (cs : List Char) : Option Nat :=
  match cs.reverse.dropWhile (· != ' ') with
  | [] => none
  | _ :: before => some before.length

/-- Where a line that is too long is cut: at its last space, unless that is its first character, and
else at its full width. -/
def cutAt (cs : List Char) : Nat :=
  match lastSpace? (cs.take chunkWidth) with
  | some (n + 1) => n + 1
  | _ => chunkWidth

theorem cutAt_pos (cs : List Char) : 0 < cutAt cs := by
  unfold cutAt
  split
  · omega
  · decide

/-- The lines of a text that is not empty; blanks at a cut are dropped. -/
def chunkLines (cs : List Char) : List (List Char) :=
  if _h : chunkWidth < cs.length then
    cs.take (cutAt cs) :: chunkLines ((cs.drop (cutAt cs)).dropWhile Text.isBlank)
  else if cs.isEmpty then [] else [cs]
termination_by cs.length
decreasing_by
  have h1 : ((cs.drop (cutAt cs)).dropWhile Text.isBlank).length ≤ (cs.drop (cutAt cs)).length :=
    (List.dropWhile_suffix _).length_le
  have h2 := cutAt_pos cs
  simp only [List.length_drop] at h1
  omega

def chunks (s : String) : List String :=
  if s = "" then [""] else (chunkLines s.toList).map .ofList

end VippDocdef.Docdef
