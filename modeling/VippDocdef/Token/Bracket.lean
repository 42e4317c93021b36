import VippDocdef.Token

/-! Bracketed stretches of a token list. Only delimiters of the opening kind and its partner count,
so brackets inside literals and comments, and those of the other kind, are inert. -/

set_option autoImplicit false

namespace VippDocdef

def closingOf (opening : String) : String := if opening = "[" then "]" else "\x7d"

def closingIndex? (opening : String) : (depth : Nat) → List Token → Option Nat
  | _, [] => none
  | depth, t :: ts =>
    if t.isDelimiter opening then (closingIndex? opening (depth + 1) ts).map (· + 1)
    else if t.isDelimiter (closingOf opening) then
      match depth with
      | 0 => some 0
      | d + 1 => (closingIndex? opening d ts).map (· + 1)
    else (closingIndex? opening depth ts).map (· + 1)

/-- The tokens inside a bracket that `opening` has just opened, and those behind its end. A bracket
that is never closed takes all. -/
def splitBracket (opening : String) (ts : List Token) : List Token × List Token :=
  match closingIndex? opening 0 ts with
  | some n => (ts.take n, ts.drop (n + 1))
  | none => (ts, [])

theorem length_splitBracket_fst (opening : String) (ts : List Token) :
    (splitBracket opening ts).1.length ≤ ts.length := by
  unfold splitBracket
  split
  · exact List.length_take_le' _ _
  · exact Nat.le_refl _

theorem length_splitBracket_snd (opening : String) (ts : List Token) :
    (splitBracket opening ts).2.length ≤ ts.length := by
  unfold splitBracket
  split <;> simp

def bracketEnd (ts : List Token) (start : Nat) : Nat :=
  match ts.drop start with
  | [] => ts.length
  | t :: rest =>
    match closingIndex? t.text 0 rest with
    | some n => start + 1 + n
    | none => ts.length

end VippDocdef
