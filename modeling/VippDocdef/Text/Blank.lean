/-! White space in the sense of the Unicode property `White_Space`, and trimming by it. -/

set_option autoImplicit false

namespace VippDocdef.Text

/-- The code points of the property, as closed ranges in ascending order. -/
def blankRanges : List (Nat × Nat) :=
  [(0x9, 0xD), (0x20, 0x20), (0x85, 0x85), (0xA0, 0xA0), (0x1680, 0x1680), (0x2000, 0x200A),
   (0x2028, 0x2029), (0x202F, 0x202F), (0x205F, 0x205F), (0x3000, 0x3000)]

def isBlank (c : Char) : Bool :=
  blankRanges.any fun r => r.1 ≤ c.toNat && c.toNat ≤ r.2

theorem isBlank_space : isBlank ' ' = true := by decide

def dropEndWhile (p : Char → Bool) (cs : List Char) : List Char :=
  (cs.reverse.dropWhile p).reverse

def trim (s : String) : String := .ofList (dropEndWhile isBlank (s.toList.dropWhile isBlank))

/-- Drops every leading copy of one character, as in `//NAME`. -/
def dropLeading (c : Char) (s : String) : String := .ofList (s.toList.dropWhile (· == c))

def trimMatches (p : Char → Bool) (s : String) : String :=
  .ofList (dropEndWhile p (s.toList.dropWhile p))

end VippDocdef.Text
