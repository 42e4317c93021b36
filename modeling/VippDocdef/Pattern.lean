import VippDocdef.Text.Blank
import VippDocdef.Text.Fold
import VippDocdef.Text.Word

/-! Patterns: regular expressions with anchors and word boundaries. A text has a match if some
stretch of it, read with the characters around it, belongs to the pattern. -/

set_option autoImplicit false

namespace VippDocdef

inductive CharSet where
  | ranges (rs : List (Nat × Nat))
  | digit
  | space
  | word
  | complement (s : CharSet)
  | union (s t : CharSet)
  | intersection (s t : CharSet)
  | difference (s t : CharSet)
  | symmetricDifference (s t : CharSet)
  | anyCase (s : CharSet)
  deriving DecidableEq, Repr

namespace CharSet

def mem : CharSet → Char → Bool
  | .ranges rs, c => Text.inRanges rs c.toNat
  | .digit, c => Text.isDecimalDigit c
  | .space, c => Text.isBlank c
  | .word, c => Text.isWordChar c
  | .complement s, c => !s.mem c
  | .union s t, c => s.mem c || t.mem c
  | .intersection s t, c => s.mem c && t.mem c
  | .difference s t, c => s.mem c && !t.mem c
  | .symmetricDifference s t, c => s.mem c != t.mem c
  | .anyCase s, c => (Text.caseVariants c.toNat).any fun n => s.mem (Char.ofNat n)

def single (c : Char) : CharSet := .ranges [(c.toNat, c.toNat)]

def none : CharSet := .ranges []

end CharSet

inductive Anchor where
  | textStart
  | textEnd
  | lineStart
  | lineEnd
  | wordBoundary
  | noWordBoundary
  | wordStart
  | wordEnd
  | wordStartHalf
  | wordEndHalf
  deriving DecidableEq, Repr

/-- Whether an anchor holds between two characters; there is none at the ends of a text. -/
def Anchor.holds (a : Anchor) (before after : Option Char) : Bool :=
  let left := (before.map Text.isWordChar).getD false
  let right := (after.map Text.isWordChar).getD false
  match a with
  | .textStart => before.isNone
  | .textEnd => after.isNone
  | .lineStart => before.isNone || before = some '\n'
  | .lineEnd => after.isNone || after = some '\n'
  | .wordBoundary => left != right
  | .noWordBoundary => left == right
  | .wordStart => !left && right
  | .wordEnd => left && !right
  | .wordStartHalf => !left
  | .wordEndHalf => !right

inductive Pattern where
  | empty
  | char (s : CharSet)
  | anchor (a : Anchor)
  | seq (p q : Pattern)
  | alt (p q : Pattern)
  | star (p : Pattern)
  deriving DecidableEq, Repr

namespace Pattern

def nullable (before after : Option Char) : Pattern → Bool
  | .empty => true
  | .char _ => false
  | .anchor a => a.holds before after
  | .seq p q => p.nullable before after && q.nullable before after
  | .alt p q => p.nullable before after || q.nullable before after
  | .star _ => true

def followedBy (p q : Pattern) : Pattern :=
  match p with
  | .empty => q
  | _ => .seq p q

/-- What may follow the character `c` in a stretch that starts with it. -/
def rests (before : Option Char) (c : Char) : Pattern → List Pattern
  | .empty => []
  | .char s => if s.mem c then [.empty] else []
  | .anchor _ => []
  | .seq p q =>
    (p.rests before c).map (·.followedBy q)
      ++ (if p.nullable before (some c) then q.rests before c else [])
  | .alt p q => p.rests before c ++ q.rests before c
  | .star p => (p.rests before c).map (·.followedBy (.star p))

/-- Whether a match of `p` starts here or later, or one that has begun with some of `live` ends. -/
def matchFrom (p : Pattern) (before : Option Char) (live : List Pattern) : List Char → Bool
  | [] => (p :: live).any (·.nullable before none)
  | c :: cs =>
    (p :: live).any (·.nullable before (some c))
      || matchFrom p (some c) ((p :: live).flatMap (·.rests before c)).eraseDups cs

def isMatch (p : Pattern) (text : String) : Bool := matchFrom p none [] text.toList

end Pattern

end VippDocdef
