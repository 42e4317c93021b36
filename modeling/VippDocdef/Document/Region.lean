import VippDocdef.Document
import VippDocdef.Docdef.Term
import VippDocdef.Token.Bracket

/-! The case region of a document: from `CASE PREFIX` to `ENDCASE`, each record type has a label and
a block. -/

set_option autoImplicit false

namespace VippDocdef

structure Regions where
  outside : List Token := []
  unlabeled : List (List Token) := []
  labeled : List (String × List Token) := []
  deriving Repr

/-- A parenthesised literal without spaces and dots names a record type. -/
def Token.caseLabel? (t : Token) : Option String :=
  if t.kind = .literal then
    (Docdef.unparen? t.text).filter fun inner =>
      !inner.toList.contains ' ' && !inner.toList.contains '.'
  else none

def afterBrace? : List Token → Option (List Token)
  | [] => none
  | t :: ts => if t.isDelimiter "\x7b" then some ts else afterBrace? ts

theorem length_of_afterBrace? {ts rest : List Token} (h : afterBrace? ts = some rest) :
    rest.length < ts.length := by
  induction ts with
  | nil => simp [afterBrace?] at h
  | cons t ts ih =>
    simp only [afterBrace?] at h
    split at h
    · simp only [Option.some.injEq] at h
      subst h; simp
    · have := ih h
      simp only [List.length_cons]; omega

inductive RegionStep where
  | leave
  | label (key : String)
  | brace
  | skip
  deriving DecidableEq, Repr

def RegionStep.ofToken (t : Token) : RegionStep :=
  if t.isWord "ENDCASE" then .leave
  else
    match t.caseLabel? with
    | some key => .label key
    | none => if t.isDelimiter "\x7b" then .brace else .skip

def opensRegion : List Token → Bool
  | t :: u :: _ => t.isWord "CASE" && u.isWord "PREFIX"
  | _ => false

def isEmptyBlock : List Token → Bool
  | t :: _ => t.isDelimiter "\x7d"
  | [] => false

/-- Separates the case regions from the rest of a document. The block of a label is the next one,
whatever stands before it. -/
def Regions.read (inside : Bool) : List Token → Regions
  | [] => {}
  | t :: rest =>
    if !inside then
      if opensRegion (t :: rest) then Regions.read true rest.tail
      else
        let r := Regions.read false rest
        { r with outside := t :: r.outside }
    else
      match RegionStep.ofToken t with
      | .leave => Regions.read false rest
      | .skip => Regions.read true rest
      | .label key =>
        match h : afterBrace? rest with
        | some body =>
          have := length_of_afterBrace? h
          have := length_splitBracket_snd "\x7b" body
          let split := splitBracket "\x7b" body
          let r := Regions.read true split.2
          { r with labeled := (key, split.1) :: r.labeled }
        | none => { labeled := [(key, [])] }
      | .brace =>
        if isEmptyBlock rest then
          let r := Regions.read true rest.tail
          { r with labeled := (defaultKey, []) :: r.labeled }
        else
          have := length_splitBracket_snd "\x7b" rest
          let split := splitBracket "\x7b" rest
          let r := Regions.read true split.2
          { r with unlabeled := split.1 :: r.unlabeled }
termination_by ts => ts.length
decreasing_by all_goals simp only [List.length_cons, List.length_tail]; omega

def Regions.ofTokens (ts : List Token) : Regions := Regions.read false ts

end VippDocdef
