import VippDocdef.Document
import VippDocdef.Text.Blank
import VippDocdef.Token

/-! What the comments of a source say about it. -/

set_option autoImplicit false

namespace VippDocdef

def commentValue? (mark text : String) : Option String :=
  (Text.splitFirst? mark.toList text.toList).map fun (_, rest) => Text.trim (.ofList rest)

def headLength : Nat := 20

def Metadata.addComment (m : Metadata) (text : String) : Metadata :=
  match commentValue? "%%Title:" text with
  | some title => { m with title }
  | none =>
    match commentValue? "%%Creator:" text with
    | some creator => { m with creator }
    | none =>
      match commentValue? "%%CreationDate:" text with
      | some date => { m with creationDate := date }
      | none => m

/-- Title, creator and date as given by the comments among the first tokens; the last one counts. -/
def Metadata.ofTokens (ts : List Token) : Metadata :=
  (((ts.take headLength).filter (·.kind = .comment)).map (·.text)).foldl Metadata.addComment {}

/-- A text without the copies of `mark` in it; the first `skip` characters belong to one. -/
def eraseMark (mark : List Char) (skip : Nat) : List Char → List Char
  | [] => []
  | c :: cs =>
    match skip with
    | n + 1 => eraseMark mark n cs
    | 0 =>
      if mark.isPrefixOf (c :: cs) then eraseMark mark (mark.length - 1) cs
      else c :: eraseMark mark 0 cs

def declaredNames (text : String) : List String :=
  let line := Text.dropLeading ':' (Text.trim (.ofList (eraseMark "%%WIZVAR".toList 0 text.toList)))
  ((line.toList.splitOn ',').map fun part => Text.trim (.ofList part)).filter (· ≠ "")

def wizardNames : (inside : Bool) → List String → List String
  | _, [] => []
  | inside, text :: rest =>
    if Text.contains text "%%WIZVAR:BEGIN" then wizardNames true rest
    else if Text.contains text "%%WIZVAR:END" then wizardNames false rest
    else if inside && Text.contains text "%%WIZVAR" then
      declaredNames text ++ wizardNames inside rest
    else wizardNames inside rest

def declaredFields (ts : List Token) : List String × List String :=
  (wizardNames false ((ts.filter (·.kind = .comment)).map (·.text))).partition
    (Text.startsWith · "PREFIX")

end VippDocdef
