import VippDocdef.Text.Cut

/-! File paths. A path keeps the text it was written with; parts that are empty or a dot do not
count, except for a dot in front. -/

set_option autoImplicit false

namespace VippDocdef

structure Path where
  text : String
  deriving DecidableEq, Repr

namespace Path

inductive Part where
  | root
  | here
  | up
  | name (text : String)
  deriving DecidableEq, Repr

def slashParts (p : Path) : List String := (p.text.toList.splitOn '/').map .ofList

def isAbsolute (p : Path) : Bool := Text.startsWith p.text "/"

def Part.ofText? (text : String) : Option Part :=
  if text = "" || text = "." then none
  else if text = ".." then some .up
  else some (.name text)

def parts (p : Path) : List Part :=
  let body := p.slashParts.filterMap Part.ofText?
  if p.isAbsolute then .root :: body
  else if p.slashParts.head? = some "." then .here :: body
  else body

def fileName? (p : Path) : Option String :=
  match p.parts.getLast? with
  | some (.name text) => some text
  | _ => none

def fileName (p : Path) : String := p.fileName?.getD ""

def splitName (name : String) : String × Option String :=
  match Text.splitLast? '.' name with
  | some (stem, extension) => if stem = "" then (name, none) else (stem, some extension)
  | none => (name, none)

def stem (p : Path) : String := ((p.fileName?.map splitName).map (·.1)).getD ""

def extension? (p : Path) : Option String := (p.fileName?.map splitName).bind (·.2)

/-- Drops parts that do not count from the end of a path, here its head; one part always stays. -/
def dropVoid : List String → List String
  | [] => []
  | [p] => [p]
  | p :: q :: ps => if p = "" || p = "." then dropVoid (q :: ps) else p :: q :: ps

/-- The path without its last part; the root and the empty path have none. -/
def parent? (p : Path) : Option Path :=
  match p.parts.getLast? with
  | none | some .root => none
  | some _ =>
    let before := dropVoid (dropVoid p.slashParts.reverse).tail
    let text := "/".intercalate before.reverse
    some ⟨if text = "" && p.isAbsolute then "/" else text⟩

/-- The directory a file is in; a bare name is in the directory `.`. -/
def directory (p : Path) : Path :=
  match p.parent? with
  | some ⟨""⟩ | none => ⟨"."⟩
  | some d => d

/-- `p` with `q` behind it; an absolute `q` stands for itself. -/
def join (p q : Path) : Path :=
  if q.isAbsolute then q
  else if p.text = "" || Text.endsWith p.text "/" then ⟨p.text ++ q.text⟩
  else ⟨p.text ++ "/" ++ q.text⟩

def Part.rank : Part → Nat
  | .root => 0
  | .here => 1
  | .up => 2
  | .name _ => 3

def Part.lt : Part → Part → Bool
  | .name a, .name b => a < b
  | a, b => a.rank < b.rank

def partsLt : List Part → List Part → Bool
  | _, [] => false
  | [], _ :: _ => true
  | a :: as, b :: bs => if a.lt b then true else if b.lt a then false else partsLt as bs

def le (p q : Path) : Bool := !partsLt q.parts p.parts

def same (p q : Path) : Bool := p.parts = q.parts

end Path

end VippDocdef
