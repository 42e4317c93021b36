import VippDocdef.Files.Store
import VippDocdef.Text.Blank

/-! Wildcards in paths. A pattern is matched part by part: `**` stands for any number of
directories, and in the other parts `*`, `?` and sets in brackets stand for characters. -/

set_option autoImplicit false

namespace VippDocdef.Glob

inductive Member where
  | single (c : Char)
  | range (low high : Char)
  deriving DecidableEq, Repr

inductive Wildcard where
  | char (c : Char)
  | any
  | within (members : List Member)
  | except (members : List Member)
  | sequence
  deriving DecidableEq, Repr

inductive Part where
  | directories
  | name (wildcards : List Wildcard)
  deriving DecidableEq, Repr

def members : List Char → List Member
  | low :: '-' :: high :: rest => .range low high :: members rest
  | c :: rest => .single c :: members rest
  | [] => []

def bracketed? : List Char → Option (List Char × List Char)
  | first :: rest =>
    match rest.dropWhile (· != ']') with
    | _ :: more => some (first :: rest.takeWhile (· != ']'), more)
    | [] => none
  | [] => none

/-- The wildcards of a part. A star does not follow another. -/
def wildcards? : (fuel : Nat) → List Char → Option (List Wildcard)
  | _, [] => some []
  | 0, _ => none
  | fuel + 1, c :: rest =>
    match c with
    | '?' => (wildcards? fuel rest).map (.any :: ·)
    | '*' => if rest.head? = some '*' then none else (wildcards? fuel rest).map (.sequence :: ·)
    | '[' =>
      match rest with
      | '!' :: inner =>
        match bracketed? inner with
        | some (set, more) => (wildcards? fuel more).map (.except (members set) :: ·)
        | none => none
      | _ =>
        match bracketed? rest with
        | some (set, more) => (wildcards? fuel more).map (.within (members set) :: ·)
        | none => none
    | _ => (wildcards? fuel rest).map (.char c :: ·)

def Part.ofText? (text : String) : Option Part :=
  if text = "**" then some .directories else (wildcards? text.length text.toList).map .name

structure Pattern where
  absolute : Bool
  parts : List Part
  directoryOnly : Bool
  deriving DecidableEq, Repr

def splitParts (text : String) : List String :=
  let parts := (text.toList.splitOn '/').map String.ofList
  if parts.getLast? = some "" then parts.dropLast else parts

def Pattern.parse? (text : String) : Option Pattern := do
  let absolute := Text.startsWith text "/"
  let body := if absolute then Text.dropLeading '/' text else text
  let parts ← (splitParts body).mapM Part.ofText?
  return ⟨absolute, parts, Text.endsWith text "/"⟩

/-- A text that matches itself only. -/
def escape (text : String) : String :=
  .ofList (text.toList.flatMap fun c => if c ∈ ['?', '*', '[', ']'] then ['[', c, ']'] else [c])

def isAscii (c : Char) : Bool := c.toNat < 128

/-- Equality of characters; without regard to case only in ASCII. -/
def sameChar (anyCase : Bool) (a b : Char) : Bool :=
  if anyCase && isAscii a && isAscii b then a.toLower = b.toLower else a = b

def Member.admits (anyCase : Bool) (c : Char) : Member → Bool
  | .single d => sameChar anyCase c d
  | .range low high =>
    (anyCase && isAscii c && isAscii low && isAscii high && low.isAlpha && high.isAlpha
        && low.toLower ≤ c.toLower && c.toLower ≤ high.toLower)
      || (low ≤ c && c ≤ high)

def Wildcard.admits (anyCase : Bool) (c : Char) : Wildcard → Bool
  | .char d => sameChar anyCase c d
  | .any | .sequence => true
  | .within ms => ms.any (·.admits anyCase c)
  | .except ms => !ms.any (·.admits anyCase c)

def matchesName (anyCase : Bool) : List Wildcard → List Char → Bool
  | [], [] => true
  | [], _ :: _ => false
  | .sequence :: ws, [] => matchesName anyCase ws []
  | .sequence :: ws, c :: cs =>
    matchesName anyCase ws (c :: cs) || matchesName anyCase (.sequence :: ws) cs
  | _ :: _, [] => false
  | w :: ws, c :: cs => w.admits anyCase c && matchesName anyCase ws cs
termination_by ws cs => ws.length + cs.length

def Part.literal? : Part → Option String
  | .directories => none
  | .name ws =>
    (ws.mapM fun
      | Wildcard.char c => some c
      | _ => none).map .ofList

def Part.matchesText (anyCase : Bool) (text : String) : Part → Bool
  | .directories => false
  | .name ws => matchesName anyCase ws text.toList

abbrev Search := List Part → Path → List Path

def isHere (p : Path) : Bool := p.same ⟨"."⟩

/-- A path one level down; the working directory itself is not spelled. -/
def below (p : Path) (name : String) : Path := if isHere p then ⟨name⟩ else p.join ⟨name⟩

structure Query where
  store : Store
  anyCase : Bool := false
  directoryOnly : Bool := false

namespace Query

def accept (q : Query) (p : Path) : List Path :=
  if q.directoryOnly && !q.store.isDirectory p then [] else [p]

def advance (q : Query) (search : Search) (rest : List Part) (p : Path) : List Path :=
  if rest.isEmpty then q.accept p else search rest p

def tryName (q : Query) (search : Search) (parts : List Part) (p : Path) : List Path :=
  match parts with
  | [] => []
  | part :: rest => if part.matchesText q.anyCase p.fileName then q.advance search rest p else []

/-- A name in a directory; under `**` it matches what follows, and the search goes on below it. -/
def visit (q : Query) (search : Search) (parts : List Part) (p : Path) : List Path :=
  match parts with
  | .directories :: rest =>
    let rest := rest.dropWhile (· = .directories)
    if q.store.isDirectory p then
      (if rest.isEmpty then [p] else q.tryName search rest p) ++ search (.directories :: rest) p
    else q.tryName search rest p
  | _ => q.tryName search parts p

/-- The entries `.` and `..` match a part only if it begins with a dot. -/
def specialNames (q : Query) : Part → List String
  | .name (.char '.' :: ws) =>
    [".", ".."].filter fun name => matchesName q.anyCase (.char '.' :: ws) name.toList
  | _ => []

/-- Searches below a path. A part without wildcards is looked up, the others go through the
directory. -/
def search (q : Query) : (fuel : Nat) → Search
  | 0, _, _ | _, [], _ => []
  | fuel + 1, part :: rest, p =>
    match part.literal? with
    | some name =>
      let next := below p name
      let found :=
        if name = "." || name = ".." then q.store.isDirectory p else q.store.contains next
      if found then q.advance (q.search fuel) rest next else []
    | none =>
      match q.store.list p with
      | .ok names =>
        ((q.specialNames part).flatMap fun name => q.advance (q.search fuel) rest (p.join ⟨name⟩))
          ++ names.flatMap fun name => q.visit (q.search fuel) (part :: rest) (below p name)
      | .error _ => []

end Query

def find? (s : Store) (anyCase : Bool) (text : String) : Option (List Path) :=
  (Pattern.parse? text).map fun pattern =>
    let q : Query := ⟨s, anyCase, pattern.directoryOnly⟩
    q.search ((pattern.parts.length + 1) * (s.entries.length + 2)) pattern.parts
      ⟨if pattern.absolute then "/" else "."⟩

end VippDocdef.Glob
