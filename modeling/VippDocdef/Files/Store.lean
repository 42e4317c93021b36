import VippDocdef.Files.Path

/-! Files as values. A store knows every file and directory by its location, the list of names that
leads to it from the root; a path is followed part by part. A file may be locked, to readers and
writers alike, and every directory can be listed and written to. There are no links: a location is
reached in one way only, and what is written at one location is read at no other. -/

set_option autoImplicit false

namespace VippDocdef

inductive FileError where
  | notFound
  | exists
  | notDirectory
  | isDirectory
  | denied
  | notText
  deriving DecidableEq, Repr

def FileError.message : FileError → String
  | .notFound => "No such file or directory (os error 2)"
  | .exists => "File exists (os error 17)"
  | .notDirectory => "Not a directory (os error 20)"
  | .isDirectory => "Is a directory (os error 21)"
  | .denied => "Permission denied (os error 13)"
  | .notText => "stream did not contain valid UTF-8"

inductive Entry where
  | directory
  | file (content : ByteArray)
  /-- A file that can be neither read nor written. -/
  | locked

abbrev Location := List String

structure Store where
  entries : List (Location × Entry) := []
  here : Location := []

namespace Store

def findEntry (l : Location) : List (Location × Entry) → Option Entry
  | [] => none
  | (k, e) :: rest => if k = l then some e else findEntry l rest

def get? (s : Store) (l : Location) : Option Entry :=
  if l = [] then some .directory else findEntry l s.entries

def putEntry (l : Location) (e : Entry) : List (Location × Entry) → List (Location × Entry)
  | [] => [(l, e)]
  | (k, old) :: rest => if k = l then (k, e) :: rest else (k, old) :: putEntry l e rest

def put (s : Store) (l : Location) (e : Entry) : Store :=
  { s with entries := putEntry l e s.entries }

theorem findEntry_putEntry_self (l : Location) (e : Entry) (es : List (Location × Entry)) :
    findEntry l (putEntry l e es) = some e := by
  induction es with
  | nil => simp [putEntry, findEntry]
  | cons x rest ih =>
    simp only [putEntry]
    split
    · next h => simp [findEntry, h]
    · next h => simp [findEntry, h, ih]

theorem findEntry_putEntry_ne {l m : Location} (h : m ≠ l) (e : Entry)
    (es : List (Location × Entry)) :
    findEntry m (putEntry l e es) = findEntry m es := by
  induction es with
  | nil => simp [putEntry, findEntry, Ne.symm h]
  | cons x rest ih =>
    simp only [putEntry]
    split
    · next hk => simp [findEntry, hk, Ne.symm h]
    · simp [findEntry, ih]

theorem get?_put_ne (s : Store) {l m : Location} (h : m ≠ l) (e : Entry) :
    (s.put l e).get? m = s.get? m := by
  unfold get? put
  split
  · rfl
  · exact findEntry_putEntry_ne h e s.entries

def childName? (dir : Location) (l : Location) : Option String :=
  match dir.isPrefixOf? l with
  | some [name] => some name
  | _ => none

def children (s : Store) (dir : Location) : List String :=
  (s.entries.filterMap fun (l, _) => childName? dir l).mergeSort

def follow (s : Store) : Location → List String → Except FileError Location
  | l, [] => .ok l
  | l, part :: rest =>
    match s.get? l with
    | none => .error .notFound
    | some (.file _) | some .locked => .error .notDirectory
    | some .directory =>
      if part = "" || part = "." then s.follow l rest
      else if part = ".." then s.follow l.dropLast rest
      else s.follow (l ++ [part]) rest

def locate (s : Store) (p : Path) : Except FileError Location :=
  if p.text = "" then .error .notFound
  else s.follow (if p.isAbsolute then [] else s.here) p.slashParts

def entry? (s : Store) (p : Path) : Option Entry :=
  match s.locate p with
  | .ok l => s.get? l
  | .error _ => none

def contains (s : Store) (p : Path) : Bool := (s.entry? p).isSome

def isDirectory (s : Store) (p : Path) : Bool :=
  match s.entry? p with
  | some .directory => true
  | _ => false

def isFile (s : Store) (p : Path) : Bool :=
  match s.entry? p with
  | some (.file _) | some .locked => true
  | _ => false

def read (s : Store) (p : Path) : Except FileError ByteArray := do
  match s.get? (← s.locate p) with
  | some (.file content) => .ok content
  | some .locked => .error .denied
  | some .directory => .error .isDirectory
  | none => .error .notFound

def readText (s : Store) (p : Path) : Except FileError String := do
  match String.fromUTF8? (← s.read p) with
  | some text => .ok text
  | none => .error .notText

/-- Whether something can be made at a location: what is above it has to be a directory. -/
def checkParent (s : Store) (l : Location) : Except FileError Unit :=
  match s.get? l.dropLast with
  | some .directory => .ok ()
  | some (.file _) | some .locked => .error .notDirectory
  | none => .error .notFound

def write (s : Store) (p : Path) (content : ByteArray) : Except FileError Store := do
  let l ← s.locate p
  match s.get? l with
  | some .directory => .error .isDirectory
  | some .locked => .error .denied
  | some (.file _) => .ok (s.put l (.file content))
  | none =>
    s.checkParent l
    .ok (s.put l (.file content))

def list (s : Store) (p : Path) : Except FileError (List String) := do
  let l ← s.locate p
  match s.get? l with
  | some .directory => .ok (s.children l)
  | some (.file _) | some .locked => .error .notDirectory
  | none => .error .notFound

def dropSlashes (p : Path) : Path :=
  ⟨.ofList (p.text.toList.reverse.dropWhile (· == '/')).reverse⟩

def makeDirectory (s : Store) (p : Path) : Except FileError Store := do
  let l ← s.locate (dropSlashes p)
  match s.get? l with
  | some _ => .error .exists
  | none =>
    s.checkParent l
    .ok (s.put l .directory)

/-- Makes a directory and, at most `most` levels up, the directories it is in. What was made stays
when a later one fails. -/
def makeDirectoriesUp : (most : Nat) → Store → Path → Option FileError × Store
  | 0, s, _ => (some .notFound, s)
  | most + 1, s, p =>
    if p.parts = [] then (none, s)
    else
      match s.makeDirectory p with
      | .ok s => (none, s)
      | .error .notFound =>
        match p.parent? with
        | none => (some .notFound, s)
        | some above =>
          match makeDirectoriesUp most s above with
          | (some e, s) => (some e, s)
          | (none, s) =>
            match s.makeDirectory p with
            | .ok s => (none, s)
            | .error e => if s.isDirectory p then (none, s) else (some e, s)
      | .error e => if s.isDirectory p then (none, s) else (some e, s)

def makeDirectories (s : Store) (p : Path) : Option FileError × Store :=
  makeDirectoriesUp (p.parts.length + 1) s p

end Store

end VippDocdef
