import VippDocdef.Toml.Scalar

/-! TOML documents from text. -/

set_option autoImplicit false

namespace VippDocdef.Toml

abbrev ValueReader := List Char → Option (Value × List Char)

def skipSpaces (cs : List Char) : List Char := cs.dropWhile isSpace

def skipComment : List Char → List Char
  | '#' :: rest => rest.dropWhile isTextChar
  | cs => cs

def nestingLimit : Nat := 79

def isBareChar (c : Char) : Bool := c.isAlphanum || c = '_' || c = '-'

def simpleKey? (cs : List Char) : Option (String × List Char) :=
  match cs with
  | '"' :: rest =>
    (basicString? (rest.length + 1) rest).map fun (text, rest) => (.ofList text, rest)
  | '\'' :: rest => (literalString? rest).map fun (text, rest) => (.ofList text, rest)
  | _ =>
    let key := cs.takeWhile isBareChar
    if key.isEmpty then none else some (.ofList key, cs.dropWhile isBareChar)

def dottedKey? : (most : Nat) → List Char → Option (List String × List Char)
  | 0, _ => none
  | most + 1, cs => do
    let (key, rest) ← simpleKey? (skipSpaces cs)
    match skipSpaces rest with
    | '.' :: more =>
      let (keys, rest) ← dottedKey? most more
      return (key :: keys, rest)
    | rest => return ([key], rest)

def key? (cs : List Char) : Option (List String × List Char) := dottedKey? nestingLimit cs

def skipFiller : (fuel : Nat) → List Char → List Char
  | 0, cs => cs
  | fuel + 1, cs =>
    match newline? cs with
    | some rest => skipFiller fuel rest
    | none =>
      match cs with
      | ' ' :: rest | '\t' :: rest => skipFiller fuel rest
      | '#' :: rest => skipFiller fuel (rest.dropWhile isTextChar)
      | _ => cs

def filler (cs : List Char) : List Char := skipFiller cs.length cs

def elements? (value : ValueReader) : (fuel : Nat) → List Char → Option (List Value × List Char)
  | 0, _ => none
  | fuel + 1, cs =>
    match filler cs with
    | ']' :: rest => some ([], rest)
    | cs => do
      let (first, rest) ← value cs
      match filler rest with
      | ']' :: rest => return ([first], rest)
      | ',' :: rest =>
        let (others, rest) ← elements? value fuel rest
        return (first :: others, rest)
      | _ => none

def pair? (value : ValueReader) (cs : List Char) : Option ((List String × Value) × List Char) := do
  let (path, rest) ← key? cs
  match rest with
  | '=' :: rest =>
    let (v, rest) ← value (skipSpaces rest)
    return ((path, v), rest)
  | _ => none

def addPair (path : List String) (value : Value) (origin : Origin) (entries : Entries) :
    Option Entries :=
  match path.getLast? with
  | some key => entries.addDotted path.dropLast key value origin
  | none => none

def inlineEntries? (value : ValueReader) :
    (fuel : Nat) → Entries → List Char → Option (Entries × List Char)
  | 0, _, _ => none
  | fuel + 1, entries, cs => do
    let ((path, v), rest) ← pair? value cs
    let entries ← addPair path v .inline entries
    match skipSpaces rest with
    | '}' :: rest => return (entries, rest)
    | ',' :: rest => inlineEntries? value fuel entries rest
    | _ => none

def inlineTable? (value : ValueReader) (cs : List Char) : Option (Entries × List Char) :=
  match skipSpaces cs with
  | '}' :: rest => some ([], rest)
  | cs => inlineEntries? value (cs.length + 1) [] cs

/-- A value with at most some brackets and braces around each other. -/
def readValue : (depth : Nat) → ValueReader
  | depth, cs =>
    match cs with
    | '"' :: _ | '\'' :: _ => (readString? cs).map fun (s, rest) => (.string s, rest)
    | '[' :: rest =>
      match depth with
      | 0 => none
      | depth + 1 =>
        (elements? (readValue depth) (rest.length + 1) rest).map fun (es, rest) => (.array es, rest)
    | '{' :: rest =>
      match depth with
      | 0 => none
      | depth + 1 =>
        (inlineTable? (readValue depth) rest).map fun (es, rest) => (.table .inline es, rest)
    | _ => readWord? cs

def lineEnd? (cs : List Char) : Option (List Char) :=
  match skipComment (skipSpaces cs) with
  | [] => some []
  | cs => newline? cs

def header? (closing : List Char) (cs : List Char) : Option (List String × List Char) := do
  let (path, rest) ← key? cs
  let rest ← closing.isPrefixOf? rest
  return (path, rest)

def atPath (path : List String) (change : String → Entries → Option Entries) (root : Entries) :
    Option Entries :=
  match path.getLast? with
  | some key => root.descend false (fun _ entries => change key entries) path.dropLast .header
  | none => none

/-- Reads line by line; `header` leads to the table that entries go to. -/
def readLines : (fuel : Nat) → (header : List String) → Entries → List Char → Option Entries
  | 0, _, _, _ => none
  | fuel + 1, header, root, cs =>
    match skipSpaces cs with
    | [] => some root
    | '[' :: '[' :: rest => do
      let (path, rest) ← header? [']', ']'] rest
      let root ← atPath path Entries.openElement root
      let rest ← lineEnd? rest
      readLines fuel path root rest
    | '[' :: rest => do
      let (path, rest) ← header? [']'] rest
      let root ← atPath path Entries.openTable root
      let rest ← lineEnd? rest
      readLines fuel path root rest
    | cs =>
      if cs.head? = some '#' || (newline? cs).isSome then do
        let rest ← lineEnd? cs
        readLines fuel header root rest
      else do
        let ((path, v), rest) ← pair? (readValue nestingLimit) cs
        let root ← root.descend false (addPair path v) header .header
        let rest ← lineEnd? rest
        readLines fuel header root rest

def dropMark (cs : List Char) : List Char :=
  match cs with
  | '\ufeff' :: rest => rest
  | cs => cs

def parse? (text : String) : Option Entries :=
  let cs := dropMark text.toList
  readLines (cs.length + 1) [] [] cs

end VippDocdef.Toml
