import VippDocdef.Command.OfTokens
import VippDocdef.Document.Header
import VippDocdef.Document.Region

/-! Documents and forms from source texts. -/

set_option autoImplicit false

namespace VippDocdef

def significant (source : String) : List Token :=
  (Scanned.ofText source).tokens.filter fun t => !t.isTrivia

/-- Replaces the case of the same key in its place, or adds one at the end. -/
def putCase (c : Case) : List Case → List Case
  | [] => [c]
  | d :: ds => if d.key = c.key then c :: ds else d :: putCase c ds

def parenthesizedKey? (cs : List Char) : Option String :=
  match cs with
  | '(' :: rest =>
    let key := rest.takeWhile fun c => c.isAlphanum || c == '_'
    if !key.isEmpty && rest.dropWhile (fun c => c.isAlphanum || c == '_') = [')'] then
      some (.ofList key)
    else none
  | _ => none

def afterBlanks? (cs : List Char) : Option (List Char) :=
  match cs with
  | c :: rest => if Text.isBlank c then some (rest.dropWhile Text.isBlank) else none
  | [] => none

def dispatchKey? (condition : List String) : Option String := do
  let rest ← Text.after? "PREFIX".toList (" ".intercalate condition).toList
  let rest ← afterBlanks? rest
  let rest ← Text.after? "eq".toList rest
  let rest ← afterBlanks? rest
  parenthesizedKey? rest

/-- A condition on the record type outside all cases is a case of its own, unless there is one. -/
def addDispatchCase (cases : List Case) : Command → List Case
  | .ifBlock _ condition (first :: more) =>
    match dispatchKey? condition with
    | some key => if cases.any (·.key = key) then cases else cases ++ [⟨key, first :: more⟩]
    | none => cases
  | _ => cases

def putVariable (v : VariableDef) : List VariableDef → List VariableDef
  | [] => [v]
  | w :: ws => if w.name = v.name then v :: ws else w :: putVariable v ws

def addVariable (known : List VariableDef) : Command → List VariableDef
  | .act _ (.assign ⟨.set, target, value, initial⟩) =>
    putVariable ⟨Text.dropLeading '/' target, value.getD "", initial⟩ known
  | _ => known

def fallbackFontSize : Float := 10.0

structure Declarations where
  fonts : Table FontDef := {}
  colors : Table ColorDef := {}
  attributes : Table String := {}
  subroutines : Table (List Command) := {}

def Declarations.add (d : Declarations) : Command → Declarations
  | .act _ (.generic "INDEXFONT" [name, face, size]) =>
    let name := Text.dropLeading '/' name
    let size := (Decimal.read? size).getD fallbackFontSize
    { d with fonts := d.fonts.insert name ⟨name, Text.dropLeading '/' face, size⟩ }
  | .act _ (.generic "INDEXCOLOR" [name, color]) =>
    let name := Text.dropLeading '/' name
    { d with colors := d.colors.insert name ⟨name, Text.dropLeading '/' color⟩ }
  | .act _ (.generic "INDEXBAT" [name, value]) =>
    { d with
      attributes := d.attributes.insert (Text.dropLeading '/' name) (Text.dropLeading '/' value) }
  | .define _ name body => { d with subroutines := d.subroutines.insert name body }
  | _ => d

/-- Everything declared in some commands, at any depth; later declarations replace earlier ones. -/
def Declarations.ofCommands (cs : List Command) : Declarations :=
  (Command.walk cs).foldl Declarations.add {}

def commandsOf (ts : List Token) : List Command := (Script.ofTokens ts).commands

def Document.build (file source : String) : Document :=
  let tokens := significant source
  let (prefixes, fields) := declaredFields tokens
  let regions := Regions.ofTokens tokens
  let prologue := commandsOf regions.outside ++ regions.unlabeled.flatMap commandsOf
  let labeled := regions.labeled.foldl (fun cs (key, ts) => putCase ⟨key, commandsOf ts⟩ cs) []
  let cases := prologue.foldl addDispatchCase labeled
  let declared := Declarations.ofCommands (prologue ++ cases.flatMap (·.commands))
  { file, raw := source, metadata := .ofTokens tokens, prefixes, fields
    fonts := declared.fonts, colors := declared.colors
    assigned := prologue.foldl addVariable []
    prologue, cases, subroutines := declared.subroutines }

def formMarkReach : Nat := 4

def opensForm (t : Token) (rest : List Token) : Bool :=
  t.isDelimiter "\x7b"
    && (match (rest.take formMarkReach).find? (·.kind = .comment) with
        | some c => Text.contains c.text "Begin Form"
        | none => false)

def formBlock? : List Token → Option (List Token)
  | [] => none
  | t :: rest => if opensForm t rest then some (splitBracket "\x7b" rest).1 else formBlock? rest

def Form.build (file source : String) : Form :=
  let tokens := significant source
  let whole := commandsOf tokens
  let commands := ((formBlock? tokens).map commandsOf).getD whole
  let declared := Declarations.ofCommands (whole ++ commands)
  { file, raw := source, metadata := .ofTokens tokens
    fonts := declared.fonts, colors := declared.colors, attributes := declared.attributes
    commands, subroutines := declared.subroutines }

inductive UnitKind where
  | document
  | form
  deriving DecidableEq, Repr

def sourceKind? (p : Path) : Option UnitKind :=
  match p.extension?.map String.toLower with
  | some "dbm" => some .document
  | some "frm" => some .form
  | _ => none

/-- The kind of a source; without a telling name, a document has the word `STARTDBM` in it. -/
def unitKind (p : Path) (source : String) : UnitKind :=
  (sourceKind? p).getD (if Text.contains source "STARTDBM" then .document else .form)

/-- Text of a file: UTF-8, or else one character a byte. -/
def decodeSource (bytes : ByteArray) : String :=
  match String.fromUTF8? bytes with
  | some text => text
  | none => .ofList (bytes.toList.map fun b => Char.ofNat b.toNat)

end VippDocdef
