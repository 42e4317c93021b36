import VippDocdef.Batch.Copying
import VippDocdef.Batch.Record
import VippDocdef.Batch.Sources
import VippDocdef.Docdef.Program

/-! Runs: a document with the forms next to it, or every project below a directory. -/

set_option autoImplicit false

namespace VippDocdef

inductive LoadError where
  | unreadable (p : Path) (reason : FileError)
  | unsupported (p : Path)
  deriving DecidableEq, Repr

def LoadError.message : LoadError → String
  | .unreadable p reason => s!"Failed to read {p.text}: {reason.message}"
  | .unsupported p => s!"Unsupported file type: {p.text}"

inductive RunError where
  | file (reason : FileError)
  | pattern (p : Path)
  | formAlone (p : Path)
  | notFound (p : Path)
  | load (reason : LoadError)
  deriving DecidableEq, Repr

def RunError.message : RunError → String
  | .file reason => s!"I/O error: {reason.message}"
  | .pattern p => s!"Invalid discovery pattern '{p.text}'"
  | .formAlone _ => "Cannot convert standalone FRM file. Please provide a DBM file."
  | .notFound p => s!"Input not found: {p.text}"
  | .load reason => reason.message

def readSource (s : Store) (p : Path) : Except LoadError String :=
  match s.read p with
  | .ok bytes => .ok (decodeSource bytes)
  | .error reason => .error (.unreadable p reason)

inductive SourceUnit where
  | document (d : Document)
  | form (f : Form)

def loadSource (s : Store) (p : Path) : Except LoadError SourceUnit := do
  let text ← readSource s p
  match unitKind p text with
  | .document => return .document (.build p.fileName text)
  | .form => return .form (.build p.fileName text)

structure LoadedForms where
  forms : List Form := []
  paths : Table Path := {}

/-- Forms that can be read; the others are left out. -/
def loadForms (s : Store) : List Path → LoadedForms → LoadedForms
  | [], loaded => loaded
  | p :: rest, loaded =>
    match readSource s p with
    | .ok text =>
      loadForms s rest
        { forms := loaded.forms ++ [.build p.fileName text]
          paths := loaded.paths.insert p.fileName p }
    | .error _ => loadForms s rest loaded

inductive Dating where
  | set (date : String)
  /-- For each document the day on which it is converted. -/
  | clock (day : Path → String)

instance instCoeDating : Coe String Dating := ⟨.set⟩

def Dating.of : Dating → Path → String
  | .set date, _ => date
  | .clock day, p => day p

structure Converter where
  settings : Settings := {}
  date : Dating

namespace Converter

def target (c : Converter) : Path := ⟨c.settings.output.dir⟩

def outputPath (c : Converter) (fileName : String) : Path :=
  c.target.join ⟨Path.stem ⟨fileName⟩ ++ ".dfa"⟩

/-- Writes the programs of a project's forms. A form whose program cannot be written leaves no
record. -/
def writeForms (c : Converter) (project : Project) (paths : Table Path) :
    List Form → Store → List Record × Store
  | [], s => ([], s)
  | form :: rest, s =>
    let source := ((paths.get? form.file).map Path.text).getD form.file
    let program := Docdef.Program.ofForm c.settings project form
    let output := c.outputPath form.file
    match s.write output program.text.toUTF8 with
    | .ok s =>
      let (records, s) := c.writeForms project paths rest s
      (.ofForm source output.text :: records, s)
    | .error _ => c.writeForms project paths rest s

def writeDocument (c : Converter) (project : Project) (p : Path) (s : Store) : Record × Store :=
  let program := Docdef.Program.ofDocument c.settings (c.date.of p) project
  let output := c.outputPath p.fileName
  match s.write output program.text.toUTF8 with
  | .ok s => (.ofDocument p.text output.text, s)
  | .error reason => (.failed p.text s!"Failed to write {output.text}: {reason.message}", s)

def projectOf (fileName text : String) (forms : List Form) : Project :=
  (Project.resolve ⟨.build fileName text, forms⟩).1

def projectSources (p : Project) : List String := p.document.raw :: p.forms.map (·.raw)

/-- Converts a document and its forms; the forms come first. -/
def convertDocument (c : Converter) (loaded : LoadedForms) (root p : Path) (s : Store) :
    List Record × Store :=
  match readSource s p with
  | .error reason => ([.failed p.text reason.message], s)
  | .ok text =>
    let project := projectOf p.fileName text loaded.forms
    let (formRecords, s) := c.writeForms project loaded.paths project.forms s
    let (record, s) := c.writeDocument project p s
    let s := if c.settings.output.copyResources then
        (copyResources s root c.target (projectSources project)).2 else s
    (formRecords ++ [record], s)

def convertDocuments (c : Converter) (loaded : LoadedForms) (root : Path) :
    List Path → Store → List Record × Store
  | [], s => ([], s)
  | p :: rest, s =>
    let (records, s) := c.convertDocument loaded root p s
    let (others, s) := c.convertDocuments loaded root rest s
    (records ++ others, s)

/-- Converts the sources of a directory; forms without a document are passed over. -/
def convertGroup (c : Converter) (root : Path) (g : SourceGroup) (s : Store) :
    List Record × Store :=
  if g.documents.isEmpty then ([], s)
  else c.convertDocuments (loadForms s g.forms {}) root g.documents s

def convertGroups (c : Converter) (root : Path) : List SourceGroup → Store → List Record × Store
  | [], s => ([], s)
  | g :: rest, s =>
    let (records, s) := c.convertGroup root g s
    let (others, s) := c.convertGroups root rest s
    (records ++ others, s)

def reportFile : String := "conversion_report.json"

abbrev Result := Except RunError (List Record) × Store

def finish (c : Converter) (records : List Record) (s : Store) : Result :=
  if c.settings.output.report && !records.isEmpty then
    match s.write (c.target.join ⟨reportFile⟩) (reportText records).toUTF8 with
    | .ok s => (.ok records, s)
    | .error reason => (.error (.file reason), s)
  else (.ok records, s)

def runDocument (c : Converter) (p : Path) (s : Store) : Result :=
  if !s.isFile p then (.error (.notFound p), s)
  else
    match sourceKind? p with
    | none => (.error (.load (.unsupported p)), s)
    | some .form => (.error (.formAlone p), s)
    | some .document =>
      match s.makeDirectories c.target with
      | (some reason, s) => (.error (.file reason), s)
      | (none, s) =>
        match siblingForms s p with
        | .error reason => (.error (.file reason), s)
        | .ok forms =>
          let (records, s) := c.convertDocument (loadForms s forms {}) p.directory p s
          c.finish records s

def runDirectory (c : Converter) (root : Path) (s : Store) : Result :=
  if !s.isDirectory root then (.error (.notFound root), s)
  else
    match s.makeDirectories c.target with
    | (some reason, s) => (.error (.file reason), s)
    | (none, s) =>
      match discoverSources? s root with
      | none => (.error (.pattern root), s)
      | some sources =>
        let (records, s) := c.convertGroups root (groupByDirectory sources) s
        c.finish records s

def run (c : Converter) (p : Path) (s : Store) : Result :=
  if s.isDirectory p then c.runDirectory p s else c.runDocument p s

end Converter

def workers (o : OutputSettings) (processors : Nat) : Nat := max 1 (o.jobs.getD processors)

end VippDocdef
