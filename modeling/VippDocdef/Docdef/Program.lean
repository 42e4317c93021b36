import VippDocdef.Docdef.Format
import VippDocdef.Docdef.Startup

/-! Whole programs: one for the document of a project, and one for each form. -/

set_option autoImplicit false

namespace VippDocdef.Docdef

structure Program where
  name : String
  text : String
  warnings : List String
  deriving DecidableEq, Repr

def formMargins : String := "MARGIN TOP 0 MM BOTTOM 0 MM LEFT 0 MM RIGHT 0 MM;"

def pageOutline (opener : String) (body : List Line) : List Line :=
  [⟨0, opener⟩, ⟨1, "POSITION (0 MM) (0 MM)"⟩, ⟨1, "DIRECTION ACROSS;"⟩, .blank] ++ indented body
    ++ flush ["ENDIO;"]

/-- The statements of a form; its outline is open from the start. -/
def formBody (e : Env) (f : Form) (s : State) : Emission :=
  let start := s.beginSection e 0 0
  let body := State.emit { start with sec := { start.sec with outlineOpen := true } } e f.commands
  ⟨body.block, body.state.closeOutline⟩

def wrapForm (mode : FormMode) (f : Form) (body : List Line) : List Line :=
  match mode with
  | .standalone =>
    flush [s!"DOCFORMAT {f.formatName};"]
      ++ indented (flush [formMargins, "SETUNITS LINESP AUTO;", ""] ++ pageOutline "OUTLINE" body)
      ++ flush ["", s!"/* END OF FRM DOCFORMAT {f.formatName} */"]
  | .include =>
    flush [s!"/* External Format: {f.file} */", ""] ++ pageOutline "OUTLINE " body

def formProgram (e : Env) (f : Form) (s : State) : Written :=
  let body := formBody e f s
  let routines := routineFormats e 0 0 body.state
  ⟨flush [s!"/* FRM DFA File: {f.file} */", banner] ++ metadataLines f.metadata ++ [.blank]
    ++ wrapForm e.settings.layout.formMode f body.block.lines ++ [.blank] ++ routines.lines,
    routines.state⟩

def documentProgram (e : Env) (date : String) (s : State) : Written :=
  let document := e.project.document
  let cases := caseFormats e s
  let routines := routineFormats e caseOrigin.1 caseOrigin.2 cases.state
  ⟨header document date ++ dataFormats e.settings.input ++ formatGroup e.project
    ++ fontSection e.project ++ colorSection e.project ++ mainFormat e ++ cases.lines
      ++ routines.lines
    ++ stubs document (registry document).keys ++ beforeFirstDocument e ++ beforeDocument,
    routines.state⟩

def usualRecordLength : Nat := 2048

def documentWarnings (settings : Settings) (d : Document) (formats : Table String) : List String :=
  (if d.fields.isEmpty then ["No field names detected - using defaults"] else [])
    ++ (if settings.input.recordLength < usualRecordLength then
        ["RECORD-LENGTH may be too small for complex data"] else [])
    ++ (if formats.entries.isEmpty then
        ["No format registry built - dynamic routing disabled"] else [])
    ++ (if d.cases.isEmpty then
        ["No CASE blocks found - document may not process data correctly"] else [])

def writeLines (d : Detector) (lines : List Line) : String := (Listing.add d {} lines).text

namespace Program

def ofDocument (settings : Settings) (date : String) (p : Project) : Program :=
  let e : Env := { settings, project := p }
  let written := documentProgram e date (.initial e)
  { name := p.document.programName
    text := writeLines (.ofSettings settings.malformed) written.lines
    warnings :=
      documentWarnings settings p.document (registry p.document) ++ written.state.warnings }

def ofForm (settings : Settings) (p : Project) (f : Form) : Program :=
  let e : Env := { settings, project := p, renames := f.renames }
  let written := formProgram e f (.initial e)
  { name := f.formatName
    text := writeLines (.ofSettings settings.malformed) written.lines
    warnings := written.state.warnings }

end Program

end VippDocdef.Docdef
