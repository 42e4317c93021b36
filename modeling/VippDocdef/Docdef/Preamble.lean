import VippDocdef.Docdef.Condition
import VippDocdef.Docdef.State
import VippDocdef.Document.RawSearch

/-! The fixed parts at the head of a program: formats of input and output, page layout, fonts,
colors and the loop over the records. -/

set_option autoImplicit false

namespace VippDocdef.Docdef

def banner : String :=
  "/* Generated by vipp2dfa - Xerox FreeFlow VIPP to Papyrus DocDEF converter */"

def metadataLines (m : Metadata) : List Line :=
  flush ([("Title", m.title), ("Creator", m.creator), ("Date", m.creationDate)].filterMap
    fun (label, value) => value.map fun v => s!"/* Original {label}: {v} */")

def header (d : Document) (date : String) : List Line :=
  flush [banner, s!"/* Source: {d.file} */", s!"/* Conversion Date: {date} */", ""]
    ++ (if d.metadata = {} then [] else metadataLines d.metadata ++ [.blank])
    ++ flush [s!"DOCDEF {d.programName};", ""]

def dataFormats (i : InputSettings) : List Line :=
  flush ["/* Input format specification */", "APPLICATION-INPUT-FORMAT"]
    ++ indented (flush
      [s!"CODE {i.codePage}", "RECORD-FORMAT VARPC", "RECORD-DELIMITER X'0D0A'",
       s!"RECORD-LENGTH {i.recordLength}", s!"CHANNEL-CODE {i.channelCode} NOBREAKREPEAT",
       "TABLE-REF-CODE NO", "DECIMAL-SEPARATOR '.'", "CACHELIMIT 100;"])
    ++ flush ["", "/* Output format specification */", "APPLICATION-OUTPUT-FORMAT"]
    ++ indented (flush
      ["CODE 1200", "AFPLRECL 8192", "PTXUNIT 1440", "FDFINCLUDE YES", "TLE YES", "ACIFINDEX NO;"])
    ++ flush ["", "DEFINEPDFOUTPUT PDFOUT;", ""]

def pageRank (name : String) : Nat :=
  if Text.endsWith name "_TNC" then 2
  else if Text.endsWith name "S" then 0
  else if Text.endsWith name "F3" then 3
  else if Text.endsWith name "F" then 1
  else if Text.endsWith name "B2" then 5
  else if Text.endsWith name "B" then 4
  else 99

def baseName (name : String) : String := ((Text.splitLast? '_' name).map (·.1)).getD name

/-- Forms are ordered by rank, then by base name, then by name. -/
def pageLe (a b : String) : Bool :=
  if pageRank a ≠ pageRank b then pageRank a < pageRank b
  else if baseName a ≠ baseName b then baseName a < baseName b
  else !(b < a)

def formOrder (p : Project) : List String := (p.forms.map (·.formatName)).mergeSort pageLe

def formChoices (n : Nat) : List String → List String
  | [] => []
  | name :: rest =>
    s!"      IF P=={n}; THEN; USE FORMAT {name} EXTERNAL; ENDIF;" :: formChoices (n + 1) rest

/-- Behind the last form the first one follows again. -/
def formCycle (forms : List String) : List String :=
  formChoices 1 forms
    ++ match forms with
       | [] => []
       | first :: _ =>
         [s!"      IF P>{forms.length}; THEN; P=1; USE FORMAT {first} EXTERNAL; ENDIF;"]

def logicalPage (number : Nat) (forms : List String) : List Line :=
  flush ([s!"LOGICALPAGE {number}", "    SIDE FRONT", "    POSITION 0 0", "    WIDTH 210 MM",
      "    HEIGHT 297 MM", "    DIRECTION ACROSS", "    FOOTER", "        PP = PP + 1;",
      "    FOOTEREND", "    PRINTFOOTER", "        P = P + 1;", "",
      "        /* Cycle through FRM files */"]
    ++ formCycle forms
    ++ ["", "        /* Page numbering */", "        OUTLINE", "            POSITION RIGHT (0 MM)",
      "            DIRECTION ACROSS;", "            OUTPUT 'Page '!P!' of '!PP",
      "                FONT F5_1", "                POSITION (RIGHT-11 MM)286 MM",
      "                ALIGN RIGHT NOPAD;", "        ENDIO;", "    PRINTEND;"])

def formatGroup (p : Project) : List Line :=
  flush ["/* Page Layout - FORMATGROUP */", "FORMATGROUP MAIN;"]
    ++ indented (flush ["SHEET", "    WIDTH 210 MM", "    HEIGHT 297 MM;", "LAYER 1;"]
      ++ logicalPage 1 (formOrder p) ++ [.blank] ++ logicalPage 2 (formOrder p))
    ++ [.blank]

/-- A font as it is declared; sizes that are not positive are replaced. -/
def declaredFont (f : FontDef) : FontDef :=
  { aliasName := (Text.dropLeading '/' f.aliasName).toUpper
    face := fontFace (Text.dropLeading '/' f.face)
    size := if 0 < f.size then f.size else fallbackFontSize }

def fontLine (f : FontDef) : String :=
  "FONT " ++ f.aliasName ++ " NOTDEF AS '" ++ f.face ++ "' DBCS ROTATION 0 HEIGHT "
    ++ millimetres f.size ++ ";"

/-- The fonts of a project by alias; of several the last counts. -/
def declaredFonts (p : Project) : Table FontDef :=
  Table.ofList (p.fonts.map fun f => let d := declaredFont f; (d.aliasName, d))

def fontSection (p : Project) : List Line :=
  let declared := declaredFonts p
  let defaults := defaultFonts.filter fun f => !declared.contains f.aliasName
  flush (["/* Font Definitions */"] ++ (declared.values ++ defaults).map fontLine ++ [""])

def declaredColors (p : Project) : Table String :=
  Table.ofList (p.colors.map fun c =>
    ((Text.dropLeading '/' c.aliasName).toUpper, (Text.dropLeading '/' c.name).toUpper))

def colorLine (name color : String) : String :=
  let rgb := colorRgb color
  s!"COLOR {name} AS RGB {rgb.red} {rgb.green} {rgb.blue};"

def colorSection (p : Project) : List Line :=
  let declared := declaredColors p
  let required := requiredColors.filter fun c => !declared.contains c
  flush (["/* Color Definitions */"]
    ++ (declared.entries ++ required.map fun c => (c, c)).map (fun (name, color) =>
      colorLine name color) ++ [""])

def Env.delimiter (e : Env) : String :=
  match e.project.document.separator? with
  | some c => .ofList [c]
  | none => e.settings.input.defaultDelimiter

def separatorLiteral (delimiter : String) : String :=
  if delimiter = "'" then "\"'\"" else "'" ++ delimiter ++ "'"

def spacingLine (spacing : Option String) : String :=
  match spacing with
  | some s => "SETUNITS LINESP " ++ s ++ " MM;"
  | none => "SETUNITS LINESP AUTO;"

def recordInput (record : String) : List Line :=
  [⟨0, "RECORD " ++ record⟩, ⟨1, "REPEAT 1;"⟩, ⟨1, "VARIABLE LINE1 SCALAR NOSPACE START 1;"⟩,
   ⟨0, "ENDIO;"⟩]

def pageOriginLines (origin : Option (Int × Int)) : List Line :=
  match origin with
  | some (x, y) =>
    [⟨0, "/* Page layout position from SETPAGEDEF */"⟩, ⟨0, "OUTLINE PAGELAYOUT"⟩,
     ⟨1, s!"POSITION {x} MM {y} MM;"⟩, ⟨0, "ENDIO;"⟩, .blank]
  | none => []

def dispatchLines (separator : String) : List Line :=
  flush ["/* Reset counter to continue processing */", "N = 0;", "",
    "/* Delimiter for field extraction */", "&SEP = " ++ separator ++ ";", "",
    "/* Split line into fields using EXTRACTALL */", "D = EXTRACTALL(FLD, LINE1, &SEP, '');", "",
    "/* Extract PREFIX for format routing */", "PREFIX = FLD[1];", "",
    "/* Create scalar variables FLD0, FLD1, FLD2... from array */", "FOR I REPEAT MAXINDEX(FLD)-1;",
    "    \x7b&FIELDS[I]\x7d = FLD[I+1];", "ENDFOR;", "",
    "/* Route to appropriate format based on PREFIX */", "USE FORMAT REFERENCE('DF_'!PREFIX);", "",
    "/* Reset Field Names/Number */", "D = CLEAR(FLD);"]

def endOfDocumentLines : List Line :=
  flush ["/* Here the output of the document... */", "ENDGROUP 'DOC';", "",
      "/* Check if next record is EOF only */"]
    ++ recordInput "INPUTREC"
    ++ [.blank, ⟨0, "IF LINE1<>'%%EOF'; THEN;"⟩, ⟨1, "SKIPRECORD -1;"⟩, ⟨0, "ENDIF;"⟩, .blank,
      ⟨0, "ENDDOCUMENT;"⟩]

def mainFormat (e : Env) : List Line :=
  flush ["/* Main document format */", "DOCFORMAT THEMAIN;"]
    ++ indented (flush ["MARGIN TOP 0 MM BOTTOM 0 MM LEFT 0 MM RIGHT 0 MM;",
        spacingLine e.project.document.lineSpacing?, ""]
      ++ pageOriginLines e.project.document.pageOrigin?)
    ++ flush ["/* Main processing loop - reads one record per iteration */", "FOR N REPEAT 1;"]
    ++ indented (recordInput "INPUTREC"
      ++ flush ["", s!"IF LINE1<>'{e.settings.input.documentSeparator}';", "THEN;"]
      ++ indented (dispatchLines (separatorLiteral e.delimiter))
      ++ flush ["ELSE;"]
      ++ indented endOfDocumentLines
      ++ flush ["ENDIF;"])
    ++ flush ["ENDFOR;", ""]

end VippDocdef.Docdef
