import VippDocdef.Docdef.Preamble

/-! The formats that run before the first document and before each one. -/

set_option autoImplicit false

namespace VippDocdef.Docdef

def initializationLines : Action → List String
  | .assign ⟨.set, target, some value, true⟩ =>
    let name := Text.dropLeading '/' target
    if name = "VARINI" then [] else [name ++ " = " ++ initialValue value ++ ";"]
  | .generic "SETUNIT" (unit :: _) =>
    if unit.toLower = "mm" then ["", "/* Page layout settings */", "SETUNITS MM;"] else []
  | .generic "SETLSP" (spacing :: _) => [spacingLine (some spacing)]
  | .generic name _ =>
    if name ∈ ["ORITL", "PORT", "LAND"] then [s!"/* Orientation: {name} */"] else []
  | _ => []

def correctionLines (c : Calibration) : List String :=
  (c.fontBands.map fun b => b.variable ++ " = " ++ Decimal.plain.text b.offset ++ ";")
    ++ ["&CORSEGMENT = " ++ Decimal.plain.text c.segmentCorrection ++ ";"]

/-- Reads the names of the fields, or the settings in front of them. -/
def dataHeaderLines : List Line :=
  flush ["/* Field (Standard) Names: FLD1, FLD2, etc. */",
      "IF LEFT(LINE1, 7, '') == 'PREFIX|'; THEN;"]
    ++ indented
      [⟨0, "LINE1 = CHANGE(LINE1, 'PREFIX|', '');"⟩,
        ⟨0, "D = EXTRACTALL(&FIELDS, LINE1, &SEP, '');"⟩,
       ⟨0, "IF &FIELDS[MAXINDEX(&FIELDS)] == ''; THEN;"⟩,
       ⟨1, "&MAXFIELDS = MAXINDEX(&FIELDS) - 1;"⟩, ⟨0, "ELSE;"⟩,
       ⟨1, "&MAXFIELDS = MAXINDEX(&FIELDS);"⟩, ⟨0, "ENDIF;"⟩]
    ++ flush ["ELSE;"]
    ++ indented
      [⟨0, "I = 0;"⟩, .blank, ⟨0, "/* Separator */"⟩, ⟨0, "IF POS('SETDBSEP', LINE1, 1); THEN;"⟩,
       ⟨1, "POS1 = POS('(', LINE1, 1);"⟩, ⟨1, "POS2 = POS(')', LINE1, 1);"⟩,
       ⟨1, "&SEP = SUBSTR(LINE1, POS1+1, POS2-POS1-1, '');"⟩, ⟨0, "ENDIF;"⟩, .blank,
       ⟨0, "/* Procedure to be called */"⟩, ⟨0, "IF POS('SETPROJECT', LINE1, 1); THEN;"⟩,
       ⟨1, "/* Starting position for the second parenthesis... */"⟩,
       ⟨1, "POS1 = POS('(', LINE1, 4);"⟩, ⟨1, "POS2 = POS(')', LINE1, POS1+1);"⟩,
       ⟨1, "&PROCEDURE = SUBSTR(LINE1, POS1+1, POS2-POS1-1, '');"⟩, ⟨0, "ENDIF;"⟩]
    ++ flush ["ENDIF;"]

def beforeFirstDocument (e : Env) : List Line :=
  flush ["/* Initialize variables */", "DOCFORMAT $_BEFOREFIRSTDOC;"]
    ++ indented
      (flush (["/* Current page */", "PP = 0;", "/* Total pages */", "TP = 0;", "",
          "/* Correction for Xerox position */", "/* Correction = ($SL_MAXY - $SL_MINY)/4 */"]
        ++ correctionLines e.settings.calibration
        ++ ["", "/* Variable Initialization from DBM */", ""]
        ++ (Command.actions e.project.document.prologue).flatMap initializationLines
        ++ ["", "/* Read data header */", "&SEP = " ++ separatorLiteral e.delimiter ++ ";",
          "FOR I"])
      ++ indented (flush ["REPEAT 1;"] ++ recordInput "DATAHEADER" ++ [.blank] ++ dataHeaderLines)
      ++ flush ["ENDFOR;"])
    ++ [.blank]

def beforeDocument : List Line :=
  flush ["/* Per-document initialization */", "DOCFORMAT $_BEFOREDOC;"]
    ++ indented (flush
      ["P = 0;     /* Reset page counter for new document */",
       "PP = 0;    /* Reset total page counter */", "",
       "/* Transaction description counter (undeclared variable) */", "VAR_COUNTTD = 0;", "",
       "/* Undeclared variables - incorrect values for BOXes */", "VAR = MM(40);", "Y5 = MM(40);",
       "Y3 = MM(40);"])
    ++ flush ["", "/* END OF DOCDEF FILE */"]

end VippDocdef.Docdef
