import VippDocdef.Pattern.Reader

/-! Settings of a conversion, and what makes them valid. -/

set_option autoImplicit false

namespace VippDocdef

inductive FormMode where
  | include
  | standalone
  deriving DecidableEq, Repr

structure InputSettings where
  recordLength : Nat := 4096
  codePage : Nat := 1252
  channelCode : String := "NO"
  documentSeparator : String := "1"
  /-- Divides fields where the source does not say what does. -/
  defaultDelimiter : String := "|"
  defaultFieldCount : Nat := 20
  deriving DecidableEq, Repr

structure LayoutSettings where
  defaultFont : String := "ARIAL08"
  formMode : FormMode := .include
  deriving DecidableEq, Repr

/-- Fonts up to a size share a correction of their vertical position. -/
structure FontBand where
  /-- The largest size of the band; without one it takes all. -/
  upTo : Option Float
  points : Nat
  offset : Float

def FontBand.variable (b : FontBand) : String := s!"&CORFONT{b.points}"

def FontBand.admits (b : FontBand) (size : Float) : Bool :=
  match b.upTo with
  | some limit => size ≤ limit
  | none => true

structure Calibration where
  segmentCorrection : Float := 33.0
  fontBands : List FontBand :=
    [⟨some 6.5, 6, -33.0⟩, ⟨some 7.5, 7, -37.5⟩, ⟨some 9.0, 8, -43.5⟩, ⟨some 11.0, 10, -55.5⟩,
     ⟨none, 12, -66.0⟩]

def Calibration.band? (c : Calibration) (size : Float) : Option FontBand :=
  c.fontBands.find? (·.admits size)

structure MalformedSettings where
  patterns : List String :=
    ["PAGEBRK IF", "\\\x7b /", "\\\x7d %", "SETPAGENUMBER", " VSUB ", " SETVAR \\\x7d",
     "= -;", "= =;",
     " (?:eq|ne|gt|lt) \\(.* = (?:VAR_|FLD)| = (?:VAR_|FLD).* (?:eq|ne|gt|lt) \\("]
  extraPatterns : List String := []
  deriving DecidableEq, Repr

def MalformedSettings.all (m : MalformedSettings) : List String := m.patterns ++ m.extraPatterns

structure OutputSettings where
  dir : String := "output"
  report : Bool := false
  copyResources : Bool := false
  /-- Parallel workers; as many as there are processors, if unset. -/
  jobs : Option Nat := none
  deriving DecidableEq, Repr

structure Settings where
  input : InputSettings := {}
  layout : LayoutSettings := {}
  calibration : Calibration := {}
  /-- Subroutines of at most this many commands are expanded where they are called. -/
  inlineThreshold : Nat := 5
  malformed : MalformedSettings := {}
  output : OutputSettings := {}

inductive SettingsFault where
  | recordLength
  | delimiter
  | defaultFont
  | noBands
  | catchAllNotLast (index : Nat)
  | descending (index : Nat)
  | pattern (index : Nat)
  | extraPattern (index : Nat)
  | jobs
  deriving DecidableEq, Repr

namespace SettingsFault

def field : SettingsFault → String
  | .recordLength => "input.record_length"
  | .delimiter => "input.default_delimiter"
  | .defaultFont => "layout.default_font"
  | .noBands => "calibration.font_bands"
  | .catchAllNotLast i | .descending i => s!"calibration.font_bands[{i}].up_to"
  | .pattern i => s!"malformed.patterns[{i}]"
  | .extraPattern i => s!"malformed.extra_patterns[{i}]"
  | .jobs => "output.jobs"

def message : SettingsFault → String
  | .recordLength | .jobs => "must be a positive integer"
  | .delimiter => "must be exactly one character"
  | .defaultFont => "must be a non-empty string"
  | .noBands => "must contain at least one band"
  | .catchAllNotLast _ => "catch-all band must be last"
  | .descending _ => "bands must be in ascending order"
  | .pattern _ | .extraPattern _ => "is not a valid regular expression"

def text (f : SettingsFault) : String := s!"vipp2dfa.toml: '{f.field}' {f.message}"

end SettingsFault

/-- Bands have ascending limits, and only the last may have none; `previous` is the limit last
seen. -/
def bandFaults (index : Nat) (previous : Option Float) : List FontBand → List SettingsFault
  | [] => []
  | band :: rest =>
    match band.upTo with
    | none =>
      (if rest.isEmpty then [] else [.catchAllNotLast index])
        ++ bandFaults (index + 1) previous rest
    | some limit =>
      (if previous.any (limit ≤ ·) then [.descending index] else [])
        ++ bandFaults (index + 1) (some limit) rest

def patternFaults (library : PatternLibrary) (fault : Nat → SettingsFault) (index : Nat) :
    List String → List SettingsFault
  | [] => []
  | p :: ps =>
    (if (library p).isSome then [] else [fault index])
      ++ patternFaults library fault (index + 1) ps

namespace Settings

def faults (s : Settings) (library : PatternLibrary := Pattern.library) : List SettingsFault :=
  (if s.input.recordLength = 0 then [SettingsFault.recordLength] else [])
    ++ (if s.input.defaultDelimiter.length ≠ 1 then [SettingsFault.delimiter] else [])
    ++ (if Text.trim s.layout.defaultFont = "" then [SettingsFault.defaultFont] else [])
    ++ (if s.calibration.fontBands.isEmpty then [SettingsFault.noBands] else [])
    ++ bandFaults 0 none s.calibration.fontBands
    ++ patternFaults library SettingsFault.pattern 0 s.malformed.patterns
    ++ patternFaults library SettingsFault.extraPattern 0 s.malformed.extraPatterns
    ++ (if s.output.jobs = some 0 then [SettingsFault.jobs] else [])

def isValid (s : Settings) (library : PatternLibrary := Pattern.library) : Bool :=
  (s.faults library).isEmpty

end Settings

end VippDocdef
