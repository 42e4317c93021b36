import VippDocdef.Settings
import VippDocdef.Toml.Reader

/-! Settings from a TOML document. Parts that are missing have their defaults, and keys that are not
known are passed over. -/

set_option autoImplicit false

namespace VippDocdef

open Toml (Value Entries)

namespace Setting

def text? : Value → Option String
  | .string s => some s
  | _ => none

def flag? : Value → Option Bool
  | .boolean b => some b
  | _ => none

def count? (limit : Nat) : Value → Option Nat
  | .integer n => if 0 ≤ n && n < limit then some n.toNat else none
  | _ => none

def number? : Value → Option Float
  | .float x => some x
  | .integer n => some (Float.ofInt n)
  | _ => none

def list? {α : Type} (element? : Value → Option α) (v : Value) : Option (List α) :=
  v.elements?.bind fun es => es.mapM element?

/-- The fields of a record: a table, or an array with the fields in order. A date has none of
them. -/
def fields? (names : List String) : Value → Option Entries
  | .table _ entries => some entries
  | .moment => some []
  | v => v.elements?.map names.zip

def field {α : Type} (entries : Entries) (name : String) (read? : Value → Option α) (default : α) :
    Option α :=
  match entries.get? name with
  | some v => read? v
  | none => some default

def required {α : Type} (entries : Entries) (name : String) (read? : Value → Option α) : Option α :=
  (entries.get? name).bind read?

/-- Nothing: an empty table or array. -/
def isVoid : Value → Bool
  | .table _ [] | .array [] => true
  | _ => false

/-- One of several names, alone or as the only key of a table. -/
def name? : Value → Option String
  | .string s => some s
  | .table _ [(key, v)] => if isVoid v then some key else none
  | _ => none

end Setting

open Setting

def wordLimit : Nat := Nat.pow 2 32

def sizeLimit : Nat := Nat.pow 2 64

def FormMode.ofName? : String → Option FormMode
  | "include" => some .include
  | "standalone" => some .standalone
  | _ => none

def InputSettings.ofValue? (v : Value) : Option InputSettings := do
  let es ← fields? ["record_length", "code_page", "channel_code", "document_separator",
    "default_delimiter", "default_field_count"] v
  let d : InputSettings := {}
  return {
    recordLength := ← field es "record_length" (count? wordLimit) d.recordLength
    codePage := ← field es "code_page" (count? wordLimit) d.codePage
    channelCode := ← field es "channel_code" text? d.channelCode
    documentSeparator := ← field es "document_separator" text? d.documentSeparator
    defaultDelimiter := ← field es "default_delimiter" text? d.defaultDelimiter
    defaultFieldCount := ← field es "default_field_count" (count? sizeLimit) d.defaultFieldCount }

def LayoutSettings.ofValue? (v : Value) : Option LayoutSettings := do
  let es ← fields? ["default_font", "subform_mode"] v
  let d : LayoutSettings := {}
  return {
    defaultFont := ← field es "default_font" text? d.defaultFont
    formMode := ← field es "subform_mode" (fun v => (name? v).bind FormMode.ofName?) d.formMode }

def FontBand.ofValue? (v : Value) : Option FontBand := do
  let es ← fields? ["up_to", "points", "offset"] v
  return {
    upTo := ← field es "up_to" (fun v => (number? v).map some) none
    points := ← required es "points" (count? wordLimit)
    offset := ← required es "offset" number? }

def Calibration.ofValue? (v : Value) : Option Calibration := do
  let es ← fields? ["segment_correction", "font_bands"] v
  let d : Calibration := {}
  return {
    segmentCorrection := ← field es "segment_correction" number? d.segmentCorrection
    fontBands := ← field es "font_bands" (list? FontBand.ofValue?) d.fontBands }

def inlineThreshold? (v : Value) : Option Nat := do
  let es ← fields? ["inline_threshold"] v
  field es "inline_threshold" (count? sizeLimit) ({} : Settings).inlineThreshold

def MalformedSettings.ofValue? (v : Value) : Option MalformedSettings := do
  let es ← fields? ["patterns", "extra_patterns"] v
  let d : MalformedSettings := {}
  return {
    patterns := ← field es "patterns" (list? text?) d.patterns
    extraPatterns := ← field es "extra_patterns" (list? text?) d.extraPatterns }

def OutputSettings.ofValue? (v : Value) : Option OutputSettings := do
  let es ← fields? ["dir", "report", "copy_resources", "jobs"] v
  let d : OutputSettings := {}
  return {
    dir := ← field es "dir" text? d.dir
    report := ← field es "report" flag? d.report
    copyResources := ← field es "copy_resources" flag? d.copyResources
    jobs := ← field es "jobs" (fun v => (count? sizeLimit v).map some) d.jobs }

namespace Settings

def ofEntries? (es : Entries) : Option Settings := do
  let d : Settings := {}
  return {
    input := ← field es "input" InputSettings.ofValue? d.input
    layout := ← field es "layout" LayoutSettings.ofValue? d.layout
    calibration := ← field es "calibration" Calibration.ofValue? d.calibration
    inlineThreshold := ← field es "subroutines" inlineThreshold? d.inlineThreshold
    malformed := ← field es "malformed" MalformedSettings.ofValue? d.malformed
    output := ← field es "output" OutputSettings.ofValue? d.output }

end Settings

inductive SettingsError where
  | unreadable (reason : String)
  | notSettings
  | invalid (faults : List SettingsFault)
  deriving DecidableEq, Repr

def SettingsError.message : SettingsError → String
  | .unreadable reason => s!"Failed to read config: {reason}"
  | .notSettings => "Failed to parse vipp2dfa.toml"
  | .invalid faults =>
    "Config validation failed:\n" ++ "\n".intercalate (faults.map fun f => "  - " ++ f.text)

def Settings.ofText (text : String) : Except SettingsError Settings :=
  match (Toml.parse? text).bind Settings.ofEntries? with
  | none => .error .notSettings
  | some s => if s.isValid then .ok s else .error (.invalid s.faults)

structure Overrides where
  outputDir : Option String := none
  report : Option Bool := none
  copyResources : Option Bool := none
  jobs : Option Nat := none
  formMode : Option FormMode := none
  deriving DecidableEq, Repr

/-- The command line wins over the file. -/
def Settings.override (s : Settings) (o : Overrides) : Settings :=
  { s with
    layout := { s.layout with formMode := o.formMode.getD s.layout.formMode }
    output := {
      dir := o.outputDir.getD s.output.dir
      report := o.report.getD s.output.report
      copyResources := o.copyResources.getD s.output.copyResources
      jobs := o.jobs.or s.output.jobs } }

end VippDocdef
