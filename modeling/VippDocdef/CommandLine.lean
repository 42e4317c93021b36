import VippDocdef.Batch.Run
import VippDocdef.CommandLine.Arguments
import VippDocdef.Settings.Search

/-! The command line: what is printed, the exit code, and the files that are left. -/

set_option autoImplicit false

namespace VippDocdef.CommandLine

structure Finish where
  exitCode : Nat
  output : String := ""
  error : Option String := none
  usage : Bool := false
  store : Store

def versionText : String := "vipp2dfa 0.1.0\n"

def usageText : String :=
  "\n".intercalate
    ["Convert Xerox VIPP database masters and forms (.dbm, .frm) to Papyrus DocDEF (.dfa)", "",
     "Usage: vipp2dfa [OPTIONS] <INPUT>", "", "Arguments:",
     "  <INPUT>  A .dbm file (with --single-file) or a directory to convert recursively", "",
     "Options:",
     "  -o, --output-dir <OUTPUT_DIR>  Directory for generated .dfa files (default: output)",
     "  -v, --verbose                  Enable debug logging",
     "  -r, --report                   Write conversion_report.json into the output directory",
     "  -s, --single-file              Convert one .dbm file together with the .frm files beside it",
     "  -c, --config <CONFIG>          Path to vipp2dfa.toml (default: search upward from the working directory)",
     "  -j, --jobs <JOBS>              Number of parallel jobs (default: available parallelism)",
     "      --standalone-forms         Wrap each sub-form in its own DOCFORMAT instead of include form",
     "      --copy-resources           Copy referenced images, fonts and PDFs into the output directory",
     "  -h, --help                     Print help",
     "  -V, --version                  Print version", ""]

def exitError : Nat := 1

def exitUsage : Nat := 2

def Arguments.overrides (a : Arguments) : Overrides :=
  { outputDir := a.outputDir
    report := if a.has .report then some true else none
    copyResources := if a.has .copyResources then some true else none
    jobs := a.jobs
    formMode := if a.has .standaloneForms then some .standalone else none }

def exitCodeOf : RunError → Nat
  | .notFound _ | .formAlone _ | .load (.unsupported _) => exitUsage
  | _ => exitError

def inputFault? (s : Store) (single : Bool) (input : Path) : Option String :=
  if !s.contains input then some s!"input not found: {input.text}"
  else if single && !s.isFile input then
    some s!"--single-file expects a .dbm file, got {input.text}"
  else if !single && !s.isDirectory input then
    some s!"{input.text} is a file; use --single-file to convert it"
  else none

def summary (records : List Record) (target : String) : String :=
  s!"Converted {records.length - failureCount records} file(s), {failureCount records} failed. "
    ++ s!"Output: {target}\n"

def convert (s : Store) (c : Converter) (single : Bool) (input : Path) : Finish :=
  match if single then c.runDocument input s else c.runDirectory input s with
  | (.error reason, s) => { exitCode := exitCodeOf reason, error := reason.message, store := s }
  | (.ok records, s) =>
    { exitCode := if failureCount records = 0 then 0 else exitError
      output := summary records c.settings.output.dir, store := s }

def start (s : Store) (around : Surroundings) (date : Dating) (a : Arguments) (input : Path) :
    Finish :=
  match inputFault? s (a.has .singleFile) input with
  | some fault => { exitCode := exitUsage, error := fault, store := s }
  | none =>
    match loadSettings s around (a.config.map Path.mk) with
    | .error reason => { exitCode := exitError, error := reason.message, store := s }
    | .ok settings => convert s ⟨settings.override a.overrides, date⟩ (a.has .singleFile) input

def run (s : Store) (around : Surroundings) (date : Dating) (args : List String) : Finish :=
  match Arguments.read {} none args with
  | .error .refused => { exitCode := exitUsage, usage := true, store := s }
  | .error .help => { exitCode := 0, usage := true, store := s }
  | .error .version => { exitCode := 0, output := versionText, store := s }
  | .ok a =>
    match a.input with
    | none => { exitCode := exitUsage, usage := true, store := s }
    | some input => start s around date a ⟨input⟩

end VippDocdef.CommandLine
