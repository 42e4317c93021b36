import VippDocdef.Text.Cut

/-! The arguments of the command line. Short flags may be bundled, a value may be attached or
follow, and `--` ends the options. -/

set_option autoImplicit false

namespace VippDocdef.CommandLine

inductive Flag where
  | verbose
  | report
  | singleFile
  | standaloneForms
  | copyResources
  | help
  | version
  deriving DecidableEq, Repr

inductive ValueOption where
  | outputDir
  | config
  | jobs
  deriving DecidableEq, Repr

inductive Switch where
  | flag (f : Flag)
  | value (o : ValueOption)
  deriving DecidableEq, Repr

def Switch.ofLong? : String → Option Switch
  | "output-dir" => some (.value .outputDir)
  | "verbose" => some (.flag .verbose)
  | "report" => some (.flag .report)
  | "single-file" => some (.flag .singleFile)
  | "config" => some (.value .config)
  | "jobs" => some (.value .jobs)
  | "standalone-forms" => some (.flag .standaloneForms)
  | "copy-resources" => some (.flag .copyResources)
  | "help" => some (.flag .help)
  | "version" => some (.flag .version)
  | _ => none

def Switch.ofShort? : Char → Option Switch
  | 'o' => some (.value .outputDir)
  | 'v' => some (.flag .verbose)
  | 'r' => some (.flag .report)
  | 's' => some (.flag .singleFile)
  | 'c' => some (.value .config)
  | 'j' => some (.value .jobs)
  | 'h' => some (.flag .help)
  | 'V' => some (.flag .version)
  | _ => none

structure Arguments where
  input : Option String := none
  outputDir : Option String := none
  config : Option String := none
  jobs : Option Nat := none
  flags : List Flag := []
  deriving DecidableEq, Repr

namespace Arguments

def has (a : Arguments) (f : Flag) : Bool := a.flags.contains f

end Arguments

inductive Stop where
  | refused
  | help
  | version
  deriving DecidableEq, Repr

def readCount? (text : String) : Option Nat :=
  let digits := ((Text.stripPrefix? "+" text).getD text).toList
  if digits.isEmpty || !digits.all Char.isDigit then none
  else
    let n := digits.foldl (fun n c => 10 * n + (c.toNat - '0'.toNat)) 0
    if n < Nat.pow 2 64 then some n else none

namespace Arguments

def addFlag (a : Arguments) (f : Flag) : Except Stop Arguments :=
  match f with
  | .help => .error .help
  | .version => .error .version
  | f => if a.has f then .error .refused else .ok { a with flags := f :: a.flags }

def addValue (a : Arguments) (o : ValueOption) (text : String) : Except Stop Arguments :=
  match o with
  | .outputDir =>
    if a.outputDir.isSome || text = "" then .error .refused
    else .ok { a with outputDir := some text }
  | .config =>
    if a.config.isSome || text = "" then .error .refused else .ok { a with config := some text }
  | .jobs =>
    match readCount? text with
    | some n => if a.jobs.isSome then .error .refused else .ok { a with jobs := some n }
    | none => .error .refused

def addInput (a : Arguments) (text : String) : Except Stop Arguments :=
  if a.input.isSome || text = "" then .error .refused else .ok { a with input := some text }

/-- What a bundle of short flags adds, and the option at its end that still lacks its value. -/
def addBundle (a : Arguments) : List Char → Except Stop (Arguments × Option ValueOption)
  | [] => .ok (a, none)
  | c :: rest =>
    match Switch.ofShort? c with
    | none => .error .refused
    | some (.flag f) =>
      match a.addFlag f with
      | .ok a => a.addBundle rest
      | .error stop => .error stop
    | some (.value o) =>
      match rest with
      | [] => .ok (a, some o)
      | '=' :: text => (a.addValue o (.ofList text)).map (·, none)
      | text => (a.addValue o (.ofList text)).map (·, none)

def addLong (a : Arguments) (text : String) : Except Stop (Arguments × Option ValueOption) :=
  let name := text.toList.takeWhile (· != '=')
  let attached := match text.toList.dropWhile (· != '=') with
    | _ :: value => some (String.ofList value)
    | [] => none
  match Switch.ofLong? (.ofList name), attached with
  | none, _ => .error .refused
  | some (.flag f), none => (a.addFlag f).map (·, none)
  | some (.flag _), some _ => .error .refused
  | some (.value o), none => .ok (a, some o)
  | some (.value o), some value => (a.addValue o value).map (·, none)

def addInputs (a : Arguments) : List String → Except Stop Arguments
  | [] => .ok a
  | text :: rest =>
    match a.addInput text with
    | .ok a => a.addInputs rest
    | .error stop => .error stop

def isOption (text : String) : Bool := Text.startsWith text "-" && text ≠ "-"

def addArgument (a : Arguments) (text : String) : Except Stop (Arguments × Option ValueOption) :=
  match Text.stripPrefix? "--" text with
  | some long => a.addLong long
  | none =>
    if isOption text then a.addBundle text.toList.tail else (a.addInput text).map (·, none)

/-- Reads the arguments from left to right; `waiting` is an option whose value has to come next. -/
def read (a : Arguments) (waiting : Option ValueOption) : List String → Except Stop Arguments
  | [] => if waiting.isSome then .error .refused else .ok a
  | text :: rest =>
    match waiting with
    | some o =>
      if isOption text then .error .refused
      else
        match a.addValue o text with
        | .ok a => a.read none rest
        | .error stop => .error stop
    | none =>
      if text = "--" then a.addInputs rest
      else
        match a.addArgument text with
        | .ok (a, waiting) => a.read waiting rest
        | .error stop => .error stop

end Arguments

end VippDocdef.CommandLine
