import VippDocdef.Pattern

/-! Patterns from text. There are no back-references, no look-around and no classes by property;
counted repetition is spelled out, up to a size. Settings and detectors do not rely on this reading:
what a pattern is and what it matches is up to a `PatternLibrary`, and this is one of them. -/

set_option autoImplicit false

namespace VippDocdef

namespace Pattern

structure Flags where
  ignoreCase : Bool := false
  multiLine : Bool := false
  dotAll : Bool := false
  verbose : Bool := false
  deriving DecidableEq, Repr

inductive Escaped where
  | char (c : Char)
  | set (s : CharSet)
  | anchor (a : Anchor)

def hexValue? (c : Char) : Option Nat :=
  if c.isDigit then some (c.toNat - '0'.toNat)
  else if 'a' ≤ c && c ≤ 'f' then some (c.toNat - 'a'.toNat + 10)
  else if 'A' ≤ c && c ≤ 'F' then some (c.toNat - 'A'.toNat + 10)
  else none

def ofHex? (cs : List Char) : Option Char := do
  if cs.isEmpty then none
  let digits ← cs.mapM hexValue?
  let n := digits.foldl (fun n d => 16 * n + d) 0
  if h : n.isValidChar then some (Char.ofNatAux n h) else none

def hexEscape? (width : Nat) : List Char → Option (Escaped × List Char)
  | '{' :: rest => do
    let c ← ofHex? (rest.takeWhile (· != '}'))
    match rest.dropWhile (· != '}') with
    | _ :: more => some (.char c, more)
    | [] => none
  | cs => do
    if cs.length < width then none
    let c ← ofHex? (cs.take width)
    some (.char c, cs.drop width)

def isBoundaryName (c : Char) : Bool := c.isAlpha || c == '-'

def boundary? (cs : List Char) : Option (Escaped × List Char) :=
  match cs with
  | '{' :: rest =>
    let name := rest.takeWhile isBoundaryName
    if name.isEmpty then some (.anchor .wordBoundary, cs)
    else
      match rest.dropWhile isBoundaryName with
      | '}' :: more =>
        match String.ofList name with
        | "start" => some (.anchor .wordStart, more)
        | "end" => some (.anchor .wordEnd, more)
        | "start-half" => some (.anchor .wordStartHalf, more)
        | "end-half" => some (.anchor .wordEndHalf, more)
        | _ => none
      | _ => none
  | _ => some (.anchor .wordBoundary, cs)

/-- What follows a backslash. Letters and digits without a meaning are refused. -/
def escape? : List Char → Option (Escaped × List Char)
  | [] => none
  | c :: rest =>
    match c with
    | 'd' => some (.set .digit, rest)
    | 'D' => some (.set (.complement .digit), rest)
    | 's' => some (.set .space, rest)
    | 'S' => some (.set (.complement .space), rest)
    | 'w' => some (.set .word, rest)
    | 'W' => some (.set (.complement .word), rest)
    | 'A' => some (.anchor .textStart, rest)
    | 'z' => some (.anchor .textEnd, rest)
    | 'B' => some (.anchor .noWordBoundary, rest)
    | '<' => some (.anchor .wordStart, rest)
    | '>' => some (.anchor .wordEnd, rest)
    | 'b' => boundary? rest
    | 'a' => some (.char '\x07', rest)
    | 'f' => some (.char '\x0c', rest)
    | 't' => some (.char '\t', rest)
    | 'n' => some (.char '\n', rest)
    | 'r' => some (.char '\r', rest)
    | 'v' => some (.char '\x0b', rest)
    | 'x' => hexEscape? 2 rest
    | 'u' => hexEscape? 4 rest
    | 'U' => hexEscape? 8 rest
    | _ => if c.toNat < 128 && !c.isAlphanum then some (.char c, rest) else none

inductive SetOp where
  | intersection
  | difference
  | symmetricDifference
  deriving DecidableEq, Repr

def SetOp.apply : SetOp → CharSet → CharSet → CharSet
  | .intersection => .intersection
  | .difference => .difference
  | .symmetricDifference => .symmetricDifference

/-- A bracket being read: its members so far, and what they are to be combined with. -/
structure SetFrame where
  negated : Bool := false
  members : CharSet := .none
  pending : Option (SetOp × CharSet) := none

namespace SetFrame

def add (f : SetFrame) (s : CharSet) : SetFrame := { f with members := .union f.members s }

def withCase (flags : Flags) (s : CharSet) : CharSet := if flags.ignoreCase then .anyCase s else s

def combined (flags : Flags) (f : SetFrame) : CharSet :=
  match f.pending with
  | none => withCase flags f.members
  | some (op, left) => op.apply (withCase flags left) (withCase flags f.members)

def combine (flags : Flags) (f : SetFrame) (op : SetOp) : SetFrame :=
  { f with members := .none, pending := some (op, f.combined flags) }

def close (flags : Flags) (f : SetFrame) : CharSet :=
  if f.negated then .complement (f.combined flags) else f.combined flags

/-- Behind an opening bracket: a negation, and members that would end or divide elsewhere. -/
def start (cs : List Char) : SetFrame × List Char :=
  let (negated, cs) := match cs with
    | '^' :: rest => (true, rest)
    | _ => (false, cs)
  let dashes := cs.takeWhile (· == '-')
  let frame : SetFrame := { negated }
  match dashes, cs.dropWhile (· == '-') with
  | [], ']' :: rest => (frame.add (.single ']'), rest)
  | [], rest => (frame, rest)
  | _, rest => (frame.add (.single '-'), rest)

end SetFrame

def charRange (a b : Char) : Nat × Nat := (a.toNat, b.toNat)

def asciiClass? (name : String) : Option CharSet :=
  let lower := charRange 'a' 'z'
  let upper := charRange 'A' 'Z'
  let digits := charRange '0' '9'
  match name with
  | "alnum" => some (.ranges [digits, upper, lower])
  | "alpha" => some (.ranges [upper, lower])
  | "ascii" => some (.ranges [(0, 127)])
  | "blank" => some (.ranges [(9, 9), (32, 32)])
  | "cntrl" => some (.ranges [(0, 31), (127, 127)])
  | "digit" => some (.ranges [digits])
  | "graph" => some (.ranges [(33, 126)])
  | "lower" => some (.ranges [lower])
  | "print" => some (.ranges [(32, 126)])
  | "punct" => some (.ranges [(33, 47), (58, 64), (91, 96), (123, 126)])
  | "space" => some (.ranges [(9, 13), (32, 32)])
  | "upper" => some (.ranges [upper])
  | "word" => some (.ranges [digits, upper, lower, charRange '_' '_'])
  | "xdigit" => some (.ranges [digits, charRange 'A' 'F', charRange 'a' 'f'])
  | _ => none

def namedSet? : List Char → Option (CharSet × List Char)
  | ':' :: cs =>
    let (negated, cs) := match cs with
      | '^' :: rest => (true, rest)
      | _ => (false, cs)
    match cs.dropWhile (· != ':') with
    | ':' :: ']' :: rest =>
      (asciiClass? (.ofList (cs.takeWhile (· != ':')))).map fun s =>
        (if negated then .complement s else s, rest)
    | _ => none
  | _ => none

def setMember? : List Char → Option (Escaped × List Char)
  | [] => none
  | '\\' :: rest =>
    match escape? rest with
    | some (.anchor _, _) => none
    | other => other
  | c :: rest => some (.char c, rest)

def setRange? (cs : List Char) : Option (CharSet × List Char) := do
  let (first, rest) ← setMember? cs
  match first, rest with
  | .char a, '-' :: more =>
    match more with
    | ']' :: _ | '-' :: _ => some (.single a, rest)
    | _ =>
      match ← setMember? more with
      | (.char b, behind) => if a ≤ b then some (.ranges [charRange a b], behind) else none
      | _ => none
  | .char a, _ => some (.single a, rest)
  | .set s, '-' :: more =>
    match more with
    | ']' :: _ | '-' :: _ => some (s, rest)
    | _ => none
  | .set s, _ => some (s, rest)
  | .anchor _, _ => none

def readSet (flags : Flags) (frame : SetFrame) (outer : List SetFrame) :
    (fuel : Nat) → List Char → Option (CharSet × List Char)
  | 0, _ => none
  | _, [] => none
  | fuel + 1, c :: rest =>
    if flags.verbose && Text.isBlank c then readSet flags frame outer fuel rest
    else
      match c, rest with
      | ']', _ =>
        match outer with
        | [] => some (frame.close flags, rest)
        | f :: fs => readSet flags (f.add (frame.close flags)) fs fuel rest
      | '[', _ =>
        match namedSet? rest with
        | some (s, behind) => readSet flags (frame.add s) outer fuel behind
        | none =>
          let (inner, behind) := SetFrame.start rest
          readSet flags inner (frame :: outer) fuel behind
      | '&', '&' :: more => readSet flags (frame.combine flags .intersection) outer fuel more
      | '-', '-' :: more => readSet flags (frame.combine flags .difference) outer fuel more
      | '~', '~' :: more => readSet flags (frame.combine flags .symmetricDifference) outer fuel more
      | _, _ =>
        match setRange? (c :: rest) with
        | some (s, behind) => readSet flags (frame.add s) outer fuel behind
        | none => none

def bracketSet? (flags : Flags) (cs : List Char) : Option (CharSet × List Char) :=
  let (frame, rest) := SetFrame.start cs
  readSet flags frame [] (cs.length + 1) rest

def size : Pattern → Nat
  | .seq p q | .alt p q => p.size + q.size + 1
  | .star p => p.size + 1
  | .empty | .char _ | .anchor _ => 1

/-- No pattern is spelled out beyond this size. -/
def sizeLimit : Nat := 300000

def optional (p : Pattern) : Pattern := .alt p .empty

def copies (p : Pattern) (tail : Pattern) : Nat → Pattern
  | 0 => tail
  | n + 1 => .seq p (copies p tail n)

def atMost (p : Pattern) : Nat → Pattern
  | 0 => .empty
  | n + 1 => optional (.seq p (atMost p n))

def repeated? (p : Pattern) (low : Nat) (high : Option Nat) : Option Pattern :=
  if sizeLimit < p.size * max low (high.getD 0) then none
  else
    match high with
    | none => some (copies p (.star p) low)
    | some high => if high < low then none else some (copies p (atMost p (high - low)) low)

def count? (cs : List Char) : Option (Nat × List Char) :=
  let cs := cs.dropWhile Text.isBlank
  let digits := cs.takeWhile Char.isDigit
  let n := digits.foldl (fun n d => 10 * n + (d.toNat - '0'.toNat)) 0
  if digits.isEmpty || Nat.pow 2 32 ≤ n then none
  else some (n, (cs.dropWhile Char.isDigit).dropWhile Text.isBlank)

def bounds? (cs : List Char) : Option ((Nat × Option Nat) × List Char) := do
  let (low, rest) ← count? cs
  match rest with
  | '}' :: more => some ((low, some low), more)
  | ',' :: '}' :: more => some ((low, none), more)
  | ',' :: more =>
    let (high, rest) ← count? more
    match rest with
    | '}' :: behind => some ((low, some high), behind)
    | _ => none
  | _ => none

/-- Reluctance makes no difference to whether there is a match. -/
def dropReluctance : List Char → List Char
  | '?' :: rest => rest
  | cs => cs

inductive GroupHead where
  | group (flags : Flags) (name : Option String)
  | flags (flags : Flags)

def isNameStart (c : Char) : Bool := c == '_' || (Text.isWordChar c && !Text.isDecimalDigit c)

def isNameChar (c : Char) : Bool :=
  c == '_' || c == '.' || c == '[' || c == ']' || Text.isWordChar c

def groupName? : List Char → Option (String × List Char)
  | [] => none
  | c :: cs =>
    if isNameStart c then
      match cs.dropWhile isNameChar with
      | '>' :: rest => some (.ofList (c :: cs.takeWhile isNameChar), rest)
      | _ => none
    else none

def Flags.set? (flags : Flags) (value : Bool) : Char → Option Flags
  | 'i' => some { flags with ignoreCase := value }
  | 'm' => some { flags with multiLine := value }
  | 's' => some { flags with dotAll := value }
  | 'x' => some { flags with verbose := value }
  | 'u' | 'U' | 'R' => some flags
  | _ => none

def readFlags (flags : Flags) (value : Bool) (seen : List Char) :
    List Char → Option (GroupHead × List Char)
  | [] => none
  | ':' :: rest => if seen.head? = some '-' then none else some (.group flags none, rest)
  | ')' :: rest => if seen.isEmpty || seen.head? = some '-' then none else some (.flags flags, rest)
  | c :: rest =>
    if seen.contains c then none
    else if c = '-' then readFlags flags false (c :: seen) rest
    else
      match flags.set? value c with
      | some flags => readFlags flags value (c :: seen) rest
      | none => none

def groupHead? (flags : Flags) : List Char → Option (GroupHead × List Char)
  | '?' :: 'P' :: '<' :: rest | '?' :: '<' :: rest =>
    (groupName? rest).map fun (name, more) => (.group flags (some name), more)
  | '?' :: rest => readFlags flags true [] rest
  | cs => some (.group flags none, cs)

structure Frame where
  outside : Flags
  before : Option Pattern := none
  done : Pattern := .empty
  last : Option Pattern := none

namespace Frame

def current (f : Frame) : Pattern :=
  match f.last with
  | some p => f.done.followedBy p
  | none => f.done

def push (f : Frame) (p : Pattern) : Frame := { f with done := f.current, last := some p }

def settle (f : Frame) : Frame := { f with done := f.current, last := none }

def close (f : Frame) : Pattern :=
  match f.before with
  | some p => .alt p f.current
  | none => f.current

def alternative (f : Frame) : Frame :=
  { f with before := some f.close, done := .empty, last := none }

end Frame

def literal (flags : Flags) (c : Char) : Pattern :=
  .char (if flags.ignoreCase then .anyCase (.single c) else .single c)

def Escaped.pattern (flags : Flags) : Escaped → Pattern
  | .char c => literal flags c
  | .set s => .char s
  | .anchor a => .anchor a

def dot (flags : Flags) : Pattern :=
  .char (.complement (if flags.dotAll then .none else .single '\n'))

def simpleRepetition? : Char → Option (Pattern → Pattern)
  | '*' => some .star
  | '+' => some fun p => .seq p (.star p)
  | '?' => some optional
  | _ => none

def readPattern (flags : Flags) (names : List String) (frame : Frame) (outer : List Frame) :
    (fuel : Nat) → List Char → Option Pattern
  | _, [] => if outer.isEmpty then some frame.close else none
  | 0, _ => none
  | fuel + 1, c :: rest =>
    if flags.verbose && Text.isBlank c then readPattern flags names frame outer fuel rest
    else if flags.verbose && c = '#' then
      readPattern flags names frame outer fuel (rest.dropWhile (· != '\n'))
    else
      match simpleRepetition? c with
      | some repetition =>
        match frame.last with
        | some p =>
          readPattern flags names { frame with last := some (repetition p) } outer fuel
            (dropReluctance rest)
        | none => none
      | none =>
        match c with
        | '{' =>
          match frame.last, bounds? rest with
          | some p, some ((low, high), more) =>
            match repeated? p low high with
            | some q =>
              readPattern flags names { frame with last := some q } outer fuel (dropReluctance more)
            | none => none
          | _, _ => none
        | '|' => readPattern flags names frame.alternative outer fuel rest
        | '(' =>
          match groupHead? flags rest with
          | some (.flags new, more) => readPattern new names frame.settle outer fuel more
          | some (.group new name, more) =>
            if name.any names.contains then none
            else
              readPattern new (name.toList ++ names) { outside := flags } (frame :: outer) fuel more
          | none => none
        | ')' =>
          match outer with
          | f :: fs => readPattern frame.outside names (f.push frame.close) fs fuel rest
          | [] => none
        | '[' =>
          match bracketSet? flags rest with
          | some (s, more) => readPattern flags names (frame.push (.char s)) outer fuel more
          | none => none
        | '\\' =>
          match escape? rest with
          | some (e, more) => readPattern flags names (frame.push (e.pattern flags)) outer fuel more
          | none => none
        | '.' => readPattern flags names (frame.push (dot flags)) outer fuel rest
        | '^' =>
          let a := if flags.multiLine then Anchor.lineStart else .textStart
          readPattern flags names (frame.push (.anchor a)) outer fuel rest
        | '$' =>
          let a := if flags.multiLine then Anchor.lineEnd else .textEnd
          readPattern flags names (frame.push (.anchor a)) outer fuel rest
        | _ => readPattern flags names (frame.push (literal flags c)) outer fuel rest

def parse? (text : String) : Option Pattern :=
  readPattern {} [] { outside := {} } [] text.length text.toList

end Pattern

/-- What a library makes of a regular expression: the test for a match, unless it is not valid. -/
abbrev PatternLibrary := String → Option (String → Bool)

def Pattern.library : PatternLibrary := fun text => (Pattern.parse? text).map Pattern.isMatch

end VippDocdef
