/-! Records of a run, and how they are reported. -/

set_option autoImplicit false

namespace VippDocdef

inductive Outcome where
  | success
  | error
  deriving DecidableEq, Repr

structure Record where
  source : String
  output : String
  outcome : Outcome
  message : String
  deriving DecidableEq, Repr

namespace Record

def ofDocument (source output : String) : Record :=
  ⟨source, output, .success, "Conversion completed successfully."⟩

def ofForm (source output : String) : Record :=
  ⟨source, output, .success, "FRM conversion completed successfully."⟩

def failed (source message : String) : Record := ⟨source, "", .error, message⟩

end Record

def failureCount (rs : List Record) : Nat := rs.countP (·.outcome = .error)

def hexDigit (n : Nat) : Char := if n < 10 then Char.ofNat (48 + n) else Char.ofNat (87 + n)

def jsonChar (c : Char) : List Char :=
  match c with
  | '"' => ['\\', '"']
  | '\\' => ['\\', '\\']
  | '\x08' => ['\\', 'b']
  | '\x0c' => ['\\', 'f']
  | '\n' => ['\\', 'n']
  | '\r' => ['\\', 'r']
  | '\t' => ['\\', 't']
  | c =>
    if c.toNat < 32 then ['\\', 'u', '0', '0', hexDigit (c.toNat / 16), hexDigit (c.toNat % 16)]
    else [c]

def jsonString (s : String) : String := .ofList ('"' :: s.toList.flatMap jsonChar ++ ['"'])

def Outcome.text : Outcome → String
  | .success => "SUCCESS"
  | .error => "ERROR"

def Record.json (r : Record) : String :=
  let field := fun (name value : String) => "    " ++ jsonString name ++ ": " ++ jsonString value
  "  \x7b\n" ++ ",\n".intercalate
    [field "source_file" r.source, field "output_file" r.output, field "status" r.outcome.text,
     field "message" r.message] ++ "\n  \x7d"

def reportText (rs : List Record) : String :=
  if rs.isEmpty then "[]" else "[\n" ++ ",\n".intercalate (rs.map Record.json) ++ "\n]"

end VippDocdef
