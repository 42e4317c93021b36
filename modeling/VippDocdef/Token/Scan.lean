import VippDocdef.Text.Blank
import VippDocdef.Token

/-! Cutting a source text into tokens. The extent of a token is decided by its first character and
the text behind it; nothing is dropped, and an unterminated literal runs to the end of the text. -/

set_option autoImplicit false

namespace VippDocdef

inductive Unterminated where
  | blockComment
  | quoted
  | parenthesized
  deriving DecidableEq, Repr

def Unterminated.message : Unterminated → String
  | .blockComment => "Unterminated block comment"
  | .quoted => "Unterminated string literal"
  | .parenthesized => "Unterminated VIPP string"

namespace Scan

def isNameStart (c : Char) : Bool := c.isAlpha || c == '_' || c == '$'

def isNameChar (c : Char) : Bool := c.isAlphanum || c == '_' || c == '$'

def isHexDigit (c : Char) : Bool :=
  c.isDigit || ('a' ≤ c && c ≤ 'f') || ('A' ≤ c && c ≤ 'F')

def commentEnd? : List Char → Option Nat
  | '*' :: '/' :: _ => some 2
  | _ :: cs => (commentEnd? cs).map (· + 1)
  | [] => none

def quoteEnd? (quote : Char) : List Char → Option Nat
  | [] => none
  | ['\\'] => none
  | '\\' :: _ :: cs => (quoteEnd? quote cs).map (· + 2)
  | c :: cs => if c = quote then some 1 else (quoteEnd? quote cs).map (· + 1)

def parenEnd? : (depth : Nat) → List Char → Option Nat
  | _, [] => none
  | depth, '(' :: cs => (parenEnd? (depth + 1) cs).map (· + 1)
  | 0, ')' :: _ => some 1
  | depth + 1, ')' :: cs => (parenEnd? depth cs).map (· + 1)
  | depth, _ :: cs => (parenEnd? depth cs).map (· + 1)

/-- What a token is and how far it goes: its kind, how many characters follow the first, and the
closing mark that was not found. -/
structure Extent where
  kind : TokenKind
  more : Nat
  missing : Option Unterminated := none
  deriving DecidableEq, Repr

def Extent.closed (kind : TokenKind) (rest : List Char) (stop : Option Nat)
    (missing : Unterminated) : Extent :=
  match stop with
  | some n => ⟨kind, n, none⟩
  | none => ⟨kind, rest.length, some missing⟩

def Extent.while (kind : TokenKind) (p : Char → Bool) (rest : List Char) : Extent :=
  ⟨kind, (rest.takeWhile p).length, none⟩

/-- A number starts with a digit, or with a point before a digit; `0x` starts a hexadecimal one. -/
def number (c : Char) (rest : List Char) : Extent :=
  match c, rest with
  | '0', 'x' :: digits => ⟨.number, (digits.takeWhile isHexDigit).length + 1, none⟩
  | '0', 'X' :: digits => ⟨.number, (digits.takeWhile isHexDigit).length + 1, none⟩
  | _, _ => .while .number (fun d => d.isDigit || d == '.') rest

def operatorPairs : List (Char × Char) :=
  [('=', '='), ('!', '='), ('<', '='), ('>', '='), ('&', '&'), ('|', '|'), ('+', '+'), ('-', '-')]

/-- Operators are one character long, or two if they form one of the pairs. -/
def operator (c : Char) (rest : List Char) : Extent :=
  match rest with
  | d :: _ => ⟨.operator, if operatorPairs.contains (c, d) then 1 else 0, none⟩
  | [] => ⟨.operator, 0, none⟩

def word (c : Char) (rest : List Char) : Extent :=
  let tail := rest.takeWhile isNameChar
  ⟨if isReserved (.ofList (c :: tail)) then .keyword else .identifier, tail.length, none⟩

def extent (c : Char) (rest : List Char) : Extent :=
  if Text.isBlank c then .while .blank Text.isBlank rest
  else if c = '/' then
    match rest with
    | '*' :: body => .closed .comment rest ((commentEnd? body).map (· + 1)) .blockComment
    | d :: _ => if isNameChar d then .while .variable isNameChar rest else operator c rest
    | [] => operator c rest
  else if c = '%' then .while .comment (· != '\n') rest
  else if c = '\'' || c = '"' then .closed .literal rest (quoteEnd? c rest) .quoted
  else if c = '(' then .closed .literal rest (parenEnd? 0 rest) .parenthesized
  else if c.isDigit then number c rest
  else if c = '.' then
    match rest with
    | d :: _ => if d.isDigit then number c rest else ⟨.unknown, 0, none⟩
    | [] => ⟨.unknown, 0, none⟩
  else if isNameStart c then word c rest
  else if ['[', ']', '{', '}', ',', ';', ':', ')'].contains c then ⟨.delimiter, 0, none⟩
  else if ['+', '-', '*', '=', '!', '<', '>', '&', '|'].contains c then operator c rest
  else ⟨.unknown, 0, none⟩

end Scan

structure ScanWarning where
  pos : Position
  cause : Unterminated
  deriving DecidableEq, Repr

def ScanWarning.text (w : ScanWarning) : String := w.pos.note w.cause.message

structure Scanned where
  tokens : List Token
  warnings : List ScanWarning
  deriving DecidableEq, Repr

def Scanned.add (pos : Position) (offset : Nat) (c : Char) (rest : List Char) (e : Scan.Extent)
    (s : Scanned) : Scanned :=
  { tokens := ⟨e.kind, .ofList (c :: rest.take e.more), pos, offset⟩ :: s.tokens
    warnings := (e.missing.toList.map fun m => ⟨pos, m⟩) ++ s.warnings }

/-- Reads a text of which the first `skip` characters belong to a token already added. -/
def Scanned.read (skip : Nat) (pos : Position) (offset : Nat) : List Char → Scanned
  | [] => ⟨[], []⟩
  | c :: rest =>
    match skip with
    | n + 1 => Scanned.read n (pos.next c) (offset + c.utf8Size) rest
    | 0 =>
      let e := Scan.extent c rest
      (Scanned.read e.more (pos.next c) (offset + c.utf8Size) rest).add pos offset c rest e

def Scanned.ofText (source : String) : Scanned := Scanned.read 0 {} 0 source.toList

end VippDocdef
