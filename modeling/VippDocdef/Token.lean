import VippDocdef.Position

/-! Tokens of a VIPP source text. Blanks and stray characters are tokens too, so that a text is the
concatenation of its tokens. -/

set_option autoImplicit false

namespace VippDocdef

inductive TokenKind where
  | keyword
  | identifier
  | variable
  | literal
  | number
  | operator
  | delimiter
  | comment
  | blank
  | unknown
  deriving DecidableEq, Repr

structure Token where
  kind : TokenKind
  text : String
  pos : Position
  /-- UTF-8 bytes of the source before the token. -/
  offset : Nat
  deriving DecidableEq, Repr

namespace Token

/-- Blanks and stray characters, which no command sees. -/
def isTrivia (t : Token) : Bool := t.kind = .blank || t.kind = .unknown

def isDelimiter (t : Token) (text : String) : Bool := t.kind = .delimiter && t.text = text

def isWord (t : Token) (word : String) : Bool :=
  (t.kind = .keyword || t.kind = .identifier) && t.text = word

end Token

def reservedWords : List String :=
  ["XGF", "ENDXGF", "SETPROJECT", "ENDJOB", "STARTDBM", "ENDCASE", "BEGINDOCUMENT", "ENDDOCUMENT",
   "CASE", "PREFIX", "ENDPAGE", "BEGINPAGE", "FSHOW", "SETPARAMS", "SETUNIT", "SETFTSW", "SETSUB",
   "SETVARS", "SETVAR", "SETINFO", "IF", "ELSE", "ENDIF", "FOR", "ENDFOR", "WHILE", "ENDWHILE",
   "REPEAT", "BREAK", "CONTINUE", "GOTO", "INDEXFONT", "INDEXCOLOR", "INDEXBAT", "XGFRESDEF",
   "SETPAGESIZE", "SETLSP", "SETPAGENUMBER", "SETPAGEDEF", "SETLKF", "SETFORM", "MOVETO", "MOVEH",
   "LINETO", "NL", "ORITL", "PORT", "LAND", "SHL", "SHR", "SHC", "SHP", "CACHE", "ICALL", "SCALL",
   "DRAWB", "MM", "CM", "INCH", "POINT"]

def isReserved (word : String) : Bool := reservedWords.contains word.toUpper

end VippDocdef
