import VippDocdef.Docdef.Chunk
import VippDocdef.Docdef.Cursor
import VippDocdef.Docdef.Layout
import VippDocdef.Docdef.Term

/-! DocDEF statements. The body of a format is a tree of them; indentation follows the nesting of
the tree, and every branch and outline is closed where it was opened. -/

set_option autoImplicit false

namespace VippDocdef.Docdef

inductive Alignment where
  | left
  | right
  | center
  | justify
  deriving DecidableEq, Repr

def Alignment.keyword : Alignment → String
  | .left => "LEFT"
  | .right => "RIGHT"
  | .center => "CENTER"
  | .justify => "JUSTIFY"

structure Stroke where
  color : Option String
  shade : Option Nat
  lineType : String
  deriving DecidableEq, Repr

inductive Statement where
  | plain (text : String)
  | routine (name : String)
  | output (content : String) (font : String) (place : Place) (color : Option String)
      (align : Option Alignment)
  | column (items : String) (font : String) (place : Place) (width : Float)
      (align : Option Alignment)
  | switched (runs : List (String × String)) (place : Place)
  | switchedRight (runs : List (String × String)) (place : Place) (width : Option Float)
  | baseline (lines : List String) (font : String) (align : Option Alignment)
  | emptyLine (font : String) (y : String)
  | anchor
  | box (x y width height : Float) (stroke : Stroke)
  | rule (x y length : Float) (across : Bool) (thickness : String) (stroke : Stroke)
  | segment (name : String) (place : Place)
  | image (name : String) (place : Place) (scale : String)
  /-- A picture in one of the formats `JPG` and `TIF`, in an area if one is given. -/
  | object (name : String) (format : String) (area : Option (Int × Int))

def justifyWidth : Float := 193.0

namespace Statement

def clauses (head : String) (below : List String) : List Line := ⟨0, head⟩ :: below.map (⟨1, ·⟩)

def widthClause (width : Float) : String := "WIDTH " ++ millimetres width ++ " MM"

def colorClause (color : Option String) : List String := (color.map ("COLOR " ++ ·)).toList

def alignClause (align : Option Alignment) : List String :=
  (align.map fun a => "ALIGN " ++ a.keyword).toList

def runClauses (runs : List (String × String)) : List String :=
  runs.flatMap fun (font, items) => ["FONT " ++ font ++ " NORMAL", items]

def quotedLines : List String → List String
  | [] => []
  | [last] => [quote last ++ ";"]
  | first :: rest => quote first :: quotedLines rest

def anchoredClause (x y : Float) : String :=
  "POSITION (POSX+" ++ millimetres x ++ " MM) (POSY+" ++ millimetres y ++ " MM)"

def areaClauses (area : Option (Int × Int)) : List String :=
  match area with
  | some (w, h) => [s!"('XOBJECTAREASIZE'='{w}')", s!"('YOBJECTAREASIZE'='{h}')"]
  | none => []

def lines : Statement → List Line
  | plain text => [⟨0, text⟩]
  | routine name => [⟨0, s!"USE FORMAT SR_{name};"⟩]
  | output content font place color align =>
    clauses ("OUTPUT " ++ content)
      (["FONT " ++ font ++ " NORMAL", place.clause] ++ colorClause color
        ++ [match align with
            | none | some .justify => ";"
            | some a => "ALIGN " ++ a.keyword ++ " NOPAD;"])
  | column items font place width align =>
    clauses "TEXT"
      ([place.clause, widthClause width] ++ alignClause align
        ++ ["FONT " ++ font, "NORMAL", items, ";"])
  | switched runs place => clauses "TEXT" (place.clause :: runClauses runs ++ [";"])
  | switchedRight runs place width =>
    clauses "TEXT"
      (place.clause :: (width.map widthClause).toList ++ ["ALIGN RIGHT"]
        ++ runClauses runs ++ [";"])
  | baseline texts font align =>
    clauses "TEXT"
      ("POSITION SAME SAME BASELINE"
        :: (if align = some .justify then [widthClause justifyWidth] else [])
        ++ ["FONT " ++ font] ++ alignClause align ++ quotedLines texts)
  | emptyLine font y =>
    flush ["OUTPUT ''", s!"    FONT {font} NORMAL", s!"    POSITION (SAME) ({y});"]
  | anchor => flush ["POSY = $SL_CURRY;", "POSX = $SL_CURRX;"]
  | box x y width height stroke =>
    clauses "BOX"
      ([anchoredClause x y, widthClause width, "HEIGHT " ++ millimetres height ++ " MM"]
        ++ colorClause stroke.color
        ++ [match stroke.shade with
            | some shade => s!"THICKNESS 0 TYPE {stroke.lineType} SHADE {shade};"
            | none => s!"THICKNESS MEDIUM TYPE {stroke.lineType};"])
  | rule x y length across thickness stroke =>
    clauses "RULE"
      ([anchoredClause x y, "DIRECTION " ++ (if across then "ACROSS" else "DOWN")]
        ++ colorClause stroke.color
        ++ ["LENGTH " ++ millimetres length ++ " MM",
            s!"THICKNESS {thickness} MM TYPE {stroke.lineType}", ";"])
  | segment name place => clauses ("SEGMENT " ++ name) [place.clause ++ ";"]
  | image name place scale =>
    clauses s!"IMAGE '{name}'" [place.clause, "SCALE " ++ scale, ";"]
  | object name format area =>
    [⟨0, "CREATEOBJECT IOBDLL(IOBDEFS)"⟩, ⟨1, "POSITION (SAME) (SAME)"⟩, ⟨1, "PARAMETERS"⟩]
      ++ ([s!"('FILENAME'='{name}')", "('OBJECTTYPE'='1')", s!"('OTHERTYPES'='{format}')"]
          ++ areaClauses area ++ ["('OBJECTMAPPING'='2');"]).map (⟨2, ·⟩)

def isPrinting : Statement → Bool
  | plain _ | routine _ | anchor => false
  | _ => true

end Statement

inductive Block where
  | done
  | statement (s : Statement) (rest : Block)
  | ifThen (header : String) (yes : Block) (rest : Block)
  | ifThenElse (header : String) (yes no : Block) (rest : Block)
  | outline (body : Block) (rest : Block)

namespace Block

def append : Block → Block → Block
  | .done, b => b
  | .statement s rest, b => .statement s (rest.append b)
  | .ifThen header yes rest, b => .ifThen header yes (rest.append b)
  | .ifThenElse header yes no rest, b => .ifThenElse header yes no (rest.append b)
  | .outline body rest, b => .outline body (rest.append b)

instance : Append Block := ⟨Block.append⟩

def outlineHead : List Line :=
  [.blank, ⟨0, "OUTLINE"⟩, ⟨1, "POSITION LEFT NEXT"⟩, ⟨1, "DIRECTION ACROSS;"⟩, .blank]

def lines : Block → List Line
  | .done => []
  | .statement s rest => s.lines ++ rest.lines
  | .ifThen header yes rest =>
    flush [header, "THEN;"] ++ indented yes.lines ++ flush ["ENDIF;"] ++ rest.lines
  | .ifThenElse header yes no rest =>
    flush [header, "THEN;"] ++ indented yes.lines ++ flush ["ELSE;"] ++ indented no.lines
      ++ flush ["ENDIF;"] ++ rest.lines
  | .outline body rest => outlineHead ++ indented body.lines ++ flush ["ENDIO;"] ++ rest.lines

/-- Writes a block line by line: the level goes up in front of a body and down behind it. -/
def writeOn (d : Detector) : Block → Listing → Listing
  | .done, l => l
  | .statement s rest, l => rest.writeOn d (l.add d s.lines)
  | .ifThen header yes rest, l =>
    let yes := yes.writeOn d (l.add d (flush [header, "THEN;"])).indent
    rest.writeOn d (yes.dedent.add d (flush ["ENDIF;"]))
  | .ifThenElse header yes no rest, l =>
    let yes := yes.writeOn d (l.add d (flush [header, "THEN;"])).indent
    let no := no.writeOn d (yes.dedent.add d (flush ["ELSE;"])).indent
    rest.writeOn d (no.dedent.add d (flush ["ENDIF;"]))
  | .outline body rest, l =>
    let body := body.writeOn d (l.add d outlineHead).indent
    rest.writeOn d (body.dedent.add d (flush ["ENDIO;"]))

theorem writeOn_eq (d : Detector) (b : Block) (l : Listing) : b.writeOn d l = l.add d b.lines := by
  induction b generalizing l with
  | done => simp [writeOn, lines, Listing.add]
  | statement s rest ih => rw [writeOn, ih, lines, Listing.add_append]
  | ifThen header yes rest hy hr =>
    simp only [writeOn, hy, hr, Listing.dedent_add_indent, lines, Listing.add_append]
  | ifThenElse header yes no rest hy hn hr =>
    simp only [writeOn, hy, hn, hr, Listing.dedent_add_indent, lines, Listing.add_append]
  | outline body rest hb hr =>
    simp only [writeOn, hb, hr, Listing.dedent_add_indent, lines, Listing.add_append]

def single (s : Statement) : Block := .statement s .done

def ofList (ss : List Statement) : Block := ss.foldr .statement .done

@[simp] theorem done_append (b : Block) : Block.done ++ b = b := rfl

@[simp] theorem append_done (b : Block) : b ++ Block.done = b := by
  show b.append .done = b
  induction b <;> simp_all [append]

theorem append_assoc (a b c : Block) : a ++ b ++ c = a ++ (b ++ c) := by
  show (a.append b).append c = a.append (b.append c)
  induction a <;> simp_all [append]

@[simp] theorem lines_append (a b : Block) : (a ++ b).lines = a.lines ++ b.lines := by
  show (a.append b).lines = _
  induction a <;> simp_all [append, lines]

end Block

end VippDocdef.Docdef
