import VippDocdef.Docdef.Condition
import VippDocdef.Docdef.Flow
import VippDocdef.Docdef.Shape
import VippDocdef.Docdef.Show

/-! Commands into statements. Printing needs an outline: the first action of a list that prints
opens one, and it lasts to the end of the list. -/

set_option autoImplicit false

namespace VippDocdef.Docdef

def mangledWords : List String := ["IF", "ELSE", "THEN", "ENDIF", "PAGEBRK", "\x7b", "\x7d", "%"]

def isMangled (name value : String) : Bool :=
  value = "-" || value = "="
    || mangledWords.any fun word => Text.contains name word || Text.contains value word

def setStatement (name value : String) : String :=
  if isMangled name value then s!"/* {name} = {value}; */"
  else if value = "++" then Condition.stepStatement name "+"
  else if value = "--" then Condition.stepStatement name "-"
  else name ++ " = " ++ term value ++ ";"

/-- The statement of an assignment; an operator in the place of the name changes places with the
value. -/
def assignStatement? (a : Assignment) : Option String :=
  let target := Text.dropLeading '/' a.target
  match a.op, a.value with
  | .increment, _ => some (Condition.stepStatement target "+")
  | .decrement, _ => some (Condition.stepStatement target "-")
  | .set, none => none
  | .set, some value =>
    if target ∈ ["++", "--", "+", "-", "*"] then
      some (setStatement (Text.dropLeading '/' value) a.target)
    else some (setStatement target value)

def State.move (s : State) (x : String) (y : Option String) : State :=
  match Decimal.read? x, y with
  | none, _ => s
  | some x, none => s.withCursor (·.moveHorizontal x)
  | some x, some y =>
    match Decimal.read? y with
    | some y => s.withCursor (·.moveTo x y)
    | none => s

/-- A new line. A negative amount goes back up by whole lines, and nothing is written for it. -/
def State.emitNewLine (s : State) (amount : Option String) : Emission :=
  match amount.bind Decimal.read? with
  | some v =>
    if v < 0 then .quiet (s.withCursor (·.backUp v.abs.round.toUInt32.toNat))
    else
      .one (.emptyLine s.sec.font ("SAME+" ++ millimetres v ++ " MM"))
        (s.withCursor (·.afterNewLine))
  | none => .one (.emptyLine s.sec.font "NEXT") (s.withCursor (·.afterNewLine))

def silentWords : List String :=
  ["SETLKF", "SETPAGEDEF", "INDEXFONT", "INDEXCOLOR", "INDEXBAT", "SETUNIT", "ORITL", "PORT",
   "LAND", "SETFTSW", "SETFORM"]

def unsupported (name : String) : String := s!"/* VIPP command not directly supported: {name} */"

def offsetFromOne (start : String) : String :=
  match Decimal.readInt64? start with
  | some n => toString (Int64.ofInt n + 1).toInt
  | none => start ++ " + 1"

def substringStatement (args : List String) : String :=
  match args with
  | [result, source, start, length] =>
    Text.dropLeading '/' result ++ " = SUBSTR(" ++ term source ++ ", " ++ offsetFromOne start
      ++ ", " ++ length ++ ", '');"
  | _ => unsupported "GETINTV"

def clipNotes : List String :=
  ["/* Note: DFA does not support CLIP/ENDCLIP. */",
   "/* Use MARGIN, SHEET/LOGICALPAGE dimensions, WIDTH on TEXT, or image size params instead */"]

def genericLines (name : String) (args : List String) : List String :=
  match name with
  | "SETLSP" =>
    match args with
    | spacing :: _ => ["SETUNITS LINESP " ++ spacing ++ " MM;"]
    | [] => ["SETUNITS LINESP AUTO;"]
  | "FOR" => ["FOR " ++ " ".intercalate (args.map term) ++ ";"]
  | "ENDFOR" => ["ENDFOR;"]
  | "GETINTV" => [substringStatement args]
  | "CACHE" => []
  | "CLIP" | "ENDCLIP" => clipNotes
  | "PAGEBRK" | "NEWFRAME" => ["USE LP NEXT;"]
  | "NEWFRONT" => ["USE LP NEXT SIDE FRONT;"]
  | "NEWBACK" => ["USE LP NEXT SIDE BACK;"]
  | other => if silentWords.contains other then [] else [unsupported other]

def State.emitGeneric (s : State) (name : String) (args : List String) : Emission :=
  .many ((genericLines name args).map .plain)
    (if name = "CACHE" then { s with sec := { s.sec with cache := args } } else s)

def cacheArea? (args : List String) : Option (Int × Int) :=
  match args.dropWhile (· ≠ "[") with
  | _ :: w :: h :: "]" :: _ => do return (← Decimal.readInt64? w, ← Decimal.readInt64? h)
  | _ => none

def segmentFile (cache : List String) (name : String) : String :=
  (cache.findSome? unparen?).getD
    (Text.trimMatches (fun c => c = '(' || c = ')' || c = '/') name)

inductive SegmentKind where
  | bare
  | picture (format : String)
  | drawing
  | other
  deriving DecidableEq, Repr

def segmentKind (file : String) : String × SegmentKind :=
  match Text.splitLast? '.' file with
  | none => (file, .bare)
  | some (stem, ending) =>
    match ending.toLower with
    | "jpg" | "jpeg" => (stem, .picture "JPG")
    | "tif" | "tiff" => (stem, .picture "TIF")
    | "eps" => (stem, .drawing)
    | _ => (stem, .other)

def segmentCorrection : String := "&CORSEGMENT"

/-- A segment stands where the cursor was moved to; where it was not, at the last output. -/
def Cursor.segmentPlace (c : Cursor) : Place :=
  ⟨c.xCoordinate, if c.ySet then .value c.y else .keyword "SAME", some segmentCorrection⟩

def Cursor.drawingPlace (c : Cursor) : Place :=
  ⟨c.xCoordinate, .keyword ("0 MM-$MR_TOP+" ++ segmentCorrection), none⟩

def imageName (name : String) : String := Text.dropLeading '/' ((unparen? name).getD name)

def State.emitImage (s : State) (c : ResourceCall) : Emission :=
  if imageName c.name = "" then .quiet s
  else
    let scale := (c.args.find? fun a => (Decimal.read? a).isSome).getD "1.0"
    .one (.image (imageName c.name) ⟨.value s.sec.cursor.x, .value s.sec.cursor.y, none⟩ scale) s

abbrev Expansion := List Command → State → Emission

/-- A subroutine is expanded if it is short, and called if it is long. Names that are no subroutine
are segments of the target. -/
def State.emitSubroutine (s : State) (e : Env) (expand : Expansion) (name : String) : Emission :=
  match e.project.subroutine? name with
  | none => .one (.segment name s.sec.cursor.segmentPlace) s
  | some body =>
    if e.settings.inlineThreshold < body.length then .one (.routine name) (s.request name)
    else
      match s.enter? name with
      | none =>
        .one (.plain s!"/* Recursive subroutine call: {name} */")
          (s.warn s!"Recursive subroutine call to {name} not inlined")
      | some inside =>
        let body' := expand body inside
        ⟨.statement (.plain s!"/* Inlined subroutine: {name} ({body.length} commands) */")
          body'.block,
          body'.state.leave⟩

def State.emitFile (s : State) (e : Env) (expand : Expansion) (cache : List String)
    (file : String) :
    Emission :=
  match segmentKind file with
  | (stem, .bare) => s.emitSubroutine e expand stem
  | (stem, .picture format) => .one (.object stem format (cacheArea? cache)) s
  | (stem, .drawing) => .one (.segment stem s.sec.cursor.drawingPlace) s
  | (stem, .other) => .one (.segment stem s.sec.cursor.segmentPlace) s

/-- `SCALL` takes what `CACHE` kept, and no axis is explicit behind it. -/
def State.emitSegment (s : State) (e : Env) (expand : Expansion) (c : ResourceCall) : Emission :=
  let taken := { s with sec := { s.sec with cache := [] } }
  let file := segmentFile s.sec.cache c.name
  if file = "" then .quiet taken
  else
    let called := taken.emitFile e expand s.sec.cache file
    ⟨called.block, called.state.withCursor (·.release)⟩

def State.emitAction (s : State) (e : Env) (expand : Expansion) : Action → Emission
  | .assign a => .many ((assignStatement? a).map Statement.plain).toList s
  | .text o => s.emitText e o
  | .call c =>
    match c.kind with
    | .segment => s.emitSegment e expand c
    | .image => s.emitImage c
  | .move x y => .quiet (s.move x y)
  | .newLine amount => s.emitNewLine amount
  | .box args => s.emitBox e args
  | .font name => .quiet (s.withFont (e.fontAlias name))
  | .color name => .quiet { s with sec := { s.sec with color := some (e.colorAlias name) } }
  | .generic name args => s.emitGeneric name args

def State.opensOutline (s : State) (a : Action) : Bool := a.isOutput && !s.sec.outlineOpen

def strayElse : String := "/* ELSE branch without matching IF */"

def Condition.before (c : Condition) (b : Block) : Block :=
  c.hoisted.foldr (fun text rest => .statement (.plain text) rest) b

theorem Condition.lines_before (c : Condition) (b : Block) :
    (c.before b).lines = flush c.hoisted ++ b.lines := by
  unfold Condition.before flush
  induction c.hoisted with
  | nil => rfl
  | cons text rest ih => simp [Block.lines, Statement.lines, ih]

def Condition.opening (c : Condition) : List Line := flush c.hoisted ++ flush [c.ifLine, "THEN;"]

abbrev Emitter := Action → State → Emission

def Env.emitter (e : Env) (expand : Expansion) : Emitter := fun a s => s.emitAction e expand a

def Flow.emit (act : Emitter) : Flow → State → Emission
  | .done, s => .quiet s
  | .act a rest, s =>
    if s.opensOutline a then
      let first := act a s.openOutline
      let others := rest.emit act first.state
      ⟨.outline (first.block ++ others.block) .done, others.state.closeOutline⟩
    else
      let first := act a s
      let others := rest.emit act first.state
      ⟨first.block ++ others.block, others.state⟩
  | .branch condition yes rest, s =>
    let test := Condition.ofAtoms condition
    let yes := yes.emit act s
    let others := rest.emit act yes.state
    ⟨test.before (.ifThen test.ifLine yes.block others.block), others.state⟩
  | .branchElse condition yes no rest, s =>
    let test := Condition.ofAtoms condition
    let yes := yes.emit act s
    let no := no.emit act yes.state
    let others := rest.emit act no.state
    ⟨test.before (.ifThenElse test.ifLine yes.block no.block others.block), others.state⟩
  | .scope body rest, s =>
    let body := body.emit act s
    let others := rest.emit act body.state
    ⟨body.block ++ others.block, others.state⟩
  | .stray body rest, s =>
    let body := body.emit act s
    let others := rest.emit act body.state
    ⟨.statement (.plain strayElse) (body.block ++ others.block), others.state⟩

/-- The walk of a flow with a listing that is written as it goes along. The level goes up in front
of a body and down behind it; an outline is closed at the end of the list that `opened` it, if it is
open. -/
def Flow.writeOn (d : Detector) (act : Emitter) :
    Flow → (opened : Bool) → State → Listing → State × Listing
  | .done, opened, s, l =>
    if opened && s.sec.outlineOpen then (s.closeOutline, l.dedent.add d (flush ["ENDIO;"]))
    else (s, l)
  | .act a rest, opened, s, l =>
    if s.opensOutline a then
      let first := act a s.openOutline
      rest.writeOn d act true first.state (first.block.writeOn d (l.add d Block.outlineHead).indent)
    else
      let first := act a s
      rest.writeOn d act opened first.state (first.block.writeOn d l)
  | .branch condition yes rest, opened, s, l =>
    let head := (Condition.ofAtoms condition).opening
    let yes := yes.writeOn d act false s (l.add d head).indent
    rest.writeOn d act opened yes.1 (yes.2.dedent.add d (flush ["ENDIF;"]))
  | .branchElse condition yes no rest, opened, s, l =>
    let head := (Condition.ofAtoms condition).opening
    let yes := yes.writeOn d act false s (l.add d head).indent
    let no := no.writeOn d act false yes.1 (yes.2.dedent.add d (flush ["ELSE;"])).indent
    rest.writeOn d act opened no.1 (no.2.dedent.add d (flush ["ENDIF;"]))
  | .scope body rest, opened, s, l =>
    let body := body.writeOn d act false s l
    rest.writeOn d act opened body.1 body.2
  | .stray body rest, opened, s, l =>
    let body := body.writeOn d act false s (l.add d (flush [strayElse]))
    rest.writeOn d act opened body.1 body.2

/-- The statements of a command list in which subroutines are expanded up to some depth. -/
def emitNested (e : Env) : (depth : Nat) → Expansion
  | 0 => fun _ s => .quiet s
  | depth + 1 => fun commands s =>
    (Flow.ofCommands commands).emit (e.emitter (emitNested e depth)) s

/-- No more expansions than there are subroutines can be under way at once. -/
def Env.nesting (e : Env) : Nat := e.project.subroutineNames.length + 1

def State.emit (s : State) (e : Env) (commands : List Command) : Emission :=
  emitNested e e.nesting commands s

def State.writeOn (s : State) (e : Env) (d : Detector) (commands : List Command) (l : Listing) :
    State × Listing :=
  (Flow.ofCommands commands).writeOn d (e.emitter (emitNested e e.project.subroutineNames.length))
    false s l

theorem State.emit_eq (s : State) (e : Env) (commands : List Command) :
    s.emit e commands = (Flow.ofCommands commands).emit
      (e.emitter (emitNested e e.project.subroutineNames.length)) s := rfl

end VippDocdef.Docdef
