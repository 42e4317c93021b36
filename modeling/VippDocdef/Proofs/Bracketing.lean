import VippDocdef.Proofs.Steps

/-! The nesting of written programs. Whatever a command list is like, each of its branches and
outlines is closed where it was opened, and the lines behind it stand at the level of those before
it. -/

set_option autoImplicit false

namespace VippDocdef.Docdef

def lineAt (level : Nat) (text : String) : String := Line.indentation level ++ text

def Mark.lineAt (m : Mark) (level : Nat) : String := Docdef.lineAt level m.text

def outlineOpener (level : Nat) : List String :=
  ["", Mark.outline.lineAt level, lineAt (level + 1) "POSITION LEFT NEXT",
    lineAt (level + 1) "DIRECTION ACROSS;", ""]

/-- `Bracketed n headers lines`: the lines are well bracketed, with what stands in branches and
outlines one level deeper, and the headers are those of their branches, in the order of the
lines. -/
inductive Bracketed : (level : Nat) → (headers lines : List String) → Prop where
  | done (n : Nat) : Bracketed n [] []
  | data {n : Nat} {line : String} {headers rest : List String} (isData : DataLine line)
      (next : Bracketed n headers rest) : Bracketed n headers (line :: rest)
  | ifThen {n : Nat} {header : String} {inner headers yes rest : List String}
      (isHeader : Condition.IsHeader header) (first : Bracketed (n + 1) inner yes)
      (next : Bracketed n headers rest) :
      Bracketed n (header :: (inner ++ headers))
        (lineAt n header :: Mark.thenPart.lineAt n :: (yes ++ Mark.endIf.lineAt n :: rest))
  | ifThenElse {n : Nat} {header : String} {inner inner' headers yes no rest : List String}
      (isHeader : Condition.IsHeader header) (first : Bracketed (n + 1) inner yes)
      (second : Bracketed (n + 1) inner' no) (next : Bracketed n headers rest) :
      Bracketed n (header :: (inner ++ (inner' ++ headers)))
        (lineAt n header :: Mark.thenPart.lineAt n ::
          (yes ++ Mark.elsePart.lineAt n :: (no ++ Mark.endIf.lineAt n :: rest)))
  | outline {n : Nat} {inner headers body rest : List String}
      (inside : Bracketed (n + 1) inner body) (next : Bracketed n headers rest) :
      Bracketed n (inner ++ headers)
        (outlineOpener n ++ (body ++ Mark.endOutline.lineAt n :: rest))

theorem Bracketed.append_data {n : Nat} {headers lines rest : List String}
    (h : ∀ line ∈ lines, DataLine line) (next : Bracketed n headers rest) :
    Bracketed n headers (lines ++ rest) := by
  induction lines with
  | nil => exact next
  | cons line lines ih =>
    obtain ⟨hline, hlines⟩ := List.forall_mem_cons.1 h
    exact .data hline (ih hlines)

inductive Frame where
  | yes
  | no
  | outline
  deriving DecidableEq, Repr

/-- What is open behind a mark, innermost first; `none` if it closes or divides what is not open. -/
def Mark.read (frames : List Frame) : Mark → Option (List Frame)
  | .thenPart => some (.yes :: frames)
  | .outline => some (.outline :: frames)
  | .elsePart =>
    match frames with
    | .yes :: below => some (.no :: below)
    | _ => none
  | .endIf =>
    match frames with
    | .yes :: below | .no :: below => some below
    | _ => none
  | .endOutline =>
    match frames with
    | .outline :: below => some below
    | _ => none

def marks (lines : List String) : List Mark := lines.filterMap Mark.ofLine?

def readLines (frames : List Frame) (lines : List String) : Option (List Frame) :=
  (marks lines).foldlM Mark.read frames

@[simp] theorem marks_append (a b : List String) : marks (a ++ b) = marks a ++ marks b :=
  List.filterMap_append

theorem marks_cons_data {line : String} (h : Mark.ofLine? line = none) (rest : List String) :
    marks (line :: rest) = marks rest :=
  List.filterMap_cons_none h

theorem Mark.ofLine?_lineAt (level : Nat) (text : String) :
    ofLine? (Docdef.lineAt level text) = ofLine? text := by
  simp [ofLine?, Docdef.lineAt, Line.indentation]

@[simp] theorem marks_cons_mark (m : Mark) (n : Nat) (rest : List String) :
    marks (m.lineAt n :: rest) = m :: marks rest := by
  have hm : Mark.ofLine? (m.lineAt n) = some m := by
    rw [Mark.lineAt, Mark.ofLine?_lineAt, ← Mark.ofList_letters]
    cases m <;> simp [Mark.ofLine?, Mark.all, Mark.letters]
  exact List.filterMap_cons_some hm

theorem DataLine.lineAt {text : String} (h : DataLine text) (level : Nat) :
    DataLine (lineAt level text) := by
  refine ⟨(Mark.ofLine?_lineAt level text).trans h.1, ?_⟩
  rw [Apart, Docdef.lineAt, Line.indentation, String.toList_append, String.toList_ofList]
  refine h.2.imp (fun hstart => ?_) fun hequals => hequals.trans (List.suffix_append _ _).isInfix
  simpa using hstart

theorem Condition.IsHeader.ofLine?_eq {header : String} (h : IsHeader header) :
    Mark.ofLine? header = none := by
  obtain ⟨test, rfl⟩ := h
  have hmarks : ∀ m ∈ Mark.all, isApart m.letters "IF " = true := by decide
  rw [Mark.ofLine?_eq_none]
  intro m hm hline
  rw [String.append_assoc] at hline
  exact not_isPrefix_append (hmarks m hm) (test ++ ";") (hline ▸ List.prefix_refl m.letters)

theorem marks_cons_header {header : String} (h : Condition.IsHeader header) (n : Nat)
    (rest : List String) : marks (lineAt n header :: rest) = marks rest :=
  marks_cons_data ((Mark.ofLine?_lineAt n header).trans h.ofLine?_eq) rest

theorem marks_outlineOpener (n : Nat) : marks (outlineOpener n) = [.outline] := by
  have hp : Mark.ofLine? (lineAt (n + 1) "POSITION LEFT NEXT") = none := by
    rw [Mark.ofLine?_lineAt]; decide
  have hd : Mark.ofLine? (lineAt (n + 1) "DIRECTION ACROSS;") = none := by
    rw [Mark.ofLine?_lineAt]; decide
  rw [outlineOpener, marks_cons_data Mark.ofLine?_empty, marks_cons_mark, marks_cons_data hp,
    marks_cons_data hd, marks_cons_data Mark.ofLine?_empty]
  rfl

theorem Bracketed.readLines_eq {n : Nat} {headers lines : List String}
    (h : Bracketed n headers lines) (frames : List Frame) :
    readLines frames lines = some frames := by
  unfold readLines
  induction h generalizing frames with
  | done n => rfl
  | data isData next ih => rw [marks_cons_data isData.1, ih]
  | ifThen isHeader first next hfirst hnext =>
    simp [marks_cons_header isHeader, Mark.read, List.foldlM_append, hfirst, hnext]
  | ifThenElse isHeader first second next hfirst hsecond hnext =>
    simp [marks_cons_header isHeader, Mark.read, List.foldlM_append, hfirst, hsecond, hnext]
  | outline inside next hinside hnext =>
    simp [marks_outlineOpener, Mark.read, List.foldlM_append, hinside, hnext]

/-- Each header has a `THEN;` and an `ENDIF;`, and there are no others; some have an `ELSE;`. -/
theorem Bracketed.count_marks {n : Nat} {headers lines : List String}
    (h : Bracketed n headers lines) :
    (marks lines).count .thenPart = headers.length ∧ (marks lines).count .endIf = headers.length ∧
      (marks lines).count .elsePart ≤ headers.length := by
  induction h with
  | done n => exact ⟨rfl, rfl, Nat.le_refl 0⟩
  | data isData next ih => rwa [marks_cons_data isData.1]
  | ifThen isHeader first next hfirst hnext =>
    simp [marks_cons_header isHeader]
    omega
  | ifThenElse isHeader first second next hfirst hsecond hnext =>
    simp [marks_cons_header isHeader]
    omega
  | outline inside next hinside hnext =>
    simp [marks_outlineOpener]
    omega

def writeAt (d : Detector) (level : Nat) (lines : List Line) : List String :=
  lines.map fun x => (x.deeper level).write d

@[simp] theorem writeAt_append (d : Detector) (n : Nat) (a b : List Line) :
    writeAt d n (a ++ b) = writeAt d n a ++ writeAt d n b := by
  simp [writeAt]

@[simp] theorem writeAt_indented (d : Detector) (n : Nat) (lines : List Line) :
    writeAt d n (indented lines) = writeAt d (n + 1) lines := by
  simp [writeAt, indented, Function.comp_def]

theorem writeAt_congr {d d' : Detector} {lines : List Line}
    (h : ∀ x ∈ lines, d.flags x.text = d'.flags x.text) (n : Nat) :
    writeAt d n lines = writeAt d' n lines := by
  apply List.map_congr_left
  intro x hx
  have hs : d.sanitize x.text = d'.sanitize x.text := by
    unfold Detector.sanitize
    rw [h x hx]
  unfold Line.write Line.deeper
  rw [hs]

theorem write_of_not_flagged {d : Detector} {text : String} (h : d.flags text = false)
    (hne : text ≠ "") (depth : Nat) : Line.write d ⟨depth, text⟩ = lineAt depth text := by
  simp [Line.write, Detector.sanitize, h, hne, lineAt]

inductive Block.Sound : Block → Prop where
  | done : Sound .done
  | statement {s : Statement} {rest : Block} (isData : s.IsData) (next : Sound rest) :
      Sound (.statement s rest)
  | ifThen {header : String} {yes rest : Block} (isHeader : Condition.IsHeader header)
      (first : Sound yes) (next : Sound rest) : Sound (.ifThen header yes rest)
  | ifThenElse {header : String} {yes no rest : Block} (isHeader : Condition.IsHeader header)
      (first : Sound yes) (second : Sound no) (next : Sound rest) :
      Sound (.ifThenElse header yes no rest)
  | outline {body rest : Block} (inside : Sound body) (next : Sound rest) :
      Sound (.outline body rest)

def Detector.idle : Detector := ⟨[]⟩

@[simp] theorem Detector.flags_idle (line : String) : Detector.idle.flags line = false := by
  simp [flags, idle]

theorem Line.write_idle (l : Line) :
    l.write .idle = if l.text = "" then "" else lineAt l.depth l.text := by
  simp [Line.write, Detector.sanitize, lineAt]

theorem writeAt_flush {texts : List String} (h : "" ∉ texts) (n : Nat) :
    writeAt .idle n (flush texts) = texts.map (lineAt n) := by
  simp only [writeAt, flush, List.map_map]
  apply List.map_congr_left
  intro text ht
  have hne : text ≠ "" := fun h' => h (h' ▸ ht)
  simp [Line.write_idle, Line.deeper, hne]

theorem writeAt_outlineHead (n : Nat) : writeAt .idle n Block.outlineHead = outlineOpener n := by
  simp [writeAt, Block.outlineHead, Line.write_idle, Line.deeper, Line.blank, outlineOpener,
    Mark.lineAt, Mark.text]

theorem Condition.IsHeader.ne_empty {header : String} (h : IsHeader header) : header ≠ "" := by
  obtain ⟨test, rfl⟩ := h
  simp [← String.toList_inj]

def Block.headers : Block → List String
  | .done => []
  | .statement _ rest => rest.headers
  | .ifThen header yes rest => header :: (yes.headers ++ rest.headers)
  | .ifThenElse header yes no rest => header :: (yes.headers ++ (no.headers ++ rest.headers))
  | .outline body rest => body.headers ++ rest.headers

theorem Block.Sound.bracketed {b : Block} (h : b.Sound) (n : Nat) :
    Bracketed n b.headers (writeAt .idle n b.lines) := by
  induction h generalizing n with
  | done => exact .done n
  | statement isData next ih =>
    rw [Block.lines, writeAt_append]
    refine .append_data ?_ (ih n)
    intro line hline
    obtain ⟨x, hx, rfl⟩ := List.mem_map.1 hline
    rw [Line.write_idle]
    split
    · exact dataLine_empty
    · exact (isData.dataLine x hx).lineAt _
  | ifThen isHeader first next hfirst hnext =>
    have hb := Bracketed.ifThen isHeader (hfirst (n + 1)) (hnext n)
    simpa [Block.headers, Block.lines, writeAt_flush, isHeader.ne_empty.symm, Mark.lineAt,
      Mark.text] using hb
  | ifThenElse isHeader first second next hfirst hsecond hnext =>
    have hb := Bracketed.ifThenElse isHeader (hfirst (n + 1)) (hsecond (n + 1)) (hnext n)
    simpa [Block.headers, Block.lines, writeAt_flush, isHeader.ne_empty.symm, Mark.lineAt,
      Mark.text] using hb
  | outline inside next hinside hnext =>
    have hb := Bracketed.outline (hinside (n + 1)) (hnext n)
    simpa [Block.headers, Block.lines, writeAt_flush, writeAt_outlineHead, Mark.lineAt,
      Mark.text] using hb

theorem Block.Sound.append {a b : Block} (ha : a.Sound) (hb : b.Sound) : (a ++ b).Sound := by
  show (a.append b).Sound
  induction ha with
  | done => exact hb
  | statement isData next ih => exact .statement isData ih
  | ifThen isHeader first next _ ih => exact .ifThen isHeader first ih
  | ifThenElse isHeader first second next _ _ ih => exact .ifThenElse isHeader first second ih
  | outline inside next _ ih => exact .outline inside ih

theorem Block.sound_ofList {ss : List Statement} (h : ∀ s ∈ ss, s.IsData) :
    (Block.ofList ss).Sound := by
  induction ss with
  | nil => exact .done
  | cons s rest ih =>
    obtain ⟨hs, hrest⟩ := List.forall_mem_cons.1 h
    exact .statement hs (ih hrest)

theorem Condition.sound_before (atoms : List String) {b : Block} (h : b.Sound) :
    ((ofAtoms atoms).before b).Sound := by
  have ht := ordinary_hoisted atoms
  unfold before
  generalize (ofAtoms atoms).hoisted = texts at ht ⊢
  induction texts with
  | nil => exact h
  | cons text rest ih =>
    obtain ⟨htext, hrest⟩ := List.forall_mem_cons.1 ht
    exact .statement (Statement.isData_plain.2 htext) (ih hrest)

theorem Step.sound {e : Env} {expand : Expansion} {a : Action} {s : State} {r : Emission}
    (hx : ∀ cs t, (expand cs t).block.Sound) (h : Step e expand a s r) : r.block.Sound := by
  cases h with
  | row row prints =>
    rw [row.block]
    exact Block.sound_ofList row.isData
  | call isOutput defined block state =>
    rw [block]
    exact .statement (Statement.isData_of_ownLines rfl) .done
  | expansion isOutput defined fresh isNote entered block state =>
    rw [block]
    exact .statement (Statement.isData_plain.2 isNote) (hx _ _)

theorem Flow.sound_emit {act : Emitter} (h : ∀ a s, (act a s).block.Sound) (f : Flow) (s : State) :
    (f.emit act s).block.Sound := by
  induction f generalizing s with
  | done => exact .done
  | act a rest ih =>
    by_cases ha : s.opensOutline a = true
    · simpa [Flow.emit, ha] using Block.Sound.outline ((h a _).append (ih _)) .done
    · simpa [Flow.emit, ha] using (h a s).append (ih _)
  | branch condition yes rest hy hr =>
    have hh := Condition.isHeader_ifLine (Condition.ofAtoms condition)
    simp only [Flow.emit]
    exact Condition.sound_before condition (.ifThen hh (hy _) (hr _))
  | branchElse condition yes no rest hy hn hr =>
    have hh := Condition.isHeader_ifLine (Condition.ofAtoms condition)
    simp only [Flow.emit]
    exact Condition.sound_before condition (.ifThenElse hh (hy _) (hn _) (hr _))
  | scope body rest hb hr => exact (hb s).append (hr _)
  | stray body rest hb hr =>
    have hs : (Statement.plain strayElse).IsData := Statement.isData_plain.2 (by decide)
    exact .statement hs ((hb s).append (hr _))

theorem sound_emitNested (e : Env) (depth : Nat) (cs : List Command) (s : State) :
    (emitNested e depth cs s).block.Sound := by
  -- a call expands its subroutine one level less deep
  induction depth generalizing cs s with
  | zero => exact .done
  | succ depth ih => exact Flow.sound_emit (fun a t => (t.step_emitAction e _ a).sound ih) _ s

end VippDocdef.Docdef
