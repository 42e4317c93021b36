import VippDocdef.Proofs.Nesting
import VippDocdef.Proofs.Positions

/-! The vertical axis of texts. A height that `MOVETO` asks for is used once: only the first text
behind it stands there, and whatever else happens in between, the text is placed relative to the
output before it. -/

set_option autoImplicit false

namespace VippDocdef.Docdef

def Statement.isText : Statement → Bool
  | .output .. | .column .. | .switched .. | .switchedRight .. | .baseline .. => true
  | _ => false

def Statement.isBlock : Statement → Bool
  | .baseline .. => true
  | _ => false

def Statement.textPlace? : Statement → Option Place
  | .output _ _ place .. | .column _ _ place .. | .switched _ place | .switchedRight _ place _ =>
    some place
  | _ => none

/-- The font whose correction applies to a text; text in several fonts has that of the font before
it. -/
def Statement.fontFrom (running : String) : Statement → String
  | .output _ font .. | .column _ font .. => font
  | _ => running

/-- What happens to the vertical axis in the course of a walk. -/
inductive Moment where
  | moveTo (y : Float)
  | moveAlong
  /-- A new line that goes back up by one line less than `back`. -/
  | newLine (back : Nat)
  /-- A text, with the font that is selected where it is printed. -/
  | text (font : String) (st : Statement)
  | called

namespace Moment

def text? : Moment → Option Statement
  | text _ st => some st
  | _ => none

def newLineHeight : (back : Nat) → Coordinate
  | 0 | 1 => .keyword "NEXT"
  | k + 2 => .keyword s!"NEXT-($LINESP*#{k + 1})"

def height : Coordinate → Moment → Coordinate
  | _, moveTo y => .value y
  | _, moveAlong => .keyword "SAME"
  | _, newLine back => newLineHeight back
  | _, text _ st => .keyword (if st.isBlock then "LASTMAX+6 MM" else "NEXT")
  | .value _, called => .keyword "SAME"
  | .keyword word, called => .keyword word

end Moment

def linesBack (amount : Option String) : Nat :=
  match amount.bind Decimal.read? with
  | some v => if v < 0 then v.abs.round.toUInt32.toNat else 0
  | none => 0

namespace State

def height (s : State) : Coordinate := s.sec.cursor.yCoordinate

def ownMoments (s : State) (e : Env) : Action → List Moment
  | .text o => (s.emitText e o).block.statements.map (.text s.sec.font)
  | .move x y =>
    match Decimal.read? x, y with
    | none, _ => []
    | some _, none => [.moveAlong]
    | some _, some y => ((Decimal.read? y).map .moveTo).toList
  | .newLine amount => [.newLine (linesBack amount)]
  | .call c => if c.kind = .segment ∧ segmentFile s.sec.cache c.name ≠ "" then [.called] else []
  | _ => []

/-- The moments of an action; those of an expanded subroutine come before its call is complete. -/
def moments (s : State) (e : Env) (inside : List Command → State → List Moment) (a : Action) :
    List Moment :=
  match s.expands? e a with
  | some (name, body) => inside body (s.within name) ++ [.called]
  | none => s.ownMoments e a

end State

def momentsNested (e : Env) : (depth : Nat) → List Command → State → List Moment
  | 0, _, _ => []
  | depth + 1, cs, s =>
    ((Flow.ofCommands cs).handed (e.emitter (emitNested e depth)) s).flatMap fun x =>
      x.2.moments e (momentsNested e depth) x.1

def State.history (s : State) (e : Env) (cs : List Command) : List Moment :=
  momentsNested e e.nesting cs s

def Stands (e : Env) (height : Coordinate) (running : String) (st : Statement) : Prop :=
  st.isBlock = true ∨ ∃ place : Place, st.textPlace? = some place ∧ st.positions = [place.clause] ∧
    place.correction = e.correction? (st.fontFrom running) ∧ place.y = height

/-- The moments are those of the written statements, every text stands at the height that the
moments before it lead to from `start`, and all together lead to `finish`. -/
structure Recounts (e : Env) (ms : List Moment) (start : Coordinate) (written : List Statement)
    (finish : Coordinate) : Prop where
  texts : written.filter Statement.isText = ms.filterMap Moment.text?
  stands : ∀ (before : List Moment) (font : String) (st : Statement) (after : List Moment),
    ms = before ++ .text font st :: after → Stands e (before.foldl Moment.height start) font st
  finish : finish = ms.foldl Moment.height start

namespace Recounts

variable {e : Env} {ms ns : List Moment} {a b c : Coordinate} {written more : List Statement}

theorem nil (e : Env) (a : Coordinate) : Recounts e [] a [] a := ⟨rfl, by simp, rfl⟩

theorem one {m : Moment} (htexts : written.filter Statement.isText = m.text?.toList)
    (hstands : ∀ font st, m = .text font st → Stands e a font st) :
    Recounts e [m] a written (m.height a) where
  texts := by
    rw [htexts]
    cases hm : m.text? <;> simp [hm]
  stands before font st after heq := by
    cases before with
    | nil => exact hstands font st (List.cons.inj heq).1
    | cons x before => simp at heq
  finish := rfl

theorem append (h : Recounts e ms a written b) (h' : Recounts e ns b more c) :
    Recounts e (ms ++ ns) a (written ++ more) c where
  texts := by rw [List.filter_append, List.filterMap_append, h.texts, h'.texts]
  stands before font st after heq := by
    -- the text is one of the first moments or of those behind them
    rcases List.append_eq_append_iff.1 heq with ⟨mid, rfl, hns⟩ | ⟨mid, hms, hrest⟩
    · rw [List.foldl_append, ← h.finish]
      exact h'.stands mid font st after hns
    · cases mid with
      | nil =>
        rw [List.append_nil] at hms
        rw [← hms, ← h.finish]
        exact h'.stands [] font st after hrest.symm
      | cons m mid =>
        obtain ⟨rfl, -⟩ := List.cons.inj hrest
        exact h.stands before font st mid hms
  finish := by rw [List.foldl_append, ← h.finish, ← h'.finish]

theorem behind (h : Recounts e ms a written b) (hmore : ∀ st ∈ more, st.isText = false) :
    Recounts e ms a (more ++ written) b := by
  have hnone : more.filter Statement.isText = [] :=
    List.filter_eq_nil_iff.2 fun st hst => by simp [hmore st hst]
  exact ⟨by rw [List.filter_append, hnone, List.nil_append, h.texts], h.stands, h.finish⟩

end Recounts

section

variable {e : Env} {act : Emitter} {record : Action → State → List Moment}

theorem Flow.recounts (hact : ∀ (a : Action) (s : State),
      Recounts e (record a s) s.height (act a s).block.statements (act a s).state.height) (f : Flow)
    (s : State) :
    Recounts e ((f.handed act s).flatMap fun x => record x.1 x.2) s.height
      (f.emit act s).block.statements
      (f.emit act s).state.height := by
  induction f generalizing s with
  | done => exact .nil e s.height
  | act a rest ih =>
    rw [Flow.handed, Flow.emit]
    by_cases ha : s.opensOutline a = true
    · simp only [if_pos ha, List.flatMap_cons, Block.statements, Block.statements_append,
        List.append_nil]
      exact (hact a s.openOutline).append (ih _)
    · simp only [if_neg ha, List.flatMap_cons, Block.statements_append]
      exact (hact a s).append (ih _)
  | branch condition yes rest hy hr =>
    simp only [Flow.handed, Flow.emit, List.flatMap_append, Condition.statements_before,
      Block.statements]
    exact ((hy s).append (hr _)).behind (List.forall_mem_map.2 fun _ _ => rfl)
  | branchElse condition yes no rest hy hn hr =>
    simp only [Flow.handed, Flow.emit, List.flatMap_append, Condition.statements_before,
      Block.statements]
    exact ((hy s).append ((hn _).append (hr _))).behind (List.forall_mem_map.2 fun _ _ => rfl)
  | scope body rest hb hr =>
    simp only [Flow.handed, Flow.emit, List.flatMap_append, Block.statements_append]
    exact (hb s).append (hr _)
  | stray body rest hb hr =>
    simp only [Flow.handed, Flow.emit, List.flatMap_append, Block.statements_append,
      Block.statements]
    exact ((hb s).append (hr _)).behind (List.forall_mem_singleton.2 rfl)

end

/-- Everything that an action which expands nothing can do to texts and to the vertical axis. -/
inductive OwnStep (e : Env) (s : State) : List Moment → Emission → Prop where
  | still {r : Emission} (silent : ∀ st ∈ r.block.statements, st.isText = false)
      (height : r.state.height = s.height) : OwnStep e s [] r
  | moment {m : Moment} {r : Emission} (silent : ∀ st ∈ r.block.statements, st.isText = false)
      (noText : m.text? = none) (height : r.state.height = m.height s.height) : OwnStep e s [m] r
  | shown {st : Statement} {r : Emission} (written : r.block.statements = [st])
      (isText : st.isText = true)
      (stands : Stands e s.height s.sec.font st)
      (height : r.state.height = .keyword (if st.isBlock then "LASTMAX+6 MM" else "NEXT")) :
      OwnStep e s [.text s.sec.font st] r

theorem OwnStep.recounts {e : Env} {s : State} {ms : List Moment} {r : Emission}
    (h : OwnStep e s ms r) :
    Recounts e ms s.height r.block.statements r.state.height := by
  cases h with
  | still silent height =>
    rw [height, ← List.append_nil r.block.statements]
    exact (Recounts.nil e s.height).behind silent
  | moment silent noText height =>
    rw [height, ← List.append_nil r.block.statements]
    refine Recounts.behind (.one ?_ fun font st heq => ?_) silent
    · rw [noText]
      rfl
    · rw [heq] at noText
      cases noText
  | shown written isText stands height =>
    rw [written, height]
    refine .one (List.filter_cons_of_pos isText) fun font st heq => ?_
    cases heq
    exact stands

namespace State

variable {e : Env} {s : State}

theorem height_afterOutput (s : State) (block : Bool) :
    (s.afterOutput block).height = .keyword (if block then "LASTMAX+6 MM" else "NEXT") := by
  cases block <;> rfl

theorem printPlain_eq (s : State) (e : Env) (text : String) (align : Option Alignment) :
    ∃ st : Statement, s.printPlain e text align = .one st (s.afterOutput st.isBlock) ∧
      st.isText = true ∧
      (st.isBlock = true ∨ st.textPlace? = some (s.place e) ∧ st.positions = [(s.place e).clause] ∧
        ∀ running, st.fontFrom running = s.sec.font) := by
  unfold printPlain
  split
  · exact ⟨s.output e _ align, rfl, rfl, .inr ⟨rfl, Statement.positions_output, fun _ => rfl⟩⟩
  split
  · exact ⟨.baseline (chunks text) s.sec.font align, rfl, rfl, .inl rfl⟩
  · exact ⟨s.output e _ align, rfl, rfl, .inr ⟨rfl, Statement.positions_output, fun _ => rfl⟩⟩

theorem ownStep_one {st : Statement} {t : State} (hst : st.isText = true)
    (hstands : Stands e s.height s.sec.font st)
    (ht : t.height = .keyword (if st.isBlock then "LASTMAX+6 MM" else "NEXT")) :
    OwnStep e s ([st].map (.text s.sec.font)) ⟨.single st, t⟩ :=
  .shown rfl hst hstands ht

theorem ownStep_printColumn (items : String) (width : Float) (align : Option Alignment)
    (hitems : isPosition items = false) :
    OwnStep e s ((s.printColumn e items width align).block.statements.map (.text s.sec.font))
      (s.printColumn e items width align) :=
  ownStep_one rfl (.inr ⟨s.place e, rfl, Statement.positions_column hitems, rfl, rfl⟩)
    (s.height_afterOutput false)

theorem ownStep_printSwitched (segments : List (String × String)) (align : Option Alignment) :
    OwnStep e s ((s.printSwitched e segments align).block.statements.map (.text s.sec.font))
      (s.printSwitched e segments align) := by
  have hruns : ∀ run ∈ (segments.filter fun x => Text.trim x.2 ≠ "").map fun x =>
      (e.fontAlias x.1, textItems x.2),
      isPosition run.2 = false :=
    List.forall_mem_map.2 fun x _ => isPosition_textItems x.2
  by_cases halign : align = some .right
  · simp only [printSwitched, if_pos halign]
    exact ownStep_one rfl (.inr ⟨_, rfl, Statement.positions_switchedRight hruns, rfl, rfl⟩)
      (s.height_afterOutput false)
  · simp only [printSwitched, if_neg halign]
    exact ownStep_one rfl (.inr ⟨_, rfl, Statement.positions_switched hruns, rfl, rfl⟩)
      (s.height_afterOutput false)

theorem ownStep_printPlain {t u : State} {text : String} {align : Option Alignment}
    (ht : t.sec.cursor = s.sec.cursor) (hu : u.height = (t.printPlain e text align).state.height) :
    OwnStep e s ((t.printPlain e text align).block.statements.map (.text s.sec.font))
      ⟨(t.printPlain e text align).block, u⟩ := by
  obtain ⟨st, heq, hst, hplace⟩ := t.printPlain_eq e text align
  rw [heq] at hu ⊢
  refine ownStep_one hst ?_ (hu.trans (t.height_afterOutput st.isBlock))
  refine hplace.imp_right fun hplace =>
    ⟨t.place e, hplace.1, hplace.2.1, ?_, congrArg Cursor.yCoordinate ht⟩
  rw [hplace.2.2 s.sec.font]
  rfl

theorem ownStep_emitText (o : TextOutput) :
    OwnStep e s ((s.emitText e o).block.statements.map (.text s.sec.font)) (s.emitText e o) := by
  unfold emitText
  split
  · exact .still (List.forall_mem_nil _) rfl
  · refine ownStep_printColumn _ _ _ ?_
    simp (disch := decide) only [String.append_assoc, isPosition_append]
  · exact ownStep_one rfl (.inr ⟨s.place e, rfl, Statement.positions_output, rfl, rfl⟩)
      (s.height_afterOutput false)
  · exact ownStep_printColumn _ _ _ (isPosition_textItems _)
  unfold printLiteral
  split
  · exact ownStep_printPlain rfl rfl
  · split
    · exact ownStep_printPlain rfl rfl
    · exact ownStep_printPlain rfl rfl
  · exact ownStep_printSwitched _ _

theorem ownStep_move (x : String) (y : Option String) :
    OwnStep e s (s.ownMoments e (.move x y)) (.quiet (s.move x y)) := by
  have hstill : OwnStep e s [] (.quiet s) := .still (List.forall_mem_nil _) rfl
  simp only [ownMoments, move]
  cases Decimal.read? x with
  | none => exact hstill
  | some x =>
    cases y with
    | none =>
      show OwnStep e s [.moveAlong] (.quiet (s.withCursor (·.moveHorizontal x)))
      exact .moment (List.forall_mem_nil _) rfl rfl
    | some y =>
      dsimp only
      cases Decimal.read? y with
      | none => exact hstill
      | some y =>
        show OwnStep e s [.moveTo y] (.quiet (s.withCursor (·.moveTo x y)))
        exact .moment (List.forall_mem_nil _) rfl rfl

theorem height_backUp (s : State) (lines : Nat) :
    (s.withCursor (·.backUp lines)).height = Moment.newLineHeight lines := by
  rcases lines with _ | _ | k <;> rfl

theorem ownStep_emitNewLine (amount : Option String) :
    OwnStep e s [.newLine (linesBack amount)] (s.emitNewLine amount) := by
  unfold linesBack emitNewLine
  cases amount.bind Decimal.read? with
  | none => exact .moment (List.forall_mem_singleton.2 rfl) rfl rfl
  | some v =>
    dsimp only
    by_cases hv : v < 0
    · rw [if_pos hv, if_pos hv]
      exact .moment (List.forall_mem_nil _) rfl (s.height_backUp _)
    · rw [if_neg hv, if_neg hv]
      exact .moment (List.forall_mem_singleton.2 rfl) rfl rfl

theorem ownStep_emitBox (args : List String) : OwnStep e s [] (s.emitBox e args) := by
  unfold emitBox
  split
  · refine .still ?_ rfl
    rw [Emission.many, Block.statements_ofList]
    refine List.forall_mem_append.2 ⟨?_, fun st hst => ?_⟩
    · unfold anchorStatements
      split
      · exact List.forall_mem_nil _
      · exact List.forall_mem_singleton.2 rfl
    · have hshape := isShape_of_shape? (Option.mem_toList.1 hst)
      cases st <;> first | rfl | cases hshape
  · exact .still (List.forall_mem_nil _) rfl

theorem height_release (s : State) :
    (s.withCursor (·.release)).height = Moment.height s.height .called := by
  show s.sec.cursor.release.yCoordinate = Moment.height s.sec.cursor.yCoordinate .called
  obtain ⟨x, y, xSet, vertical⟩ := s.sec.cursor
  rcases vertical with _ | _ | _ | _ | _ | _ | k <;> rfl

theorem emitFile_quiet (cache : List String) (file : String) :
    (∀ st ∈ (s.emitFile e (fun _ t => .quiet t) cache file).block.statements, st.isText = false) ∧
      (s.emitFile e (fun _ t => .quiet t) cache file).state.height = s.height := by
  unfold emitFile
  split
  · unfold emitSubroutine
    split
    · exact ⟨List.forall_mem_singleton.2 rfl, rfl⟩
    split
    · refine ⟨List.forall_mem_singleton.2 rfl, ?_⟩
      unfold Emission.one request
      split <;> rfl
    split
    · exact ⟨List.forall_mem_singleton.2 rfl, rfl⟩
    · next inside henter =>
      refine ⟨List.forall_mem_singleton.2 rfl, ?_⟩
      unfold enter? at henter
      split at henter
      · cases henter
      · rw [← Option.some.inj henter]
        rfl
  · exact ⟨List.forall_mem_singleton.2 rfl, rfl⟩
  · exact ⟨List.forall_mem_singleton.2 rfl, rfl⟩
  · exact ⟨List.forall_mem_singleton.2 rfl, rfl⟩

theorem ownStep_emitSegment (c : ResourceCall) :
    OwnStep e s (if segmentFile s.sec.cache c.name ≠ "" then [.called] else [])
      (s.emitSegment e (fun _ t => .quiet t) c) := by
  obtain ⟨hsilent, hheight⟩ :=
    emitFile_quiet (e := e) (s := { s with sec := { s.sec with cache := [] } })
    s.sec.cache (segmentFile s.sec.cache c.name)
  unfold emitSegment
  dsimp only
  by_cases hfile : segmentFile s.sec.cache c.name = ""
  · rw [if_pos hfile, if_neg (not_not.2 hfile)]
    exact .still (List.forall_mem_nil _) rfl
  · rw [if_neg hfile, if_pos hfile]
    refine .moment hsilent rfl ?_
    rw [height_release, hheight]
    rfl

theorem ownStep_emitImage (c : ResourceCall) : OwnStep e s [] (s.emitImage c) := by
  unfold emitImage
  split
  · exact .still (List.forall_mem_nil _) rfl
  · exact .still (List.forall_mem_singleton.2 rfl) rfl

theorem ownStep_emitAction {a : Action} (h : s.expands? e a = none) (expand : Expansion) :
    OwnStep e s (s.ownMoments e a) (s.emitAction e expand a) := by
  -- nothing is expanded, so bodies may as well be left out
  rw [emitAction_of_not_expands? h expand fun _ t => .quiet t]
  have hplain (texts : List String) :
      ∀ st ∈ (Block.ofList (texts.map .plain)).statements, st.isText = false := by
    rw [Block.statements_ofList]
    exact List.forall_mem_map.2 fun _ _ => rfl
  cases a with
  | text o => exact ownStep_emitText o
  | call c =>
    obtain ⟨kind, name, args⟩ := c
    cases kind with
    | segment => simpa [ownMoments, emitAction] using ownStep_emitSegment ⟨.segment, name, args⟩
    | image => simpa [ownMoments, emitAction] using ownStep_emitImage ⟨.image, name, args⟩
  | move x y => exact ownStep_move x y
  | newLine amount => exact ownStep_emitNewLine amount
  | box args => exact ownStep_emitBox args
  | font name => exact .still (List.forall_mem_nil _) rfl
  | color name => exact .still (List.forall_mem_nil _) rfl
  | assign a =>
    refine .still ?_ rfl
    have htexts := hplain (assignStatement? a).toList
    rwa [← Option.toList_map] at htexts
  | generic name args =>
    refine .still (hplain _) ?_
    simp only [emitAction, emitGeneric, Emission.many]
    split <;> rfl

end State

section

variable {e : Env}

theorem recounts_moments {expand : Expansion} {inside : List Command → State → List Moment}
    (h : ∀ (cs : List Command) (s : State),
      Recounts e (inside cs s) s.height (expand cs s).block.statements (expand cs s).state.height)
    (a : Action) (s : State) :
    Recounts e (s.moments e inside a) s.height (s.emitAction e expand a).block.statements
      (s.emitAction e expand a).state.height := by
  unfold State.moments
  cases hx : s.expands? e a with
  | none => exact (State.ownStep_emitAction hx expand).recounts
  | some found =>
    obtain ⟨name, body⟩ := found
    -- the call is complete where the cursor is released
    have hcalled : Recounts e [.called] (expand body (s.within name)).state.height []
        (Moment.height (expand body (s.within name)).state.height .called) :=
      .one rfl fun font st heq => by cases heq
    have hbody := (h body (s.within name)).append hcalled
    rw [List.append_nil, ← State.height_release] at hbody
    rw [State.emitAction_of_expands? hx]
    exact hbody.behind (List.forall_mem_singleton.2 rfl)

theorem recounts_emitNested (depth : Nat) (cs : List Command) (s : State) :
    Recounts e (momentsNested e depth cs s) s.height (emitNested e depth cs s).block.statements
      (emitNested e depth cs s).state.height := by
  induction depth generalizing cs s with
  | zero => exact .nil e s.height
  | succ depth ih => exact Flow.recounts (recounts_moments ih) (Flow.ofCommands cs) s

theorem emitter_eq_walker {depth : Nat} {s : State} (hs : s.Nested e)
    (hdepth : routineCount e.project < depth + 1 + s.expanding.length) (a : Action) :
    e.emitter (emitNested e depth) a s = e.walker a s := by
  show s.emitAction e (emitNested e depth) a = s.emitAction e (fun cs t => t.emit e cs) a
  cases hx : s.expands? e a with
  | none => exact State.emitAction_of_not_expands? hx _ _
  | some found =>
    obtain ⟨name, body⟩ := found
    have hlength : (s.within name).expanding.length = s.expanding.length + 1 := rfl
    have hwithin := hs.within hx
    have hbody : emitNested e depth body (s.within name) = (s.within name).emit e body :=
      (walks_emitNested hwithin (by omega)).unique (walks_emit hwithin body depth (by omega))
    rw [State.emitAction_of_expands? hx, State.emitAction_of_expands? hx, hbody]

theorem nested_of_handed {cs : List Command} {s t : State} {a : Action} (hs : s.Nested e)
    (h : (a, t) ∈ (Flow.ofCommands cs).handed e.walker s) :
    t.Nested e ∧ t.expanding = s.expanding := by
  have hexpanding := Flow.expanding_handed e.expanding_walker h
  exact ⟨hs.of_eq hexpanding, hexpanding⟩

theorem momentsNested_succ (depth : Nat) {s : State} (hs : s.Nested e)
    (hdepth : routineCount e.project < depth + 1 + s.expanding.length) (cs : List Command) :
    momentsNested e (depth + 1) cs s = ((Flow.ofCommands cs).handed e.walker s).flatMap fun x =>
      x.2.moments e (momentsNested e depth) x.1 := by
  have hhanded : (Flow.ofCommands cs).handed (e.emitter (emitNested e depth)) s
      = (Flow.ofCommands cs).handed e.walker s := by
    refine (Flow.emit_eq_of_handed _ s fun a t _ ht => ?_).2
    obtain ⟨hnested, hexpanding⟩ := nested_of_handed hs ht
    exact emitter_eq_walker hnested (by rwa [hexpanding]) a
  rw [momentsNested, hhanded]

theorem State.moments_congr {s : State} {a : Action}
    {inside inside' : List Command → State → List Moment}
    (h : ∀ name body, s.expands? e a = some (name, body) →
      inside body (s.within name) = inside' body (s.within name)) :
    s.moments e inside a = s.moments e inside' a := by
  unfold State.moments
  cases hx : s.expands? e a with
  | none => rfl
  | some found => exact congrArg (· ++ [.called]) (h found.1 found.2 hx)

theorem momentsNested_eq {depth depth' : Nat} {s : State} (hs : s.Nested e)
    (hdepth : routineCount e.project < depth + s.expanding.length)
    (hdepth' : routineCount e.project < depth' + s.expanding.length) (cs : List Command) :
    momentsNested e depth cs s = momentsNested e depth' cs s := by
  have hle := hs.length_le
  induction depth generalizing depth' cs s with
  | zero => omega
  | succ depth ih =>
    cases depth' with
    | zero => omega
    | succ depth' =>
      rw [momentsNested_succ depth hs hdepth, momentsNested_succ depth' hs hdepth']
      refine List.flatMap_congr fun x hx => ?_
      obtain ⟨hnested, hexpanding⟩ := nested_of_handed hs hx
      refine State.moments_congr fun name body hbody => ?_
      have hwithin := hnested.within hbody
      have hlength : (x.2.within name).expanding.length = s.expanding.length + 1 := by
        rw [State.within, List.length_cons, hexpanding]
      exact ih hwithin (by omega) (by omega) body hwithin.length_le

theorem State.history_eq {s : State} (hs : s.Nested e) (cs : List Command) :
    s.history e cs = ((Flow.ofCommands cs).handed e.walker s).flatMap fun x =>
      x.2.moments e (fun body t => t.history e body) x.1 := by
  have hlt := routineCount_lt_nesting e
  exact (momentsNested_eq hs (by omega) (by omega) cs).trans
    (momentsNested_succ e.nesting hs (by omega) cs)

end

inductive IsRelative : String → Prop where
  | same : IsRelative "SAME"
  | next : IsRelative "NEXT"
  | below : IsRelative "LASTMAX+6 MM"
  | back (k : Nat) (hk : 1 ≤ k) : IsRelative s!"NEXT-($LINESP*#{k})"

def heightAfter (ms : List Moment) : Coordinate := ms.foldl Moment.height (.keyword "SAME")

theorem heightAfter_concat (ms : List Moment) (m : Moment) :
    heightAfter (ms ++ [m]) = m.height (heightAfter ms) := by
  rw [heightAfter, List.foldl_append]
  rfl

theorem isRelative_newLineHeight (back : Nat) :
    ∃ word, IsRelative word ∧ Moment.newLineHeight back = .keyword word := by
  rcases back with _ | _ | k
  · exact ⟨_, .next, rfl⟩
  · exact ⟨_, .next, rfl⟩
  · exact ⟨_, .back (k + 1) (by omega), rfl⟩

theorem heightAfter_cases (ms : List Moment) :
    (∃ y, ms.getLast? = some (.moveTo y) ∧ heightAfter ms = .value y) ∨
      (∀ y, ms.getLast? ≠ some (.moveTo y)) ∧ ∃ word, IsRelative word ∧
      heightAfter ms = .keyword word := by
  induction ms using List.reverseRecOn with
  | nil => exact .inr ⟨by simp, _, .same, rfl⟩
  | append_singleton ms m ih =>
    rw [heightAfter_concat, List.getLast?_concat]
    cases m with
    | moveTo y => exact .inl ⟨y, rfl, rfl⟩
    | moveAlong => exact .inr ⟨by simp, _, .same, rfl⟩
    | newLine back => exact .inr ⟨by simp, isRelative_newLineHeight back⟩
    | text font st =>
      refine .inr ⟨by simp, _, ?_, rfl⟩
      split
      · exact .below
      · exact .next
    | called =>
      -- what was relative before the call stays, and an absolute height is given up
      rcases ih with ⟨y, -, hy⟩ | ⟨-, word, hword, hheight⟩
      · exact .inr ⟨by simp, _, .same, by rw [hy]; rfl⟩
      · exact .inr ⟨by simp, word, hword, by rw [hheight]; rfl⟩

/-- A place behind the moments `before`: just behind a `MOVETO` its height is the one asked for,
with the correction of the font, and otherwise it is one of the relative words, with no
correction. -/
structure StandsBehind (e : Env) (before : List Moment) (font : String) (place : Place) : Prop where
  height : place.y = heightAfter before
  absolute_iff : (∃ y, place.y = .value y) ↔ ∃ y, before.getLast? = some (.moveTo y)
  absolute : ∀ y, before.getLast? = some (.moveTo y) →
    place.y.yClause place.correction = heightClause y (e.correction? font)
  relative : (∀ y, before.getLast? ≠ some (.moveTo y)) →
    ∃ word, IsRelative word ∧ place.y.yClause place.correction = "(" ++ word ++ ")"

theorem standsBehind {e : Env} {before : List Moment} {font : String} {place : Place}
    (hy : place.y = heightAfter before) (hcorrection : place.correction = e.correction? font) :
    StandsBehind e before font place := by
  rcases heightAfter_cases before with ⟨y, hlast, hheight⟩ | ⟨hlast, word, hword, hheight⟩
  · rw [hheight] at hy
    refine ⟨hy.trans hheight.symm, ⟨fun _ => ⟨y, hlast⟩, fun _ => ⟨y, hy⟩⟩, fun y' hy' => ?_,
      fun hnone => ?_⟩
    · obtain rfl : y = y' := Moment.moveTo.inj (Option.some.inj (hlast.symm.trans hy'))
      rw [hy, hcorrection, yClause_value]
    · exact absurd hlast (hnone y)
  · rw [hheight] at hy
    have hclause : place.y.yClause place.correction = "(" ++ word ++ ")" := by
      rw [hy]
      rfl
    refine ⟨hy.trans hheight.symm, ?_, fun y hmoved => absurd hmoved (hlast y),
      fun _ => ⟨word, hword, hclause⟩⟩
    constructor
    · rintro ⟨y, hvalue⟩
      rw [hy] at hvalue
      cases hvalue
    · rintro ⟨y, hmoved⟩
      exact absurd hmoved (hlast y)

/-- A height that `MOVETO` asks for is used once. The history of a walk from the start of a section
has all its texts in their order, also those of expanded subroutines, and each of them that is no
block stands at the height of the `MOVETO` if that is the last moment before it, and relative to the
output before it otherwise. -/
theorem absolute_height_iff_moveTo_last (e : Env) {s : State} (hs : s.Nested e) (x y : Float)
    (cs : List Command) :
    let start : State := s.beginSection e x y
    let history : List Moment := start.history e cs
    history = ((Flow.ofCommands cs).handed e.walker start).flatMap (fun z =>
        z.2.moments e (fun body t => t.history e body) z.1) ∧
      (start.emit e cs).block.statements.filter Statement.isText = history.filterMap Moment.text? ∧
      ∀ (before : List Moment) (font : String) (st : Statement) (after : List Moment),
        history = before ++ .text font st :: after → st.isBlock = false →
          ∃ place : Place, st.textPlace? = some place ∧ st.positions = [place.clause] ∧
            StandsBehind e before (st.fontFrom font) place := by
  intro start history
  have hstart : start.Nested e := hs.of_eq rfl
  have hrecounts : Recounts e history (.keyword "SAME") (start.emit e cs).block.statements
      (start.emit e cs).state.height := recounts_emitNested e.nesting cs start
  refine ⟨State.history_eq hstart cs, hrecounts.texts, fun before font st after heq hline => ?_⟩
  rcases hrecounts.stands before font st after heq
    with hblock | ⟨place, hplace, hpositions, hcorrection, hheight⟩
  · rw [hline] at hblock
    cases hblock
  · exact ⟨place, hplace, hpositions, standsBehind hheight hcorrection⟩

/-- Texts before, inside and behind a subroutine that ends with a `MOVETO`, behind a new line and
behind a move along the line. -/
theorem absolute_height_iff_moveTo_last_expanded :
    let print (source : String) : Command := .act {} (.text { keyword := "SH", source })
    let move (x : String) (y : Option String) : Command := .act {} (.move x y)
    let body : List Command := [move "20" (some "30"), print "(b)", move "5" (some "6")]
    let e : Env :=
      { settings := {}, project := { document := { subroutines := .ofList [("S", body)] } } }
    let cs : List Command :=
      [move "10" (some "20"), print "(a)", .act {} (.call ⟨.segment, "(S)", []⟩), print "(c)",
      .act {} (.newLine none), print "(d)", move "9" none, print "(f)"]
    let start : State := (State.initial e).beginSection e 0 0
    (State.initial e).Nested e ∧
      ((start.history e cs).filterMap Moment.text?).flatMap Statement.positions =
        ["POSITION (10.0 MM-$MR_LEFT) (20.0 MM-$MR_TOP+&CORFONT8)",
          "POSITION (20.0 MM-$MR_LEFT) (30.0 MM-$MR_TOP+&CORFONT8)", "POSITION (SAME) (SAME)",
          "POSITION (SAME) (NEXT)", "POSITION (9.0 MM-$MR_LEFT) (SAME)"] ∧
      ∀ (before : List Moment) (font : String) (st : Statement) (after : List Moment),
        start.history e cs = before ++ .text font st :: after → st.isBlock = false →
          ∃ place : Place, st.textPlace? = some place ∧ st.positions = [place.clause] ∧
            StandsBehind e before (st.fontFrom font) place := by
  intro print move body e cs start
  have hs : (State.initial e).Nested e := nested_of_nil rfl
  obtain ⟨-, htexts, hstands⟩ := absolute_height_iff_moveTo_last e hs 0 0 cs
  refine ⟨hs, ?_, hstands⟩
  rw [← htexts]
  decide +kernel

end VippDocdef.Docdef
