import VippDocdef.Proofs.Nesting
import VippDocdef.Proofs.Outlines

/-! The branches and the level of a walk. Every `IF` that a walk comes to, in its own list or in a
subroutine that is expanded, writes one header, which has a `THEN;` and an `ENDIF;` of its own. -/

set_option autoImplicit false

namespace VippDocdef.Docdef
open Command (Visit)

def headerOf (condition : List String) : String := (Condition.ofAtoms condition).ifLine

/-- The headers for the branches that a flow comes to, in its order; those of an action are
`inside`. -/
def Flow.headers (act : Emitter) (inside : Action → State → List String) :
    Flow → State → List String
  | .done, _ => []
  | .act a rest, s =>
    let start := if s.opensOutline a then s.openOutline else s
    inside a start ++ rest.headers act inside (act a start).state
  | .branch condition yes rest, s =>
    headerOf condition
      :: (yes.headers act inside s ++ rest.headers act inside (yes.emit act s).state)
  | .branchElse condition yes no rest, s =>
    let first := yes.emit act s
    headerOf condition
      :: (yes.headers act inside s
        ++ (no.headers act inside first.state
          ++ rest.headers act inside (no.emit act first.state).state))
  | .scope body rest, s | .stray body rest, s =>
    body.headers act inside s ++ rest.headers act inside (body.emit act s).state

/-- The headers for the branches that the walk of a list comes to; where it expands a subroutine, it
comes to those of the body. -/
def headersNested (e : Env) : (depth : Nat) → List Command → State → List String
  | 0 => fun _ _ => []
  | depth + 1 => fun cs s =>
    (Flow.ofCommands cs).headers (e.emitter (emitNested e depth))
      (fun a t => (t.expands? e a).elim [] fun found =>
        headersNested e depth found.2 (t.within found.1)) s

def State.headers (s : State) (e : Env) (cs : List Command) : List String :=
  headersNested e e.nesting cs s

@[simp] theorem Block.headers_append (a b : Block) :
    (a ++ b).headers = a.headers ++ b.headers := by
  show (a.append b).headers = _
  induction a <;> simp_all [Block.append, headers]

theorem Block.headers_ofList (ss : List Statement) : (Block.ofList ss).headers = [] := by
  induction ss with
  | nil => rfl
  | cons s rest ih => exact ih

@[simp] theorem Condition.headers_before (c : Condition) (b : Block) :
    (c.before b).headers = b.headers := by
  unfold Condition.before
  induction c.hoisted with
  | nil => rfl
  | cons text rest ih => exact ih

theorem State.headers_emitAction (s : State) (e : Env) (expand : Expansion) (a : Action) :
    (s.emitAction e expand a).block.headers =
      (s.expands? e a).elim [] fun found => (expand found.2 (s.within found.1)).block.headers := by
  cases hx : s.expands? e a with
  | some found => rw [emitAction_of_expands? hx]; rfl
  | none =>
    -- what is expanded by nothing has no headers
    rw [emitAction_of_not_expands? hx expand fun _ t => .quiet t]
    cases s.step_emitAction e (fun _ t => .quiet t) a with
    | row row prints => rw [row.block, Block.headers_ofList]; rfl
    | call isOutput defined block state => rw [block]; rfl
    | expansion isOutput defined fresh isNote entered block state => rw [block]; rfl

theorem Flow.headers_emit {act : Emitter} {inside : Action → State → List String}
    (h : ∀ a s, (act a s).block.headers = inside a s) (f : Flow) (s : State) :
    (f.emit act s).block.headers = f.headers act inside s := by
  induction f generalizing s with
  | done => rfl
  | act a rest ih =>
    by_cases ha : s.opensOutline a = true
    · simp [Flow.emit, Flow.headers, Block.headers, ha, h, ih]
    · simp [Flow.emit, Flow.headers, ha, h, ih]
  | branch condition yes rest hy hr =>
    simp [Flow.emit, Flow.headers, Block.headers, headerOf, hy, hr]
  | branchElse condition yes no rest hy hn hr =>
    simp [Flow.emit, Flow.headers, Block.headers, headerOf, hy, hn, hr]
  | scope body rest hb hr => simp [Flow.emit, Flow.headers, hb, hr]
  | stray body rest hb hr => simp [Flow.emit, Flow.headers, Block.headers, hb, hr]

theorem headers_emitNested (e : Env) (depth : Nat) (cs : List Command) (s : State) :
    (emitNested e depth cs s).block.headers = headersNested e depth cs s := by
  induction depth generalizing cs s with
  | zero => rfl
  | succ depth ih =>
    refine Flow.headers_emit (fun a t => ?_) _ s
    exact (t.headers_emitAction e _ a).trans (by simp only [ih])

theorem Flow.sublist_headers (act : Emitter) (inside : Action → State → List String) (f : Flow)
    (s : State) :
    ((f.visits.filterMap Visit.condition?).map headerOf).Sublist (f.headers act inside s) := by
  induction f generalizing s with
  | done => exact .slnil
  | act a rest ih => exact (ih _).trans (List.sublist_append_right _ _)
  | branch condition yes rest hy hr =>
    simpa [Flow.visits, Visit.condition?, Flow.headers] using (hy s).append (hr _)
  | branchElse condition yes no rest hy hn hr =>
    simpa [Flow.visits, Visit.condition?, Flow.headers] using (hy s).append ((hn _).append (hr _))
  | scope body rest hb hr | stray body rest hb hr =>
    simpa [Flow.visits, Flow.headers] using (hb s).append (hr _)

/-- Every `IF` of a list has its header among those that the walk writes, in the order of the
source. -/
theorem State.sublist_headers (s : State) (e : Env) (cs : List Command) :
    ((Command.conditions cs).map headerOf).Sublist (s.headers e cs) := by
  rw [Command.conditions, ← visits_ofCommands]
  exact Flow.sublist_headers _ _ _ s

/-- A walk that writes as it goes along writes the lines of its block, at the level it starts at. A
list that opened an outline finds it open at its end, so that it goes back down as often as it went
up. -/
theorem Flow.writeOn_eq {act : Emitter}
    (h : ∀ a s, (a.isOutput = true → s.sec.outlineOpen = true) → (act a s).Keeps s.sec.outlineOpen)
    (d : Detector) (f : Flow) (opened : Bool) (s : State) (l : Listing)
    (hopened : opened = true → s.sec.outlineOpen = true) :
    f.writeOn d act opened s l =
      if opened then
        ((f.emit act s).state.closeOutline,
          (l.add d (f.emit act s).block.lines).dedent.add d (flush ["ENDIO;"]))
      else ((f.emit act s).state, l.add d (f.emit act s).block.lines) := by
  have hkeeps (f : Flow) (s : State) : (f.emit act s).state.sec.outlineOpen = s.sec.outlineOpen :=
    (f.keeps_emit h s).state
  have hthrough {opened : Bool} (f : Flow) {s : State}
      (hopened : opened = true → s.sec.outlineOpen = true) (ho : opened = true) :
      (f.emit act s).state.sec.outlineOpen = true :=
    (hkeeps f s).trans (hopened ho)
  have hfalse (s : State) : false = true → s.sec.outlineOpen = true := by simp
  induction f generalizing opened s l with
  | done =>
    have hnil : l.add d [] = l := by simp [Listing.add]
    cases opened with
    | false => simp [writeOn, emit, Emission.quiet, Block.lines, hnil]
    | true => simp [writeOn, emit, Emission.quiet, Block.lines, hnil, hopened rfl]
  | act a rest ih =>
    by_cases ha : s.opensOutline a = true
    · have hclosed : s.sec.outlineOpen = false := by simp_all [State.opensOutline]
      obtain rfl : opened = false := by
        cases opened with
        | false => rfl
        | true => exact absurd (hopened rfl) (by simp [hclosed])
      have hopen : (act a s.openOutline).state.sec.outlineOpen = true :=
        (h a s.openOutline fun _ => rfl).state
      simp only [writeOn, emit, ha, if_true, ih true _ _ fun _ => hopen, Block.writeOn_eq,
        ← Listing.add_append, Listing.dedent_add_indent, Block.lines, Block.lines_append]
      simp
    · have hout : a.isOutput = true → s.sec.outlineOpen = true := by simp_all [State.opensOutline]
      have hopen : opened = true → (act a s).state.sec.outlineOpen = true :=
        fun ho => (h a s hout).state.trans (hopened ho)
      simp only [writeOn, emit, ha, if_false, Bool.false_eq_true, ih opened _ _ hopen,
        Block.writeOn_eq, ← Listing.add_append, Block.lines_append]
  | branch condition yes rest hy hr =>
    simp only [writeOn, hy false _ _ (hfalse _), Bool.false_eq_true, if_false,
      hr opened _ _ (hthrough yes hopened), Listing.dedent_add_indent, ← Listing.add_append, emit,
      Block.lines, Condition.lines_before, Condition.opening, List.append_assoc]
  | branchElse condition yes no rest hy hn hr =>
    simp only [writeOn, hy false _ _ (hfalse _), hn false _ _ (hfalse _),
      Bool.false_eq_true, if_false, hr opened _ _ (hthrough no (hthrough yes hopened)),
      Listing.dedent_add_indent, ← Listing.add_append, emit, Block.lines, Condition.lines_before,
      Condition.opening, List.append_assoc]
  | scope body rest hb hr =>
    simp only [writeOn, hb false _ _ (hfalse _), Bool.false_eq_true, if_false,
      hr opened _ _ (hthrough body hopened), ← Listing.add_append, emit, Block.lines_append]
  | stray body rest hb hr =>
    simp only [writeOn, hb false _ _ (hfalse _), Bool.false_eq_true, if_false,
      hr opened _ _ (hthrough body hopened), ← Listing.add_append, emit, Block.lines,
      Block.lines_append, Statement.lines, flush, List.map_cons, List.map_nil, List.append_assoc]

theorem State.writeOn_eq (s : State) (e : Env) (d : Detector) (cs : List Command) (l : Listing) :
    s.writeOn e d cs l = ((s.emit e cs).state, l.add d (s.emit e cs).block.lines) := by
  refine Flow.writeOn_eq (fun a t ha => (t.step_emitAction e _ a).keeps (fun cs u hu => ?_) ha) d _
    false s l (by simp)
  simpa [hu] using keeps_emitNested e _ cs u

/-- Whatever the commands are, what is written for them is well bracketed at the level it starts at,
with one branch for each `IF` that the walk comes to: each header has a `THEN;`, an `ENDIF;` and at
most one `ELSE;` of its own. Nothing is left open, and a walk that raises and lowers the level as it
goes along ends at the level it started at. -/
theorem emit_bracketed (e : Env) (s : State) (cs : List Command) (d : Detector) (l : Listing)
    (hd : ∀ x ∈ (s.emit e cs).block.lines, d.flags x.text = false) :
    ∃ new, l.add d (s.emit e cs).block.lines = ⟨l.level, l.written ++ new⟩
      ∧ s.writeOn e d cs l = ((s.emit e cs).state, ⟨l.level, l.written ++ new⟩)
      ∧ Bracketed l.level (s.headers e cs) new
      ∧ ((Command.conditions cs).map headerOf).Sublist (s.headers e cs)
      ∧ (marks new).count .thenPart = (s.headers e cs).length
      ∧ (marks new).count .endIf = (s.headers e cs).length
      ∧ (marks new).count .elsePart ≤ (s.headers e cs).length
      ∧ ∀ frames, readLines frames new = some frames := by
  -- a detector that flags none of the lines writes what an idle one writes
  have hnew : writeAt d l.level (s.emit e cs).block.lines
      = writeAt .idle l.level (s.emit e cs).block.lines := by
    apply writeAt_congr
    intro x hx
    rw [hd x hx, Detector.flags_idle]
  have hb : Bracketed l.level (s.headers e cs) (writeAt d l.level (s.emit e cs).block.lines) := by
    rw [hnew, State.headers, ← headers_emitNested]
    exact (sound_emitNested e e.nesting cs s).bracketed l.level
  obtain ⟨hthen, hend, helse⟩ := hb.count_marks
  exact ⟨_, rfl, s.writeOn_eq e d cs l, hb, s.sublist_headers e cs, hthen, hend, helse,
    hb.readLines_eq⟩

/-- A second `ELSE`, an outline in a branch and no `ENDIF`. -/
theorem emit_bracketed_unclosed :
    let cs : List Command :=
      [.ifFlat {} ["VAR_A"], .act {} (.text ⟨"SH", "(a)", false, none, none, none⟩),
        .act {} (.assign ⟨.increment, "/IF", none, false⟩), .elseBlock {} [],
        .elseBlock {} [.act {} (.generic "PAGEBRK" [])]]
    let new : List String :=
      ["    IF VAR_A;", "    THEN;", "", "        OUTLINE", "            POSITION LEFT NEXT",
        "            DIRECTION ACROSS;", "", "            OUTPUT 'a'",
        "                FONT ARIAL08 NORMAL", "                POSITION (SAME) (SAME)",
        "                ;", "            IF = IF + 1;", "        ENDIO;", "    ELSE;",
        "        /* ELSE branch without matching IF */", "        USE LP NEXT;", "    ENDIF;"]
    (∀ x ∈ (State.emit (.initial {}) {} cs).block.lines, Detector.idle.flags x.text = false) ∧
      (State.writeOn (.initial {}) {} .idle cs ⟨1, []⟩).2 = ⟨1, new⟩ ∧
      Bracketed 1 ["IF VAR_A;"] new ∧ readLines [] new = some [] := by
  intro cs new
  have hd : ∀ x ∈ (State.emit (.initial {}) {} cs).block.lines,
      Detector.idle.flags x.text = false := by
    intro x hx
    exact Detector.flags_idle x.text
  have hnew :
      (Listing.add .idle ⟨1, []⟩ (State.emit (.initial {}) {} cs).block.lines).written = new := by
    decide +kernel
  have hheaders : State.headers (.initial {}) {} cs = ["IF VAR_A;"] := by decide +kernel
  obtain ⟨written, hadd, hwrite, hb, -, -, -, -, hr⟩ :=
    emit_bracketed {} (.initial {}) cs .idle ⟨1, []⟩ hd
  obtain rfl : written = new := by simpa [hadd] using hnew
  exact ⟨hd, congrArg Prod.snd hwrite, hheaders ▸ hb, hr []⟩

end VippDocdef.Docdef
