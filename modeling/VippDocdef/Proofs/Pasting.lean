import VippDocdef.Proofs.Nesting
import VippDocdef.Proofs.Outlines
import VippDocdef.Proofs.Surroundings

/-! Subroutines that are expanded where they are called, against their commands in the place of the
call. Both write the same lines but for the note on the expansion, whatever follows, exactly if the
commands leave no axis of the cursor explicit and do not let a block `IF` and an `ELSE` meet. -/

set_option autoImplicit false

namespace VippDocdef

def Command.isSimple : Command → Bool
  | .act _ (.call _) => false
  | .act _ _ => true
  | _ => false

namespace Docdef
open Command (leaves leavesOf)

/-- The actions of a flow, each with the state in which the walk comes to it. -/
def Flow.met (act : Emitter) : Flow → State → List (Action × State)
  | .done, _ => []
  | .act a rest, s =>
    (a, s) :: rest.met act (act a (if s.opensOutline a then s.openOutline else s)).state
  | .branch _ yes rest, s => yes.met act s ++ rest.met act (yes.emit act s).state
  | .branchElse _ yes no rest, s =>
    let first := yes.emit act s
    yes.met act s ++ (no.met act first.state ++ rest.met act (no.emit act first.state).state)
  | .scope body rest, s | .stray body rest, s =>
    body.met act s ++ rest.met act (body.emit act s).state

theorem Flow.length_met (act : Emitter) (f : Flow) (s : State) :
    (f.met act s).length = f.actions.length := by
  induction f generalizing s <;> simp_all [Flow.met, Flow.actions]

namespace Surroundings

theorem met_plug (act : Emitter) (place : Surroundings) (f : Flow) (s : State) :
    ∃ before : List (Action × State), before.length = place.front.length ∧
      before ++ f.met act (place.entry act s) <+: (place.plug f).met act s := by
  induction place generalizing s with
  | here => exact ⟨[], rfl, List.prefix_rfl⟩
  | act a place ih =>
    obtain ⟨before, hlength, hmet⟩ :=
      ih (act a (if s.opensOutline a then s.openOutline else s)).state
    exact ⟨(a, s) :: before, congrArg _ hlength, (List.prefix_cons_inj _).2 hmet⟩
  | branch condition yes place ih =>
    obtain ⟨before, hlength, hmet⟩ := ih (yes.emit act s).state
    refine ⟨yes.met act s ++ before, by simp [front, hlength, Flow.length_met], ?_⟩
    rw [List.append_assoc]
    exact (List.prefix_append_right_inj _).2 hmet
  | branchElse condition yes no place ih =>
    obtain ⟨before, hlength, hmet⟩ := ih (no.emit act (yes.emit act s).state).state
    refine ⟨yes.met act s ++ (no.met act (yes.emit act s).state ++ before),
      by simp [front, hlength, Flow.length_met], ?_⟩
    rw [List.append_assoc, List.append_assoc]
    exact (List.prefix_append_right_inj _).2 ((List.prefix_append_right_inj _).2 hmet)
  | stray body place ih =>
    obtain ⟨before, hlength, hmet⟩ := ih (body.emit act s).state
    refine ⟨body.met act s ++ before, by simp [front, hlength, Flow.length_met], ?_⟩
    rw [List.append_assoc]
    exact (List.prefix_append_right_inj _).2 hmet
  | only condition place rest ih =>
    obtain ⟨before, hlength, hmet⟩ := ih s
    exact ⟨before, hlength, hmet.trans (List.prefix_append ..)⟩
  | first condition place no rest ih =>
    obtain ⟨before, hlength, hmet⟩ := ih s
    exact ⟨before, hlength, hmet.trans (List.prefix_append ..)⟩
  | second condition yes body place rest ih =>
    obtain ⟨before, hlength, hmet⟩ := ih (body.emit act (yes.emit act s).state).state
    refine ⟨yes.met act s ++ (body.met act (yes.emit act s).state ++ before),
      by simp [front, hlength, Flow.length_met], ?_⟩
    rw [List.append_assoc, List.append_assoc]
    refine (List.prefix_append_right_inj _).2 (List.IsPrefix.trans ?_ (List.prefix_append ..))
    exact (List.prefix_append_right_inj _).2 hmet

theorem getElem?_met_plug (act : Emitter) (place : Surroundings) {f : Flow} (s : State) {i : Nat}
    (hi : i < f.actions.length) :
    ((place.plug f).met act s)[place.front.length + i]? = (f.met act (place.entry act s))[i]? := by
  obtain ⟨before, hlength, behind, hmet⟩ := place.met_plug act f s
  rw [← hmet, ← hlength, List.append_assoc, List.getElem?_append_right (Nat.le_add_right ..),
    Nat.add_sub_cancel_left, List.getElem?_append_left (by rwa [Flow.length_met])]

def comp : Surroundings → Surroundings → Surroundings
  | .here, inner => inner
  | .act a place, inner => .act a (place.comp inner)
  | .branch condition yes place, inner => .branch condition yes (place.comp inner)
  | .branchElse condition yes no place, inner => .branchElse condition yes no (place.comp inner)
  | .stray body place, inner => .stray body (place.comp inner)
  | .only condition place rest, inner => .only condition (place.comp inner) rest
  | .first condition place no rest, inner => .first condition (place.comp inner) no rest
  | .second condition yes body place rest, inner =>
    .second condition yes body (place.comp inner) rest

theorem plug_comp (outer inner : Surroundings) (f : Flow) :
    (outer.comp inner).plug f = outer.plug (inner.plug f) := by
  induction outer <;> simp_all [comp, plug]

theorem front_comp (outer inner : Surroundings) :
    (outer.comp inner).front = outer.front ++ inner.front := by
  induction outer <;> simp_all [comp, front]

theorem entry_comp (act : Emitter) (outer inner : Surroundings) (s : State) :
    (outer.comp inner).entry act s = inner.entry act (outer.entry act s) := by
  induction outer generalizing s <;> simp_all [comp, entry]

end Surroundings

/-- The lines differ from the plain ones by one note. -/
def Noted (note : String) (lines plain : List Line) : Prop :=
  ∃ depth above below, lines = above ++ ⟨depth, note⟩ :: below ∧ plain = above ++ below

namespace Noted

variable {note : String} {lines plain : List Line}

theorem append (h : Noted note lines plain) (above below : List Line) :
    Noted note (above ++ lines ++ below) (above ++ plain ++ below) := by
  obtain ⟨depth, above', below', rfl, rfl⟩ := h
  exact ⟨depth, above ++ above', below' ++ below, by simp, by simp⟩

theorem map_deeper (h : Noted note lines plain) (n : Nat) :
    Noted note (lines.map (Line.deeper n)) (plain.map (Line.deeper n)) := by
  obtain ⟨depth, above, below, rfl, rfl⟩ := h
  exact ⟨n + depth, above.map (Line.deeper n),
    below.map (Line.deeper n), by simp [Line.deeper], by simp⟩

end Noted

theorem Surroundings.noted_plug {act : Emitter} {note : String} {f g : Flow} (place : Surroundings)
    {s : State}
    (hlines : Noted note (f.emit act (place.entry act s)).block.lines
      (g.emit act (place.entry act s)).block.lines)
    (hstate : (f.emit act (place.entry act s)).state = (g.emit act (place.entry act s)).state) :
    Noted note ((place.plug f).emit act s).block.lines ((place.plug g).emit act s).block.lines ∧
      ((place.plug f).emit act s).state = ((place.plug g).emit act s).state := by
  obtain ⟨depth, above, below, final, hplug, -⟩ := place.emit_plug act s
  rw [(hplug f).1, (hplug f).2, (hplug g).1, (hplug g).2, hstate]
  exact ⟨(hlines.map_deeper depth).append _ _, rfl⟩

def tally (ch : Char) (lines : List Line) : Nat := (lines.flatMap (·.text.toList)).count ch

section Tally

variable (ch : Char)

@[simp] theorem tally_nil : tally ch [] = 0 := rfl

@[simp] theorem tally_cons (l : Line) (lines : List Line) :
    tally ch (l :: lines) = l.text.toList.count ch + tally ch lines := by
  simp [tally, List.count_append]

@[simp] theorem tally_append (lines more : List Line) :
    tally ch (lines ++ more) = tally ch lines + tally ch more := by
  simp [tally, List.count_append]

@[simp] theorem tally_map_deeper (n : Nat) (lines : List Line) :
    tally ch (lines.map (Line.deeper n)) = tally ch lines := by
  simp [tally, List.flatMap_map, Line.deeper]

theorem Noted.tally_eq {note : String} {lines plain : List Line} (h : Noted note lines plain) :
    tally ch lines = note.toList.count ch + tally ch plain := by
  obtain ⟨depth, above, below, rfl, rfl⟩ := h
  simp only [tally_append, tally_cons]
  omega

/-- Where no action stands behind a place, what is written around it does not depend on the flow
there. -/
theorem Surroundings.exists_tally_plug (act : Emitter) {place : Surroundings}
    (hbehind : place.behind = []) (s : State) :
    ∃ n, ∀ f : Flow, tally ch ((place.plug f).emit act s).block.lines
      = n + tally ch (f.emit act (place.entry act s)).block.lines := by
  obtain ⟨depth, above, below, final, hplug, hbelow⟩ := place.emit_plug act s
  refine ⟨tally ch above + tally ch (below s), fun f => ?_⟩
  rw [(hplug f).1, hbelow hbehind _ s]
  simp only [tally_append, tally_map_deeper]
  omega

theorem tally_output_lt {place place' : Place}
    (h : place.clause.toList.count ch < place'.clause.toList.count ch) (content font : String)
    (color : Option String) (align : Option Alignment) :
    tally ch (Statement.output content font place color align).lines
      < tally ch (Statement.output content font place' color align).lines := by
  simp only [Statement.lines, Statement.clauses, List.map_append, List.map_cons, tally_cons,
    tally_append]
  omega

end Tally

theorem leaves_append (cs ds : List Command) : leaves (cs ++ ds) = leaves cs ++ leaves ds := by
  induction cs with
  | nil => rfl
  | cons c cs ih => simp [leaves, ih]

def Acts (cs : List Command) : Prop := ∀ d ∈ cs, ∃ p a, d = .act p a

theorem Acts.cons {p : Position} {a : Action} {cs : List Command} (h : Acts cs) :
    Acts (.act p a :: cs) :=
  List.forall_mem_cons.2 ⟨⟨p, a, rfl⟩, h⟩

theorem innerAfter?_of_acts {cs : List Command} (h : Acts cs) (depth : Nat) :
    innerAfter? depth cs = some depth := by
  induction cs with
  | nil => simp [innerAfter?]
  | cons d cs ih =>
    obtain ⟨⟨p, a, rfl⟩, hcs⟩ := List.forall_mem_cons.1 h
    simpa [innerAfter?] using ih hcs

theorem exists_act_of_isSimple {d : Command} (h : d.isSimple = true) :
    ∃ p a, d = .act p a ∧ ∀ c, a ≠ .call c := by
  cases d with
  | act p a =>
    refine ⟨p, a, rfl, ?_⟩
    rintro c rfl
    cases h
  | _ => cases h

theorem acts_of_isSimple {cs : List Command} (h : ∀ d ∈ cs, d.isSimple = true) : Acts cs := by
  intro d hd
  obtain ⟨p, a, hact, -⟩ := exists_act_of_isSimple (h d hd)
  exact ⟨p, a, hact⟩

theorem call_not_mem_leaves {cs : List Command} (h : ∀ d ∈ cs, d.isSimple = true)
    (c : ResourceCall) :
    .call c ∉ leaves cs := by
  induction cs with
  | nil => simp [leaves]
  | cons d cs ih =>
    obtain ⟨hd, hcs⟩ := List.forall_mem_cons.1 h
    obtain ⟨p, a, rfl, ha⟩ := exists_act_of_isSimple hd
    simpa [leaves, leavesOf, ih hcs] using (ha c).symm

theorem emit_append_of_acts {act : Emitter}
    (hact : ∀ a s, s.sec.outlineOpen = true → (act a s).state.sec.outlineOpen = true)
    {cs : List Command} (h : Acts cs) (back : List Command) {t : State}
    (ht : t.sec.outlineOpen = true) :
    (Flow.ofCommands (cs ++ back)).emit act t =
      let first := (Flow.ofCommands cs).emit act t
      let others := (Flow.ofCommands back).emit act first.state
      ⟨first.block ++ others.block, others.state⟩ := by
  induction cs generalizing t with
  | nil => simp [Flow.ofCommands, Flow.emit, Emission.quiet]
  | cons d cs ih =>
    obtain ⟨⟨p, a, rfl⟩, hcs⟩ := List.forall_mem_cons.1 h
    have hnot : ¬ t.opensOutline a = true := by simp [State.opensOutline, ht]
    simp only [List.cons_append, Flow.ofCommands, Flow.emit, if_neg hnot, ih hcs (hact a t ht),
      Block.append_assoc]

theorem outlineOpen_emitter (e : Env) (depth : Nat) (a : Action) {s : State}
    (hs : s.sec.outlineOpen = true) :
    (e.emitter (emitNested e depth) a s).state.sec.outlineOpen = true := by
  have hkeeps := (s.step_emitAction e (emitNested e depth) a).keeps
    (fun cs t ht => ht ▸ keeps_emitNested e depth cs t) fun _ => hs
  exact hkeeps.state.trans hs

abbrev State.inside (s : State) (names : List String) : State := { s with expanding := names }

/-- What is written does not depend on the subroutines that are being expanded, and these stay. -/
def Stackless (f : State → Emission) : Prop :=
  ∀ s names, f (s.inside names) = ⟨(f s).block, (f s).state.inside names⟩

theorem stackless_printPlain (e : Env) (text : String) (align : Option Alignment) :
    Stackless (·.printPlain e text align) := by
  intro s names
  unfold State.printPlain
  split
  · rfl
  · split <;> rfl

theorem stackless_printLiteral (e : Env) (text : String) (align : Option Alignment) :
    Stackless (·.printLiteral e text align) := by
  intro s names
  simp only [State.printLiteral]
  split
  · exact stackless_printPlain e text align s names
  · next font segment _ =>
    split
    · exact stackless_printPlain e text align s names
    · have hplain : ((s.inside names).withFont (e.fontAlias font)).printPlain e segment align = _ :=
        stackless_printPlain e segment align (s.withFont (e.fontAlias font)) names
      rw [hplain]
      rfl
  · rfl

theorem stackless_emitText (e : Env) (o : TextOutput) : Stackless (·.emitText e o) := by
  intro s names
  unfold State.emitText
  split
  · rfl
  · rfl
  · rfl
  · rfl
  · exact stackless_printLiteral e _ _ s names

theorem stackless_emitAction {a : Action} (h : ∀ c, a ≠ .call c) (e : Env) (expand : Expansion) :
    Stackless (·.emitAction e expand a) := by
  cases a with
  | call c => exact absurd rfl (h c)
  | text o => exact stackless_emitText e o
  | move x y =>
    intro s names
    simp only [State.emitAction, State.move]
    split
    · rfl
    · rfl
    · split <;> rfl
  | newLine amount =>
    intro s names
    simp only [State.emitAction, State.emitNewLine]
    split
    · split <;> rfl
    · rfl
  | box args =>
    intro s names
    simp only [State.emitAction, State.emitBox]
    split <;> rfl
  | generic name args =>
    intro s names
    simp only [State.emitAction, State.emitGeneric]
    split <;> rfl
  | assign _ | font _ | color _ => exact fun _ _ => rfl

theorem stackless_emit_of_isSimple {cs : List Command} (h : ∀ d ∈ cs, d.isSimple = true) (e : Env)
    (expand : Expansion) : Stackless ((Flow.ofCommands cs).emit (e.emitter expand)) := by
  induction cs with
  | nil =>
    intro s names
    simp only [Flow.ofCommands]
    rfl
  | cons d cs ih =>
    obtain ⟨hd, hcs⟩ := List.forall_mem_cons.1 h
    obtain ⟨p, a, rfl, ha⟩ := exists_act_of_isSimple hd
    intro s names
    have hfirst (u : State) : e.emitter expand a (u.inside names) = _ :=
      stackless_emitAction ha e expand u names
    have hrest (u : State) := ih hcs u names
    have hopens : (s.inside names).opensOutline a = s.opensOutline a := rfl
    have hopened : (s.inside names).openOutline = s.openOutline.inside names := rfl
    simp only [Flow.ofCommands, Flow.emit, hopens]
    split
    · rw [hopened, hfirst, hrest]
      rfl
    · rw [hfirst, hrest]
      rfl

abbrev Env.outermost (e : Env) : Emitter :=
  e.emitter (emitNested e e.project.subroutineNames.length)

def expansionNote (name : String) (body : List Command) : String :=
  s!"/* Inlined subroutine: {name} ({body.length} commands) */"

theorem emitNested_of_isSimple {cs : List Command} (h : ∀ d ∈ cs, d.isSimple = true) (e : Env)
    (depth depth' : Nat) (s : State) :
    emitNested e (depth + 1) cs s = emitNested e (depth' + 1) cs s := by
  refine Flow.emit_congr (fun a ha t => State.emitAction_congr (fun c hc => ?_) t e _ _) s
  rw [actions_ofCommands] at ha
  exact call_not_mem_leaves h c (hc ▸ ha)

/-- What is written for an expanded subroutine comes from the walk of its commands in the state of
the call; only the cursor is released behind it. -/
theorem emit_of_expands? {e : Env} {t : State} {a : Action} {name : String} {body : List Command}
    (hexpands : t.expands? e a = some (name, body)) (hcache : t.sec.cache = [])
    (hsimple : ∀ d ∈ body, d.isSimple = true) :
    e.outermost a t
      = ⟨.statement (.plain (expansionNote name body)) (t.emit e body).block,
        (t.emit e body).state.withCursor (·.release)⟩ := by
  -- the subroutine itself is among those whose number bounds the depth
  have hpos := List.length_pos_of_mem (mem_subroutineNames (State.subroutine?_of_expands? hexpands))
  obtain ⟨depth, hdepth⟩ := Nat.exists_eq_add_of_lt hpos
  rw [Nat.zero_add] at hdepth
  have hwithin : t.within name = t.inside (name :: t.expanding) := by
    rw [State.within, ← hcache]
  have hbody : emitNested e (depth + 1) body (t.within name)
      = ⟨(t.emit e body).block, (t.emit e body).state.inside (name :: t.expanding)⟩ := by
    rw [hwithin, emitNested_of_isSimple hsimple e depth e.project.subroutineNames.length]
    exact stackless_emit_of_isSimple hsimple e _ t _
  have hstack : (t.emit e body).state.inside t.expanding = (t.emit e body).state := by
    have hexpanding : (t.emit e body).state.expanding = t.expanding :=
      expanding_emitNested e e.nesting body t
    rw [← hexpanding]
  show t.emitAction e _ a = _
  rw [State.emitAction_of_expands? hexpands, hdepth, State.pasted, hbody]
  exact congrArg (fun u : State => Emission.mk _ (u.withCursor (·.release))) hstack

def Cursor.Free (c : Cursor) : Prop := c.xSet = false ∧ c.vertical ≠ .explicit

instance (c : Cursor) : Decidable c.Free := inferInstanceAs (Decidable (_ ∧ _))

theorem Cursor.Free.release_eq {c : Cursor} (h : c.Free) : c.release = c := by
  obtain ⟨x, y, xSet, vertical⟩ := c
  obtain ⟨rfl, hvertical⟩ := h
  simp only [Cursor.release, if_neg hvertical]

theorem State.withCursor_release {s : State} (h : s.sec.cursor.Free) :
    s.withCursor (·.release) = s := by
  simp only [State.withCursor, h.release_eq]

theorem Cursor.count_release_lt {c : Cursor} (h : ¬ c.Free) (correction : Option String) :
    (c.release.place correction).clause.toList.count '$'
      < (c.place correction).clause.toList.count '$' := by
  obtain ⟨x, y, xSet, vertical⟩ := c
  have hx : 0 < (Coordinate.xClause (.value x)).toList.count '$' := by
    simp [Coordinate.xClause, List.count_append]
  have hy : 0 < (Coordinate.yClause correction (.value y)).toList.count '$' := by
    cases correction <;> simp [Coordinate.yClause, List.count_append, ← Nat.add_assoc]
  have hsame : (Coordinate.xClause (.keyword "SAME")).toList.count '$' = 0 := by decide +kernel
  have hsame' : (Coordinate.yClause correction (.keyword "SAME")).toList.count '$' = 0 := hsame
  simp only [Cursor.Free, Cursor.release, Cursor.place, Place.clause, String.toList_append,
    List.count_append] at h ⊢
  by_cases hvertical : vertical = .explicit
  · subst hvertical
    cases xSet <;>
      simp only [Cursor.xCoordinate, Cursor.yCoordinate, ↓reduceIte, Bool.false_eq_true, hsame,
        hsame'] <;>
      omega
  · obtain rfl : xSet = true := by simpa [hvertical] using h
    have hrest : Cursor.yCoordinate ⟨x, y, false, vertical⟩
        = Cursor.yCoordinate ⟨x, y, true, vertical⟩ := rfl
    simp only [if_neg hvertical, hrest, Cursor.xCoordinate, ↓reduceIte, Bool.false_eq_true, hsame]
    omega

theorem placed_of_acts {ι : Type} (stretch : ι → List Command) (h : ∀ x, Acts (stretch x))
    (before : List Command) : Placed stretch before := by
  have hinner (depth : Nat) (x : ι) := innerAfter?_of_acts (h x) depth
  have hpassed : Passed stretch := .of_innerAfter fun depth => ⟨depth, hinner depth⟩
  exact hpassed.placed before fun _ => ⟨0, fun x back => FlatIf.read_append (hinner 0 x) back⟩

/-- The state in which a walk comes to an action depends on what stands before it only. -/
theorem exists_met (act : Emitter) (before : List Command) (p : Position) (a : Action) (s : State) :
    ∃ t, ∀ back, ((Flow.ofCommands (before ++ .act p a :: back)).met act s)[(leaves before).length]?
      = some (a, t) := by
  obtain ⟨opening, hfront, hplaces⟩ := placed_of_acts (fun _ : Unit => [.act p a])
    (fun _ => Acts.cons (List.forall_mem_nil _)) before
  -- whatever follows, an action is no `ELSE` of a block `IF` before it
  refine ⟨opening.entry act s, fun back => ?_⟩
  obtain ⟨place, back', rfl, -, hflow⟩ := hplaces back fun _ _ q no => by simp
  have hplug := hflow ()
  simp only [List.singleton_append, Flow.ofCommands] at hplug
  have hget := place.getElem?_met_plug act (f := .act a (.ofCommands back')) s (i := 0)
    (by simp [Flow.actions])
  rw [Surroundings.front_opening] at hfront
  rw [hplug, ← hfront, Surroundings.entry_opening]
  exact hget

theorem Surroundings.entry_eq_of_met {act : Emitter} {before back : List Command} {p : Position}
    {a : Action} {s t : State} (place : Surroundings) {rest : Flow}
    (hmet : ((Flow.ofCommands (before ++ [.act p a])).met act s)[(leaves before).length]?
      = some (a, t))
    (hflow : Flow.ofCommands (before ++ .act p a :: back) = place.plug (.act a rest))
    (hfront : place.front.length = (leaves before).length) : place.entry act s = t := by
  obtain ⟨u, hu⟩ := exists_met act before p a s
  have htu : t = u := by simpa [hmet] using hu []
  have hget := place.getElem?_met_plug act (f := .act a rest) s (i := 0) (by simp [Flow.actions])
  rw [← hflow, Nat.add_zero, hfront, hu back] at hget
  simpa [Flow.met, htu] using hget.symm

theorem Surroundings.behind_eq_nil {before cs : List Command} {place : Surroundings} {f : Flow}
    (hflow : Flow.ofCommands (before ++ cs) = place.plug f) (hfront : place.front = leaves before)
    (hactions : f.actions = leaves cs) : place.behind = [] := by
  have hall := congrArg Flow.actions hflow
  rw [actions_ofCommands, place.actions_plug, leaves_append, hfront, hactions] at hall
  simpa using hall

def callOr (p : Position) (a : Action) (body : List Command) : Bool → List Command
  | true => [.act p a]
  | false => body

theorem acts_callOr {p : Position} {a : Action} {body : List Command} (h : Acts body)
    (called : Bool) :
    Acts (callOr p a body called) := by
  cases called with
  | true => exact Acts.cons (List.forall_mem_nil _)
  | false => exact h

theorem Acts.head?_ne {cs : List Command} (h : Acts cs) {q : Position} {no : List Command} :
    cs.head? ≠ some (.elseBlock q no) := by
  intro hhead
  obtain ⟨p, a, hact⟩ := h _ (List.mem_of_head? hhead)
  cases hact

/-- The block `ELSE` that follows is taken by a flat `IF` in front, whether or not a block `IF`
stands directly before it. -/
theorem exists_place_of_awaitsElse {before body : List Command} (hawaits : AwaitsElse before)
    (hbody : Acts body) (p q : Position) (a : Action) (no rest : List Command) :
    ∃ place : Surroundings, place.front = leaves before ∧ ∀ called,
      Flow.ofCommands (before ++ (callOr p a body called ++ .elseBlock q no :: rest))
        = place.plug (Flow.ofCommands (callOr p a body called)) := by
  obtain ⟨outer, r, condition, inside, rfl, hinside⟩ := hawaits
  have hacts := acts_callOr (p := p) (a := a) hbody
  have hyes (called : Bool) : innerAfter? 0 (inside ++ callOr p a body called) = some 0 := by
    rw [innerAfter?_append hinside, innerAfter?_of_acts (hacts called)]
  -- for the siblings around it, the flat `IF` up to the `ELSE` is one stretch
  have hbranch (called : Bool) (depth : Nat) :=
    innerAfter?_ifFlat_elseBlock (hyes called) r q condition
    no depth
  have hpassed := Passed.of_innerAfter fun depth => ⟨depth + 1, fun called => hbranch called depth⟩
  obtain ⟨_, hfront, hplaces⟩ := hpassed.placed outer fun _ =>
    ⟨1, fun called back => FlatIf.read_append (hbranch called 0) back⟩
  obtain ⟨around, back, rfl, -, hflow⟩ := hplaces rest fun _ _ _ _ => by simp
  obtain ⟨_, hfront', hplaces'⟩ := placed_of_acts _ hacts inside
  obtain ⟨inner, none', rfl, hnone, hflow'⟩ := hplaces' [] fun _ called _ _ => by
    simpa using (hacts called).head?_ne
  obtain rfl := List.prefix_nil.1 hnone
  rw [Surroundings.front_opening] at hfront hfront'
  refine ⟨around.comp (.first condition inner
    (.scope (.ofCommands no) (.ofCommands (untilEndIf 0 back).1)) (.ofCommands
      (untilEndIf 0 back).2)),
    ?_, fun called => ?_⟩
  · simp [Surroundings.front_comp, Surroundings.front, hfront, hfront', leaves_append,
      leaves, leavesOf]
  · have hinner := hflow' called
    have hall := hflow called
    simp only [List.append_nil] at hinner
    simp only [List.cons_append, List.append_assoc _ [_],
      ofCommands_ifFlat_elseBlock (hyes called), hinner] at hall
    simpa [Surroundings.plug_comp, Surroundings.plug] using hall

/-- A call and the actions in the place of it stand at one place of the flow, unless a block `IF`
and an `ELSE` meet there. -/
theorem exists_place {before body : List Command} (hbody : Acts body)
    (hapart : body = [] → EndsInIf before → AwaitsElse before) (p : Position) (a : Action)
    (after : List Command) :
    ∃ (place : Surroundings) (back : List Command), place.front = leaves before ∧ ∀ called,
      Flow.ofCommands (before ++ (callOr p a body called ++ after))
        = place.plug (Flow.ofCommands (callOr p a body called ++ back)) := by
  by_cases hparted : EndsInIf before → Parted (callOr p a body) after
  · obtain ⟨_, hfront, hplaces⟩ := placed_of_acts _ (acts_callOr (p := p) (a := a) hbody) before
    obtain ⟨place, back, rfl, -, hflow⟩ := hplaces after hparted
    exact ⟨place, back, place.front_opening ▸ hfront, hflow⟩
  · -- an `ELSE` comes next to the `IF` only if nothing stands in the place of the call
    obtain ⟨hends, hmeet⟩ := Classical.not_imp.1 hparted
    simp only [Parted, not_forall, not_not] at hmeet
    obtain ⟨called, q, no, hhead⟩ := hmeet
    have hempty : callOr p a body called = [] := by
      by_contra hne
      rw [List.head?_append_of_ne_nil _ hne] at hhead
      exact (acts_callOr hbody called).head?_ne hhead
    obtain ⟨rest, rfl⟩ : ∃ rest, after = .elseBlock q no :: rest := by
      rw [hempty, List.nil_append] at hhead
      exact List.head?_eq_some_iff.1 hhead
    have hnil : body = [] := by
      cases called with
      | true => cases hempty
      | false => exact hempty
    obtain ⟨place, hfront, hflow⟩ :=
      exists_place_of_awaitsElse (hapart hnil hends) hbody p q a no rest
    exact ⟨place, [], hfront, fun called => by rw [hflow, List.append_nil]⟩

def State.met (s : State) (e : Env) (cs : List Command) : List (Action × State) :=
  (Flow.ofCommands cs).met e.outermost s

/-- A walk comes to a call that it expands, in an outline and with no operands of `CACHE`; the body
of the subroutine is a row of actions. -/
structure Expands (e : Env) (before : List Command) (p : Position) (c : ResourceCall)
    (name : String) (body : List Command) (s t : State) : Prop where
  met : (s.met e (before ++ [.act p (.call c)]))[(leaves before).length]? = some (.call c, t)
  outlineOpen : t.sec.outlineOpen = true
  cache : t.sec.cache = []
  expands : t.expands? e (.call c) = some (name, body)
  simple : ∀ d ∈ body, d.isSimple = true

theorem passed_parted (p q : Position) (condition : List String) (yes : List Command) (a : Action) :
    Passed fun called =>
      .ifBlock p condition yes :: (callOr q a [] called ++ [.elseBlock {} []]) where
  read depth := ⟨depth + 1, fun called back => by cases called <;> rfl⟩
  untilEnd depth := ⟨depth, fun called back => by cases called <;> simp [callOr, untilEndIf]⟩

theorem AwaitsElse.concat_ifBlock {before : List Command} {p : Position} {condition : List String}
    {yes : List Command} (h : AwaitsElse before) :
    AwaitsElse (before ++ [.ifBlock p condition yes]) := by
  obtain ⟨outer, q, condition', inside, rfl, hinside⟩ := h
  exact ⟨outer, q, condition', inside ++ [.ifBlock p condition yes], by simp,
    by simp [innerAfter?_append hinside, innerAfter?]⟩

theorem exists_place_of_parted {outer yes : List Command} {p : Position} {condition : List String}
    (hawaits : ¬ AwaitsElse (outer ++ [Command.ifBlock p condition yes])) (q : Position)
    (a : Action) :
    ∃ place : Surroundings, place.front = leaves outer ∧ place.behind = [] ∧
      Flow.ofCommands (outer ++ [Command.ifBlock p condition yes] ++ Command.act q a ::
      [.elseBlock {} []])
        = place.plug (.branch condition (.ofCommands yes)
            (.ofCommands (.act q a :: [.elseBlock {} []]))) ∧
      Flow.ofCommands (outer ++ [Command.ifBlock p condition yes] ++ [.elseBlock {} []])
        = place.plug (.branchElse condition (.ofCommands yes) .done .done) := by
  obtain ⟨_, hfront, hplaces⟩ := (passed_parted p q condition yes a).placed outer
    fun hawaits' => absurd hawaits'.concat_ifBlock hawaits
  obtain ⟨place, back, rfl, hback, hflow⟩ := hplaces [] fun _ called _ _ => by simp
  obtain rfl := List.prefix_nil.1 hback
  rw [Surroundings.front_opening] at hfront
  have hcalled :
      Flow.ofCommands (outer ++ (.ifBlock p condition yes :: .act q a :: [.elseBlock {} []]))
      = place.plug (.branch condition (.ofCommands yes)
          (.ofCommands (.act q a :: [.elseBlock {} []]))) := by
    simpa [callOr, Flow.ofCommands] using hflow true
  refine ⟨place, hfront, Surroundings.behind_eq_nil hcalled hfront ?_, ?_, ?_⟩
  · simp [Flow.actions, actions_ofCommands, leaves, leavesOf]
  · simpa using hcalled
  · simpa [callOr, Flow.ofCommands] using hflow false

section Pasting

variable {e : Env} {before body : List Command} {p : Position} {c : ResourceCall} {name : String}
  {s t : State}

theorem Expands.emit_call (h : Expands e before p c name body s t) (back : List Command) :
    (Flow.ofCommands (.act p (.call c) :: back)).emit
        e.outermost t =
      let others := (Flow.ofCommands back).emit
        e.outermost
        ((t.emit e body).state.withCursor (·.release))
      ⟨.statement (.plain (expansionNote name body)) ((t.emit e body).block ++ others.block),
        others.state⟩ := by
  have hnot : ¬ t.opensOutline (.call c) = true := by simp [State.opensOutline, h.outlineOpen]
  simp only [Flow.ofCommands, Flow.emit, if_neg hnot, emit_of_expands? h.expands h.cache h.simple]
  rfl

theorem Expands.emit_body (h : Expands e before p c name body s t) (back : List Command) :
    (Flow.ofCommands (body ++ back)).emit
        e.outermost t =
      let others := (Flow.ofCommands back).emit
        e.outermost (t.emit e body).state
      ⟨(t.emit e body).block ++ others.block, others.state⟩ :=
  emit_append_of_acts (fun a _ hs => outlineOpen_emitter e _ a hs) (acts_of_isSimple h.simple) back
    h.outlineOpen

/-- Behind the place of the call come the same lines, if the cursor is free. -/
theorem Expands.noted (h : Expands e before p c name body s t)
    (hfree : (t.emit e body).state.sec.cursor.Free)
    (hapart : body = [] → EndsInIf before → AwaitsElse before) (after : List Command) :
    Noted (expansionNote name body) (s.emit e (before ++ .act p (.call c) :: after)).block.lines
      (s.emit e (before ++ (body ++ after))).block.lines := by
  obtain ⟨place, back, hfront, hflow⟩ :=
    exists_place (acts_of_isSimple h.simple) hapart p (.call c) after
  have hcalled : Flow.ofCommands (before ++ .act p (.call c) :: after)
      = place.plug (Flow.ofCommands (.act p (.call c) :: back)) := hflow true
  have hpasted : Flow.ofCommands (before ++ (body ++ after))
      = place.plug (Flow.ofCommands (body ++ back)) := hflow false
  have hentry := place.entry_eq_of_met h.met
    (hcalled.trans (by rw [Flow.ofCommands])) (congrArg _ hfront)
  rw [State.emit_eq, State.emit_eq, hcalled, hpasted]
  refine (place.noted_plug ?_ ?_).1
  · rw [hentry, h.emit_call, h.emit_body, State.withCursor_release hfree]
    exact ⟨0, [], _, rfl, rfl⟩
  · rw [hentry, h.emit_call, h.emit_body, State.withCursor_release hfree]

theorem Expands.exists_place (h : Expands e before p c name body s t) {final : List Command}
    (hfinal : Acts final) :
    ∃ place : Surroundings, place.behind = [] ∧ place.entry e.outermost s = t ∧
      Flow.ofCommands (before ++ .act p (.call c) :: final)
        = place.plug (.ofCommands (.act p (.call c) :: final)) ∧
      Flow.ofCommands (before ++ (body ++ final)) = place.plug (.ofCommands (body ++ final)) := by
  have hacts (called : Bool) : Acts (callOr p (.call c) body called ++ final) := by
    intro d hd
    rcases List.mem_append.1 hd with hd | hd
    · exact acts_callOr (acts_of_isSimple h.simple) called d hd
    · exact hfinal d hd
  obtain ⟨_, hfront, hplaces⟩ := placed_of_acts _ hacts before
  obtain ⟨place, back, rfl, hback, hflow⟩ := hplaces [] fun _ called _ _ => by
    simpa using (hacts called).head?_ne
  obtain rfl := List.prefix_nil.1 hback
  rw [Surroundings.front_opening] at hfront
  simp only [List.append_nil] at hflow
  refine ⟨place, Surroundings.behind_eq_nil (hflow true) hfront (actions_ofCommands _), ?_,
    hflow true, hflow false⟩
  exact place.entry_eq_of_met h.met
    ((hflow true).trans (by rw [callOr, List.singleton_append, Flow.ofCommands]))
      (congrArg _ hfront)

def shown : Action := .text { keyword := "SH", source := "VAR_A" }

theorem lines_shown (e : Env) {s : State} (hs : s.sec.outlineOpen = true) :
    ((Flow.ofCommands [.act {} shown]).emit e.outermost s).block.lines
      = (s.output e "VAR_A" none).lines := by
  have hnot : ¬ s.opensOutline shown = true := by simp [State.opensOutline, hs]
  have hshown : e.outermost shown s = s.printLine e "VAR_A" none := rfl
  simp [Flow.ofCommands, Flow.emit, if_neg hnot, hshown, State.printLine, Emission.one,
    Block.single, Block.lines, Emission.quiet]

theorem tally_shown_lt (e : Env) {s : State} (hs : s.sec.outlineOpen = true)
    (hcursor : ¬ s.sec.cursor.Free) :
    tally '$'
      ((Flow.ofCommands [.act {} shown]).emit e.outermost (s.withCursor (·.release))).block.lines
      < tally '$' ((Flow.ofCommands [.act {} shown]).emit e.outermost s).block.lines := by
  have hreleased : (s.withCursor (·.release)).sec.outlineOpen = true := hs
  rw [lines_shown e hs, lines_shown e hreleased]
  exact tally_output_lt '$' (Cursor.count_release_lt hcursor _) _ _ _ _

/-- Text behind the call shows an axis that the commands leave explicit. -/
theorem Expands.free_of_noted (h : Expands e before p c name body s t)
    (hnoted : Noted (expansionNote name body)
      (s.emit e (before ++ .act p (.call c) :: [.act {} shown])).block.lines
      (s.emit e (before ++ (body ++ [.act {} shown]))).block.lines) :
    (t.emit e body).state.sec.cursor.Free := by
  by_contra hcursor
  -- the place of the text is all that can differ, and there the margins are named less often
  obtain ⟨place, hbehind, hentry, hcalled, hpasted⟩ :=
    h.exists_place (Acts.cons (p := {}) (a := shown) (List.forall_mem_nil _))
  obtain ⟨n, hn⟩ := Surroundings.exists_tally_plug '$' e.outermost hbehind s
  have htally := hnoted.tally_eq '$'
  rw [State.emit_eq, State.emit_eq, hcalled, hpasted, hn, hn, hentry, h.emit_call, h.emit_body]
    at htally
  have hopen : (t.emit e body).state.sec.outlineOpen = true :=
    (keeps_emitNested e e.nesting body t).state.trans h.outlineOpen
  have hlt := tally_shown_lt e hopen hcursor
  simp only [Block.lines, Block.lines_append, tally_append, Statement.lines, tally_cons, tally_nil]
    at htally
  omega

theorem Expands.awaitsElse_of_noted (h : Expands e before p c name [] s t) (hends : EndsInIf before)
    (hnoted : Noted (expansionNote name [])
      (s.emit e (before ++ .act p (.call c) :: [.elseBlock {} []])).block.lines
      (s.emit e (before ++ [.elseBlock {} []])).block.lines) : AwaitsElse before := by
  by_contra hawaits
  obtain ⟨q, condition, yes, hlast⟩ := hends
  obtain ⟨outer, rfl⟩ := List.getLast?_eq_some_iff.1 hlast
  obtain ⟨place, hfront, hbehind, hcalled, hpasted⟩ := exists_place_of_parted hawaits p (.call c)
  -- the call stands behind the branch, and the walk comes to it in the state behind the body
  have hentry : ((Flow.ofCommands yes).emit e.outermost (place.entry e.outermost s)).state = t := by
    have hcomp := (place.comp (.branch condition (.ofCommands yes) .here)).entry_eq_of_met h.met
      (hcalled.trans (by rw [Surroundings.plug_comp, Flow.ofCommands]; rfl))
      (by simp [Surroundings.front_comp, Surroundings.front, hfront, leaves_append,
        leaves, leavesOf, actions_ofCommands])
    rwa [Surroundings.entry_comp] at hcomp
  obtain ⟨n, hn⟩ := Surroundings.exists_tally_plug '*' e.outermost hbehind s
  have htally := hnoted.tally_eq '*'
  rw [State.emit_eq, State.emit_eq, hcalled, hpasted, hn, hn, Flow.lines_branch,
    Flow.lines_branchElse, hentry, h.emit_call] at htally
  -- only the note on the stray `ELSE` is left
  have hstray : strayElse.toList.count '*' = 2 := by decide
  simp [Flow.ofCommands, Flow.emit, Block.lines, Statement.lines, State.emit_eq,
    Emission.quiet, ifLines, ifElseLines, indented, flush, hstray] at htally
  omega

/-- A call that is expanded and the commands in the place of it write the same lines but for the
note, whatever follows them, if and only if the commands leave no axis explicit and, where there are
none, the call does not part a block `IF` from its `ELSE`. -/
theorem expansion_pastes_iff (h : Expands e before p c name body s t) :
    (∀ after, Noted (expansionNote name body)
        (s.emit e (before ++ .act p (.call c) :: after)).block.lines
        (s.emit e (before ++ (body ++ after))).block.lines) ↔
      (t.emit e body).state.sec.cursor.Free ∧
      (body = [] → EndsInIf before → AwaitsElse before) := by
  refine ⟨fun hnoted => ⟨h.free_of_noted (hnoted _), ?_⟩,
    fun ⟨hfree, hapart⟩ => h.noted hfree hapart⟩
  rintro rfl hends
  exact h.awaitsElse_of_noted hends (hnoted _)

end Pasting

/-- The commands move the cursor to a point, and text behind the call is printed elsewhere. -/
theorem released_behind_expansion :
    let body : List Command := [.act {} (.move "10" (some "20"))]
    let e : Env :=
      { settings := {}, project := { document := { subroutines := .ofList [("S", body)] } } }
    let print (source : String) : Command := .act {} (.text { keyword := "SH", source })
    let call : Command := .act {} (.call ⟨.segment, "(S)", []⟩)
    ¬ Noted (expansionNote "S" body)
      ((State.initial e).emit e ([print "(a)"] ++ call :: [print "(b)"])).block.lines
      ((State.initial e).emit e ([print "(a)"] ++ (body ++ [print "(b)"]))).block.lines := by
  intro body e print call hnoted
  exact absurd (hnoted.tally_eq '$') (by decide +kernel)

/-- A subroutine that prints where it moves to. -/
theorem expansion_pastes_iff_printed :
    let body : List Command := [.act {} (.move "10" (some "20")), .act {} shown]
    let e : Env :=
      { settings := {}, project := { document := { subroutines := .ofList [("S", body)] } } }
    let c : ResourceCall := ⟨.segment, "(S)", []⟩
    let t := (State.initial e).openOutline.afterOutput false
    Expands e [.act {} shown] {} c "S" body (.initial e) t ∧
      ∀ after, Noted (expansionNote "S" body)
        ((State.initial e).emit e ([.act {} shown] ++ .act {} (.call c) :: after)).block.lines
        ((State.initial e).emit e ([.act {} shown] ++ (body ++ after))).block.lines := by
  intro body e c t
  have hfree : (t.emit e body).state.sec.cursor.Free := by decide +kernel +revert
  have hexpands : t.expands? e (.call c) = some ("S", body) := by
    have hkind : c.kind = .segment := rfl
    have hfile : segmentFile t.sec.cache c.name ≠ "" := by decide +kernel +revert
    have hsegment : segmentKind (segmentFile t.sec.cache c.name) = ("S", .bare) := by
      decide +kernel +revert
    have hfresh : "S" ∉ t.expanding := by decide +kernel +revert
    have hshort : body.length ≤ e.settings.inlineThreshold := by decide +kernel +revert
    have hbody : e.project.subroutine? "S" = some body := rfl
    simp [State.expands?, hkind, hfile, hsegment, hfresh, hbody, hshort]
  have h : Expands e [.act {} shown] {} c "S" body (.initial e) t := {
    met := by
      simp only [State.met, List.singleton_append, Flow.ofCommands, Flow.met, leaves, leavesOf]
      rfl
    outlineOpen := rfl
    cache := rfl
    expands := hexpands
    simple := by simp [body, Command.isSimple, shown] }
  exact ⟨h, (expansion_pastes_iff h).2 ⟨hfree, by simp [body]⟩⟩

end Docdef

end VippDocdef
