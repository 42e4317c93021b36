import VippDocdef.Proofs.Carryover
import VippDocdef.Proofs.Sections

/-! Formats do not leak into each other. Each begins a section of its own, and nothing but the
section and the subroutines that are being expanded decides what is written; so the format of a
record type, or of a subroutine, is the same whatever was written before it, and other cases or
another order of the cases change no format, only which ones there are and where they stand. -/

set_option autoImplicit false

namespace VippDocdef.Docdef

def Env.withCases (e : Env) (cases : List Case) : Env :=
  { e with project := { e.project with document := { e.project.document with cases } } }

section Cases

variable (e : Env) (cases : List Case)

theorem emitAction_withCases (expand : Expansion) (a : Action) (s : State) :
    s.emitAction (e.withCases cases) expand a = s.emitAction e expand a := by
  cases a <;> rfl

theorem emitNested_withCases (depth : Nat) :
    emitNested (e.withCases cases) depth = emitNested e depth :=
  emitNested_congr (emitAction_withCases e cases) depth

theorem State.emit_withCases (s : State) (commands : List Command) :
    s.emit (e.withCases cases) commands = s.emit e commands :=
  congrFun (congrFun (emitNested_withCases e cases e.nesting) commands) s

end Cases

/-- What stands in the format of a case, written as if it were the only one. -/
def caseBlock (e : Env) (c : Case) : Block :=
  (((State.initial e).beginSection e caseOrigin.1 caseOrigin.2).emit e c.commands).block

def caseSection (e : Env) (c : Case) : List Line := formatLines (formatOfKey c.key) (caseBlock e c)

/-- What stands in the format of a subroutine, written as if nothing had asked for it. -/
def routineBlock (e : Env) (x y : Float) (name : String) : Block :=
  (routineBody e x y name ((e.project.subroutine? name).getD []) (.initial e)).block

def routineSection (e : Env) (x y : Float) (name : String) : List Line :=
  formatLines (formatOfRoutine name) (routineBlock e x y name)

section Formats

variable (e : Env) (x y : Float)

theorem alike_beginSection {s t : State} (h : s.expanding = t.expanding) :
    (s.beginSection e x y).Alike false (t.beginSection e x y) :=
  ⟨.of_eq rfl false, rfl, rfl, h⟩

theorem alike_inFormat {s t : State} (h : s.expanding = t.expanding) (name : String) :
    (s.inFormat e x y name).Alike false (t.inFormat e x y name) := by
  have hfresh := alike_beginSection e x y h
  unfold State.inFormat State.enter?
  rw [hfresh.expanding]
  split
  · exact hfresh
  · exact ⟨hfresh.sec, rfl, rfl, rfl⟩

theorem block_caseBody {s : State} (hs : s.expanding = []) (c : Case) :
    ((s.beginSection e caseOrigin.1 caseOrigin.2).emit e c.commands).block = caseBlock e c :=
  (alike_emitNested e e.nesting c.commands (alike_beginSection e _ _ hs)).block

theorem block_routineBody {s : State} (hs : s.expanding = []) {name : String} {body : List Command}
    (hbody : e.project.subroutine? name = some body) :
    (routineBody e x y name body s).block = routineBlock e x y name := by
  unfold routineBlock
  rw [hbody, Option.getD_some]
  exact (alike_emitNested e e.nesting body (alike_inFormat e x y hs name)).block

theorem State.expanding_inFormat {s : State} (hs : s.expanding = []) (name : String) :
    (s.inFormat e x y name).expanding = [name] := by
  simp [State.inFormat, State.enter?, State.beginSection, hs]

theorem expanding_routineBody {s : State} (hs : s.expanding = []) (name : String)
    (body : List Command) :
    (routineBody e x y name body s).state.expanding = [] :=
  congrArg List.tail
    ((expanding_emitNested e e.nesting body _).trans (State.expanding_inFormat e x y hs name))

theorem bodies_caseBodies {s : State} (hs : s.expanding = []) (cases : List Case) :
    (caseBodies e cases s).bodies = cases.map fun c => (c.key, caseBlock e c) := by
  induction cases generalizing s with
  | nil => rfl
  | cons c rest ih =>
    have hbehind := (expanding_emitNested e e.nesting c.commands
      (s.beginSection e caseOrigin.1 caseOrigin.2)).trans hs
    simp only [caseBodies, List.map_cons, block_caseBody e hs]
    exact congrArg _ (ih hbehind)

theorem bodies_routineBodies {most : Nat} {s : State} (hs : s.expanding = []) :
    (routineBodies e x y most s).bodies
      = (routineBodies e x y most s).names.map fun name => (name, routineBlock e x y name) := by
  induction most generalizing s with
  | zero => rfl
  | succ most ih =>
    cases hnext : s.nextWaiting? with
    | none =>
      simp only [routineBodies, hnext]
      rfl
    | some next =>
      obtain ⟨name, t⟩ := next
      have ht : t.expanding = [] := (State.expanding_of_nextWaiting? hnext).trans hs
      cases hbody : e.project.subroutine? name with
      | none =>
        simp only [routineBodies, hnext, hbody]
        exact ih ht
      | some body =>
        simp only [routineBodies, hnext, hbody, Bodies.names, List.map_cons,
          block_routineBody e x y ht hbody]
        exact congrArg _ (ih (expanding_routineBody e x y ht name body))

/-- Every subroutine that gets a format is called in the formats before, or in one that got its
format for such a reason. -/
theorem names_routineBodies_of_closed {most : Nat} {s : State} {ready : List String}
    (hs : s.expanding = []) (hq : s.Queued e ready) {wanted : String → Prop}
    (hrequested : ∀ name ∈ s.requested, wanted name)
    (hcalls : ∀ name other, wanted name → .routine other ∈ (routineBlock e x y name).statements →
      wanted other) :
    ∀ name ∈ (routineBodies e x y most s).names, wanted name := by
  induction most generalizing s ready with
  | zero => exact List.forall_mem_nil _
  | succ most ih =>
    cases hnext : s.nextWaiting? with
    | none =>
      simp only [routineBodies, hnext]
      exact List.forall_mem_nil _
    | some next =>
      obtain ⟨name, t⟩ := next
      obtain ⟨hq', hrequested', body, hbody⟩ := hq.next hnext
      have ht : t.expanding = [] := (State.expanding_of_nextWaiting? hnext).trans hs
      have hname : wanted name := by
        apply hrequested
        rw [← hrequested', ← hq'.perm.mem_iff]
        simp
      have hasks := asks_routineBody e x y name body t
      have hwanted : ∀ other ∈ (routineBody e x y name body t).state.requested, wanted other := by
        intro other hother
        rcases (hasks.requested other).1 hother with hother | hcall
        · exact hrequested other (hrequested' ▸ hother)
        · exact hcalls name other hname (block_routineBody e x y ht hbody ▸ hcall)
      simp only [routineBodies, hnext, hbody]
      exact List.forall_mem_cons.2
        ⟨hname, ih (expanding_routineBody e x y ht name body) (hasks.queued _ hq') hwanted⟩

end Formats

/-- The formats of record types between their first and their last line. -/
def caseFrame (sections : List (List Line)) : List Line :=
  flush ["/* Individual DOCFORMAT sections for each record type */", ""] ++ sections.flatten
    ++ flush ["/* END OF INDIVIDUAL DOCFORMATS */", ""]

/-- The formats of subroutines before their last line, if there are any. -/
def routineFrame (sections : List (List Line)) : List Line :=
  if sections.isEmpty then [] else sections.flatten ++ flush
    ["/* END OF SUBROUTINE DOCFORMATS */", ""]

section Programs

variable (e : Env)

theorem lines_caseFormats {s : State} (hs : s.expanding = []) :
    (caseFormats e s).lines = caseFrame ((formatCases e.project.document).map (caseSection e)) := by
  simp only [caseFormats, caseFrame, Bodies.lines, bodies_caseBodies e hs, List.flatMap_map,
    List.flatten_eq_flatMap]
  rfl

theorem lines_routineFormats (x y : Float) {s : State} (hs : s.expanding = []) :
    (routineFormats e x y s).lines
      = routineFrame ((allRoutineBodies e x y s).names.map (routineSection e x y)) := by
  have hbodies : (allRoutineBodies e x y s).bodies
      = (allRoutineBodies e x y s).names.map fun name => (name, routineBlock e x y name) :=
    bodies_routineBodies e x y hs
  have hempty : (allRoutineBodies e x y s).bodies.isEmpty
      = ((allRoutineBodies e x y s).names.map (routineSection e x y)).isEmpty := by
    rw [hbodies, List.isEmpty_map, List.isEmpty_map]
  simp only [routineFormats, routineFrame, hempty, Bodies.lines]
  rw [hbodies, List.flatMap_map, List.flatten_eq_flatMap, List.flatMap_map]
  rfl

variable {e} in
/-- What the formats before call decides which subroutines get a format, not the order of the
calls. -/
theorem names_allRoutineBodies_subset {e' : Env} {x y : Float}
    (hblock : routineBlock e' x y = routineBlock e x y) {s s' : State}
    {before before' : List Statement} (hasks : Asks e (.initial e) before s)
    (hasks' : Asks e' (.initial e') before' s') (hs : s.expanding = []) (hs' : s'.expanding = [])
    (hcalls : ∀ name, .routine name ∈ before → .routine name ∈ before') :
    (allRoutineBodies e x y s).names ⊆ (allRoutineBodies e' x y s').names := by
  have hcalled := (names_allRoutineBodies hasks' x y).2
  refine names_routineBodies_of_closed e x y hs (hasks.queued [] (queued_initial e)) ?_ ?_
  · intro name hname
    have hbefore : .routine name ∈ before := by
      simpa [State.initial] using (hasks.requested name).1 hname
    exact (hcalled name).2 (List.mem_append_left _ (hcalls name hbefore))
  · intro name other hname hother
    refine (hcalled other).2 (List.mem_append_right _ ?_)
    have hbody : (name, routineBlock e' x y name) ∈ (allRoutineBodies e' x y s').bodies := by
      have hbodies : (allRoutineBodies e' x y s').bodies
          = (allRoutineBodies e' x y s').names.map fun name => (name, routineBlock e' x y name) :=
        bodies_routineBodies e' x y hs'
      rw [hbodies]
      exact List.mem_map_of_mem hname
    exact List.mem_flatMap.2 ⟨_, hbody, hblock ▸ hother⟩

variable (cases : List Case)

theorem caseBlock_withCases : caseBlock (e.withCases cases) = caseBlock e := by
  funext c
  unfold caseBlock
  rw [State.emit_withCases]
  rfl

theorem caseSection_withCases : caseSection (e.withCases cases) = caseSection e := by
  unfold caseSection
  rw [caseBlock_withCases]

theorem routineBlock_withCases (x y : Float) :
    routineBlock (e.withCases cases) x y = routineBlock e x y := by
  funext name
  unfold routineBlock routineBody
  dsimp only
  rw [State.emit_withCases]
  rfl

theorem routineSection_withCases (x y : Float) :
    routineSection (e.withCases cases) x y = routineSection e x y := by
  unfold routineSection
  rw [routineBlock_withCases]

def documentRoutines (e : Env) : List String :=
  (allRoutineBodies e caseOrigin.1 caseOrigin.2 (caseFormats e (.initial e)).state).names

def assembled (e : Env) (head foot : List Line) (cases : List Case) (routines : List String) :
    List Line :=
  head ++ caseFrame (cases.map (caseSection e))
    ++ routineFrame (routines.map (routineSection e caseOrigin.1 caseOrigin.2)) ++ foot

theorem assembled_withCases : assembled (e.withCases cases) = assembled e := by
  funext head foot formatted routines
  simp only [assembled, caseSection_withCases, routineSection_withCases]

def documentHead (e : Env) (date : String) : List Line :=
  header e.project.document date ++ dataFormats e.settings.input ++ formatGroup e.project
    ++ fontSection e.project ++ colorSection e.project ++ mainFormat e

def documentFoot (e : Env) : List Line :=
  stubs e.project.document (registry e.project.document).keys ++ beforeFirstDocument e
    ++ beforeDocument

theorem expanding_caseFormats : (caseFormats e (.initial e)).state.expanding = [] :=
  (walksCases_caseBodies rfl (formatCases e.project.document)).2

theorem lines_documentProgram (date : String) :
    (documentProgram e date (.initial e)).lines
      = assembled e (documentHead e date) (documentFoot e) (formatCases e.project.document)
          (documentRoutines e) := by
  have hcases := lines_caseFormats e (s := .initial e) rfl
  have hroutines := lines_routineFormats e caseOrigin.1 caseOrigin.2 (expanding_caseFormats e)
  simp only [documentProgram, assembled, documentHead, documentFoot, documentRoutines, hcases,
    hroutines, List.append_assoc]

variable {e cases}

theorem formatCases_perm (h : cases.Perm e.project.document.cases) :
    (formatCases (e.withCases cases).project.document).Perm (formatCases e.project.document) :=
  h.filter _

theorem stubs_withCases (h : cases.Perm e.project.document.cases) :
    stubs (e.withCases cases).project.document (registry (e.withCases cases).project.document).keys
      = stubs e.project.document (registry e.project.document).keys := by
  have hkeys (key : String) : (registry (e.withCases cases).project.document).keys.contains key
      = (registry e.project.document).keys.contains key := by
    rw [Bool.eq_iff_iff, List.contains_iff_mem, List.contains_iff_mem, mem_keys_registry,
      mem_keys_registry]
    exact ((formatCases_perm h).map Case.key).mem_iff
  unfold stubs
  simp only [hkeys]
  rfl

theorem calls_withCases (h : cases.Perm e.project.document.cases) (name : String) :
    .routine
      name ∈ (caseBodies (e.withCases cases) (formatCases (e.withCases cases).project.document)
        (.initial e)).statements
      ↔
      .routine name ∈ (caseBodies e (formatCases e.project.document) (.initial e)).statements := by
  unfold Bodies.statements
  rw [bodies_caseBodies _ rfl, bodies_caseBodies _ rfl, caseBlock_withCases]
  exact (((formatCases_perm h).map _).flatMap_right _).mem_iff

theorem documentRoutines_perm (h : cases.Perm e.project.document.cases) :
    (documentRoutines (e.withCases cases)).Perm (documentRoutines e) := by
  have hblock := routineBlock_withCases e cases caseOrigin.1 caseOrigin.2
  have hasks := asks_caseBodies e (formatCases e.project.document) (.initial e)
  have hasks' :=
    asks_caseBodies (e.withCases cases) (formatCases (e.withCases cases).project.document)
    (.initial e)
  have hs := expanding_caseFormats e
  have hs' := expanding_caseFormats (e.withCases cases)
  have hnodup := (names_allRoutineBodies hasks caseOrigin.1 caseOrigin.2).1
  have hnodup' := (names_allRoutineBodies hasks' caseOrigin.1 caseOrigin.2).1
  refine (List.perm_ext_iff_of_nodup hnodup' hnodup).2 fun name =>
    ⟨fun hname => ?_, fun hname => ?_⟩
  · exact names_allRoutineBodies_subset hblock.symm hasks' hasks hs' hs
      (fun name => (calls_withCases h name).1) hname
  · exact names_allRoutineBodies_subset hblock hasks hasks' hs hs'
      (fun name => (calls_withCases h name).2) hname

end Programs

/-- The lines of a format are those of its case or of its subroutine alone, whatever cases the
document has and whatever was written before. So another order of the cases changes the order of the
formats, and nothing else in the program. -/
theorem formats_do_not_leak (e : Env) :
    (∀ (cases : List Case) (s : State), s.expanding = [] →
      (caseFormats (e.withCases cases) s).lines
        = caseFrame ((formatCases (e.withCases cases).project.document).map (caseSection e))) ∧
    (∀ (cases : List Case) (x y : Float) (s : State), s.expanding = [] →
      (routineFormats (e.withCases cases) x y s).lines
        = routineFrame ((allRoutineBodies (e.withCases cases) x y s).names.map
          (routineSection e x y))) ∧
    ∀ (cases : List Case) (date : String), cases.Perm e.project.document.cases →
      (formatCases (e.withCases cases).project.document).Perm (formatCases e.project.document) ∧
      (documentRoutines (e.withCases cases)).Perm (documentRoutines e) ∧
      ∃ head foot,
        (documentProgram e date (.initial e)).lines
          = assembled e head foot (formatCases e.project.document) (documentRoutines e) ∧
        (documentProgram (e.withCases cases) date (.initial e)).lines
          = assembled e head foot (formatCases (e.withCases cases).project.document)
              (documentRoutines (e.withCases cases)) := by
  refine ⟨fun cases s hs => ?_, fun cases x y s hs => ?_, fun cases date h => ?_⟩
  · rw [lines_caseFormats _ hs, caseSection_withCases]
  · rw [lines_routineFormats _ x y hs, routineSection_withCases]
  · refine ⟨formatCases_perm h, documentRoutines_perm h, _, _, lines_documentProgram e date, ?_⟩
    have hfoot : documentFoot (e.withCases cases) = documentFoot e := by
      unfold documentFoot
      rw [stubs_withCases h]
      rfl
    have hprogram := lines_documentProgram (e.withCases cases) date
    rw [hfoot, assembled_withCases] at hprogram
    exact hprogram

/-- Two cases that change their places, one of which changes the font, and both of which call. -/
theorem formats_do_not_leak_swapped :
    let call (name : String) : Command := .act {} (.call ⟨.segment, name, []⟩)
    let a : Case := ⟨"A", [.act {} (.font "F2"), call "ONE"]⟩
    let b : Case := ⟨"B", [.act {} (.text { keyword := "SH", source := "(x)" }), call "TWO"]⟩
    let e : Env :=
      { settings := { inlineThreshold := 0 }
        project := { document :=
          { cases := [a, b]
            subroutines := .ofList [("ONE", [call "TWO"]), ("TWO", [call "ONE"])] } } }
    [b, a].Perm e.project.document.cases ∧ (State.initial e).expanding = [] ∧
      (caseFormats (e.withCases [b, a]) (.initial e)).lines
        = caseFrame [caseSection e b, caseSection e a] ∧
      (routineFormats (e.withCases [b, a]) 0 0
        (caseFormats (e.withCases [b, a]) (.initial e)).state).lines
        = routineFrame [routineSection e 0 0 "TWO", routineSection e 0 0 "ONE"] ∧
      ∃ head foot,
        (documentProgram e "2024-01-01" (.initial e)).lines
          = assembled e head foot [a, b] ["ONE", "TWO"] ∧
        (documentProgram (e.withCases [b, a]) "2024-01-01" (.initial e)).lines
          = assembled e head foot [b, a] ["TWO", "ONE"] := by
  intro call a b e
  have hperm : [b, a].Perm e.project.document.cases := .swap a b []
  have hfirst : documentRoutines e = ["ONE", "TWO"] := by decide +kernel
  have hsecond : documentRoutines (e.withCases [b, a]) = ["TWO", "ONE"] := by decide +kernel
  have hnames : (allRoutineBodies (e.withCases [b, a]) 0 0
      (caseFormats (e.withCases [b, a]) (.initial e)).state).names = ["TWO", "ONE"] := by
    decide +kernel
  obtain ⟨hcases, hroutines, hprograms⟩ := formats_do_not_leak e
  obtain ⟨-, -, head, foot, hprogram, hprogram'⟩ := hprograms [b, a] "2024-01-01" hperm
  refine ⟨hperm, rfl, hcases [b, a] (.initial e) rfl, ?_, head, foot, hfirst ▸ hprogram,
    hsecond ▸ hprogram'⟩
  have hsections := hroutines [b, a] 0 0 (caseFormats (e.withCases [b, a]) (.initial e)).state
    (expanding_caseFormats (e.withCases [b, a]))
  rwa [hnames] at hsections

end VippDocdef.Docdef
