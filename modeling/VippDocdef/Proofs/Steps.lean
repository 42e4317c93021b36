import VippDocdef.Proofs.Marks

/-! What a single action can do: write some statements in a row, ask for the format of a subroutine,
or expand one where it is called. -/

set_option autoImplicit false

namespace VippDocdef.Docdef

/-- The same subroutines wait and are expanded, and the outline is open or closed as before. -/
structure State.Stays (s t : State) : Prop where
  waiting : t.waiting = s.waiting
  requested : t.requested = s.requested
  expanding : t.expanding = s.expanding
  outlineOpen : t.sec.outlineOpen = s.sec.outlineOpen

theorem State.Stays.refl (s : State) : s.Stays s := ⟨rfl, rfl, rfl, rfl⟩

theorem State.Stays.trans {s t u : State} (h : s.Stays t) (h' : t.Stays u) : s.Stays u :=
  ⟨h'.waiting.trans h.waiting, h'.requested.trans h.requested, h'.expanding.trans h.expanding,
    h'.outlineOpen.trans h.outlineOpen⟩

structure Emission.Row (s : State) (ss : List Statement) (r : Emission) : Prop where
  block : r.block = .ofList ss
  stays : s.Stays r.state
  isData : ∀ st ∈ ss, st.IsData
  noCall : ∀ name, .routine name ∉ ss

/-- Everything that an action can do in a state, where `expand` writes the bodies of subroutines. -/
inductive Step (e : Env) (expand : Expansion) (a : Action) (s : State) (r : Emission) : Prop where
  | row {ss : List Statement} (row : r.Row s ss)
      (prints : ∀ st ∈ ss, st.isPrinting = true → a.isOutput = true)
  | call {name : String} {body : List Command} (isOutput : a.isOutput = true)
      (defined : e.project.subroutine? name = some body) (block : r.block = .single (.routine name))
      (state : (s.request name).Stays r.state)
  | expansion {name note : String} {body : List Command} {inside : State}
      (isOutput : a.isOutput = true)
      (defined : e.project.subroutine? name = some body) (fresh : name ∉ s.expanding)
      (isNote : Ordinary note)
      (entered : State.Stays { s with expanding := name :: s.expanding } inside)
      (block : r.block = .statement (.plain note) (expand body inside).block)
      (state : (expand body inside).state.leave.Stays r.state)

theorem row_quiet {s t : State} (h : s.Stays t) : (Emission.quiet t).Row s [] :=
  ⟨rfl, h, by simp, by simp⟩

theorem row_one {s t : State} {st : Statement} (h : s.Stays t) (isData : st.IsData)
    (noCall : ∀ name, .routine name ≠ st) : (Emission.one st t).Row s [st] :=
  ⟨rfl, h, by simpa using isData, by simpa using noCall⟩

theorem Statement.isData_of_ownLines {st : Statement} (h : st.ownLines = []) : st.IsData := by
  simp [IsData, h]

namespace State

variable (s : State) (e : Env)

theorem stays_afterOutput (block : Bool) : s.Stays (s.afterOutput block) := ⟨rfl, rfl, rfl, rfl⟩

theorem row_printLine (content : String) (align : Option Alignment) :
    ∃ ss, (s.printLine e content align).Row s ss :=
  ⟨_, row_one (s.stays_afterOutput _) (Statement.isData_of_ownLines rfl) nofun⟩

theorem row_printColumn {items : String} (h : Ordinary items) (width : Float)
    (align : Option Alignment) : ∃ ss, (s.printColumn e items width align).Row s ss := by
  refine ⟨_, row_one (s.stays_afterOutput _) ?_ nofun⟩
  simpa [Statement.IsData, Statement.ownLines] using h

theorem row_printSwitched (segments : List (String × String)) (align : Option Alignment) :
    ∃ ss, (s.printSwitched e segments align).Row s ss := by
  refine ⟨_, row_one (s.stays_afterOutput _) ?_ ?_⟩
  · intro t ht
    have hrun : ∃ segment : String × String, textItems segment.2 = t := by
      split at ht <;>
      · simp only [Statement.ownLines, List.mem_map] at ht
        obtain ⟨run, ⟨segment, -, rfl⟩, rfl⟩ := ht
        exact ⟨segment, rfl⟩
    obtain ⟨segment, rfl⟩ := hrun
    exact ordinary_textItems segment.2
  · intro name
    split <;> simp

theorem row_printPlain (text : String) (align : Option Alignment) :
    ∃ ss, (s.printPlain e text align).Row s ss := by
  unfold printPlain
  split
  · exact s.row_printLine e _ align
  split
  · exact ⟨_, row_one (s.stays_afterOutput _) (Statement.isData_of_ownLines rfl) nofun⟩
  · exact s.row_printLine e _ align

theorem row_printLiteral (text : String) (align : Option Alignment) :
    ∃ ss, (s.printLiteral e text align).Row s ss := by
  unfold printLiteral
  split
  · exact s.row_printPlain e text align
  · split
    · exact s.row_printPlain e text align
    · next font segment _ _ =>
      obtain ⟨ss, h⟩ := (s.withFont (e.fontAlias font)).row_printPlain e segment align
      have hfont : s.Stays (s.withFont (e.fontAlias font)) := ⟨rfl, rfl, rfl, rfl⟩
      refine ⟨ss, h.block, (hfont.trans h.stays).trans ?_, h.isData, h.noCall⟩
      exact ⟨rfl, rfl, rfl, rfl⟩
  · exact s.row_printSwitched e _ align

theorem row_emitText (o : TextOutput) : ∃ ss, (s.emitText e o).Row s ss := by
  unfold emitText
  split
  · exact ⟨_, row_quiet (.refl s)⟩
  · refine s.row_printColumn e ?_ _ _
    simp (disch := decide) only [String.append_assoc, ordinary_append]
  · exact s.row_printLine e _ _
  · exact s.row_printColumn e (ordinary_textItems _) _ _
  · exact s.row_printLiteral e _ _

theorem row_emitNewLine (amount : Option String) : ∃ ss, (s.emitNewLine amount).Row s ss := by
  unfold emitNewLine
  split
  · split
    · exact ⟨_, row_quiet ⟨rfl, rfl, rfl, rfl⟩⟩
    · exact ⟨_, row_one ⟨rfl, rfl, rfl, rfl⟩ (Statement.isData_of_ownLines rfl) nofun⟩
  · exact ⟨_, row_one ⟨rfl, rfl, rfl, rfl⟩ (Statement.isData_of_ownLines rfl) nofun⟩

theorem row_emitImage (c : ResourceCall) : ∃ ss, (s.emitImage c).Row s ss := by
  unfold emitImage
  split
  · exact ⟨_, row_quiet (.refl s)⟩
  · exact ⟨_, row_one (.refl s) (Statement.isData_of_ownLines rfl) nofun⟩

theorem mem_anchorStatements {s : State} {st : Statement} (h : st ∈ s.anchorStatements) :
    st = .anchor := by
  unfold anchorStatements at h
  split at h
  · cases h
  · exact List.mem_singleton.1 h

theorem shape?_cases {e : Env} {x y length thick style : String} {st : Statement}
    (h : shape? e x y length thick style = some st) :
    st.ownLines = [] ∧ ∀ name, .routine name ≠ st := by
  simp only [shape?, Option.pure_def, Option.bind_eq_bind, Option.bind_eq_some_iff] at h
  obtain ⟨x, -, y, -, length, -, hst⟩ := h
  rw [← Option.some.inj hst, shape]
  split <;> exact ⟨rfl, nofun⟩

theorem row_emitBox (args : List String) : ∃ ss, (s.emitBox e args).Row s ss := by
  unfold emitBox
  split
  · refine ⟨_, rfl, ⟨rfl, rfl, rfl, rfl⟩, ?_, ?_⟩
    · intro st hst
      apply Statement.isData_of_ownLines
      rcases List.mem_append.1 hst with h | h
      · rw [mem_anchorStatements h]
        rfl
      · exact (shape?_cases (Option.mem_toList.1 h)).1
    · intro name hname
      rcases List.mem_append.1 hname with h | h
      · cases mem_anchorStatements h
      · exact (shape?_cases (Option.mem_toList.1 h)).2 name rfl
  · exact ⟨_, row_quiet (.refl s)⟩

variable {s e} {expand : Expansion} {a : Action}

theorem Stays.request {s t : State} (h : s.Stays t) (name : String) :
    (s.request name).Stays (t.request name) := by
  unfold State.request
  rw [h.requested]
  split
  · exact h
  · exact ⟨congrArg (· ++ [name]) h.waiting, rfl, h.expanding, h.outlineOpen⟩

theorem Step.around {t : State} {r : Emission} {u : State} (h : s.Stays t)
    (step : Step e expand a t r) (h' : r.state.Stays u) : Step e expand a s ⟨r.block, u⟩ := by
  cases step with
  | row row prints =>
    exact .row ⟨row.block, (h.trans row.stays).trans h', row.isData, row.noCall⟩ prints
  | call isOutput defined block state =>
    exact .call isOutput defined block (((h.request _).trans state).trans h')
  | @expansion name note body inside isOutput defined fresh isNote entered block state =>
    have hname : Stays { s with expanding := name :: s.expanding }
        { t with expanding := name :: t.expanding } :=
      ⟨h.waiting, h.requested, congrArg (name :: ·) h.expanding, h.outlineOpen⟩
    exact .expansion isOutput defined (h.expanding ▸ fresh) isNote (hname.trans entered) block
      (state.trans h')

theorem step_emitSubroutine (ha : a.isOutput = true) (name : String) :
    Step e expand a s (s.emitSubroutine e expand name) := by
  have single {st : Statement} {t : State} (h : s.Stays t) (hd : st.IsData)
      (hc : ∀ name, .routine name ≠ st) : Step e expand a s (.one st t) :=
    .row (row_one h hd hc) fun _ _ _ => ha
  unfold emitSubroutine
  split
  · exact single (.refl s) (Statement.isData_of_ownLines rfl) nofun
  · next body hbody =>
    split
    · exact .call ha hbody rfl (.refl _)
    unfold enter?
    split
    · next henter =>
      refine single ⟨rfl, rfl, rfl, rfl⟩ (Statement.isData_plain.2 ?_) nofun
      simp (disch := decide) only [String.append_assoc, ordinary_append]
    · next inside henter =>
      split at henter
      · cases henter
      · next hfresh =>
        obtain rfl := Option.some.inj henter
        refine .expansion ha hbody (by simpa using hfresh) ?_ (.refl _) rfl (.refl _)
        simp (disch := decide) only [String.append_assoc, ordinary_append]

theorem step_emitFile (ha : a.isOutput = true) (cache : List String) (file : String) :
    Step e expand a s (s.emitFile e expand cache file) := by
  unfold emitFile
  split
  · exact step_emitSubroutine ha _
  all_goals
    exact .row (row_one (.refl _) (Statement.isData_of_ownLines rfl) nofun) fun _ _ _ => ha

theorem stays_withCursor (s : State) (f : Cursor → Cursor) : s.Stays (s.withCursor f) :=
  ⟨rfl, rfl, rfl, rfl⟩

theorem step_emitSegment (ha : a.isOutput = true) (c : ResourceCall) :
    Step e expand a s (s.emitSegment e expand c) := by
  have htaken : s.Stays { s with sec := { s.sec with cache := [] } } := ⟨rfl, rfl, rfl, rfl⟩
  unfold emitSegment
  dsimp only
  split
  · exact .row (row_quiet htaken) fun _ _ _ => ha
  · exact Step.around htaken (step_emitFile ha _ _) (stays_withCursor _ _)

theorem row_plain {t : State} {texts : List String} (h : s.Stays t) (ht : ∀ x ∈ texts, Ordinary x) :
    (Emission.many (texts.map .plain) t).Row s (texts.map .plain) := by
  refine ⟨rfl, h, ?_, by simp⟩
  intro st hst
  obtain ⟨text, htext, rfl⟩ := List.mem_map.1 hst
  exact Statement.isData_plain.2 (ht text htext)

theorem step_emitAction (s : State) (e : Env) (expand : Expansion) (a : Action) :
    Step e expand a s (s.emitAction e expand a) := by
  have output {r : Emission} (ha : a.isOutput = true) (h : ∃ ss, r.Row s ss) :
      Step e expand a s r := by
    obtain ⟨ss, hrow⟩ := h
    exact .row hrow fun _ _ _ => ha
  cases a with
  | text o => exact output rfl (s.row_emitText e o)
  | newLine amount => exact output rfl (s.row_emitNewLine amount)
  | box args => exact output rfl (s.row_emitBox e args)
  | call c =>
    unfold emitAction
    dsimp only
    split
    · exact step_emitSegment rfl c
    · exact output rfl (s.row_emitImage c)
  | assign a =>
    have htexts : ∀ x ∈ (assignStatement? a).toList, Ordinary x := by
      intro x hx
      exact ordinary_assignStatement? (Option.mem_toList.1 hx)
    have hrow := row_plain (.refl s) htexts
    rw [← Option.toList_map] at hrow
    refine .row hrow ?_
    simp [Statement.isPrinting]
  | generic name args =>
    refine .row (row_plain ?_ (ordinary_genericLines name args)) (by simp [Statement.isPrinting])
    split <;> exact ⟨rfl, rfl, rfl, rfl⟩
  | move x y =>
    refine .row (row_quiet ?_) (by simp)
    unfold move
    split
    · exact .refl s
    · exact ⟨rfl, rfl, rfl, rfl⟩
    · split <;> exact ⟨rfl, rfl, rfl, rfl⟩
  | font name => exact .row (row_quiet ⟨rfl, rfl, rfl, rfl⟩) (by simp)
  | color name => exact .row (row_quiet ⟨rfl, rfl, rfl, rfl⟩) (by simp)

end State

end VippDocdef.Docdef
