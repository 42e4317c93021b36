import VippDocdef.Proofs.FontUse
import VippDocdef.Proofs.Positions

/-! The font of a text up to its first switch. The running font is an alias of the project already,
and the names in switches are aliases of the source, but both are looked up in the aliases of the
form: a literal with switches begins in the running font if the form has given no new name to an
alias of that name, and then only. -/

set_option autoImplicit false

namespace VippDocdef.Docdef

def Block.fontLine? (b : Block) : Option String :=
  if (texts b.lines).head? = some "TEXT" then (texts b.lines).find? fun text =>
    (fontWord? text).isSome else none

theorem isSome_fontWord? (rest : String) : (fontWord? ("FONT " ++ rest)).isSome = true := by
  have hlist : ("FONT " ++ rest).toList = 'F' :: 'O' :: 'N' :: 'T' :: ' ' :: rest.toList := by simp
  rw [fontWord?, hlist]
  rfl

section Statements

variable {font items : String} {runs : List (String × String)} {place : Place} {width : Float}

theorem fontLine?_column (align : Option Alignment) :
    (Block.single (.column items font place width align)).fontLine? = some ("FONT " ++ font) := by
  have hword : (fontWord? "TEXT").isSome = false := by decide
  have hfont := isSome_fontWord? font
  have halign :
      (Statement.alignClause align).find? (fun text => (fontWord? text).isSome) = none := by
    rw [List.find?_eq_none]
    intro text htext
    simp [Statement.fontWord?_alignClause align text htext]
  simp [Block.fontLine?, Block.single, Block.lines, Statement.lines, hword, List.find?_append,
    halign, hfont]

theorem fontLine?_switched :
    (Block.single (.switched ((font, items) :: runs) place)).fontLine?
      = some ("FONT " ++ font ++ " NORMAL") := by
  have hword : (fontWord? "TEXT").isSome = false := by decide
  have hfont := isSome_fontWord? (font ++ " NORMAL")
  simp [Block.fontLine?, Block.single, Block.lines, Statement.lines, Statement.runClauses,
    hword, hfont, String.append_assoc]

theorem fontLine?_switchedRight (width : Option Float) :
    (Block.single (.switchedRight ((font, items) :: runs) place width)).fontLine? =
      some ("FONT " ++ font ++ " NORMAL") := by
  have hword : (fontWord? "TEXT").isSome = false ∧ (fontWord? "ALIGN RIGHT").isSome = false := by
    decide
  have hfont := isSome_fontWord? (font ++ " NORMAL")
  cases width <;>
  simp [Block.fontLine?, Block.single, Block.lines, Statement.lines, Statement.runClauses,
    hword, hfont, String.append_assoc]

end Statements

/-- A show command for a literal with visible text in front of its first switch, and more text
behind it. -/
structure ShowsSwitched (o : TextOutput) (lead : List Char) (rs : List (List Char × List Char)) :
    Prop where
  cut : IsSwitchCut (lead, rs)
  source : Source.ofOperand? o.source = some (.literal (.ofList (switchSource (lead, rs))))
  visible : Text.trim (.ofList lead) ≠ ""
  further : ∃ run ∈ rs, run.2 ≠ []

namespace ShowsSwitched

variable {o : TextOutput} {lead : List Char} {rs : List (List Char × List Char)}
    (h : ShowsSwitched o lead rs)

include h

theorem fontSegments_eq_cons (start : String) : ∃ segment segments,
    fontSegments start (.ofList (switchSource (lead, rs)))
      = (start, .ofList lead) :: segment :: segments := by
  have hlead : String.ofList lead ≠ "" := by
    intro hempty
    have hvisible := h.visible
    rw [hempty] at hvisible
    exact hvisible rfl
  obtain ⟨run, hrun, hne⟩ := h.further
  have hmem : (String.ofList run.1, String.ofList run.2) ∈
      (rs.map fun run => (String.ofList run.1, String.ofList run.2)).filter (·.2 ≠ "") :=
    List.mem_filter.2 ⟨List.mem_map_of_mem hrun, by simpa using hne⟩
  obtain ⟨segment, segments, hsegments⟩ := List.exists_cons_of_ne_nil (List.ne_nil_of_mem hmem)
  refine ⟨segment, segments, ?_⟩
  rw [fontSegments_eq, String.toList_ofList, h.cut.runs_eq, stretches,
    List.filter_cons_of_pos (by simpa using hlead), hsegments]

/-- In a column nothing is switched. Otherwise the first font is the running one, once more
renamed. -/
theorem fontLine?_emitText (s : State) (e : Env) :
    (s.emitText e o).block.fontLine? =
      some (if (columnWidth? o).isSome then "FONT " ++ s.sec.font else "FONT "
        ++ e.fontAlias s.sec.font ++ " NORMAL") := by
  unfold State.emitText
  rw [h.source]
  cases columnWidth? o with
  | some width => exact fontLine?_column _
  | none =>
    obtain ⟨segment, segments, hsegments⟩ := h.fontSegments_eq_cons s.sec.font
    dsimp only
    unfold State.printLiteral
    rw [hsegments]
    unfold State.printSwitched
    dsimp only
    rw [List.filter_cons_of_pos (by simpa using h.visible), List.map_cons]
    by_cases hright : alignment? o = some .right
    · rw [if_pos hright]
      exact fontLine?_switchedRight _
    · rw [if_neg hright]
      exact fontLine?_switched

end ShowsSwitched

theorem fontAlias_form {settings : Settings} {p : Project} {i : Nat} {f : Form}
    (hf : p.forms[i]? = some f) (name : String) :
    (programEnv settings p (.form i)).fontAlias name = (f.renames.font name).toUpper := by
  rw [fontAlias_programEnv, Project.fontAliasOf, Project.renamesOf, hf]
  rfl

/-- A running font is looked up once more to no effect if and only if no alias of that name was
renamed. -/
theorem fontAlias_running_iff (settings : Settings) (p : Project) {i : Nat} {f : Form}
    (hf : p.resolve.1.forms[i]? = some f) {font : String} (hupper : font.toUpper = font) :
    (programEnv settings p.resolve.1 (.form i)).fontAlias font = font ↔
      f.renames.font font = font := by
  have hnumbers : Numbers font (f.renames.font font) := by
    simpa [Project.fontAliasOf_form hf, RenameTable.font] using Project.numbers_fontAliasOf (p := p)
      (.form i) font
  rw [fontAlias_form hf]
  constructor
  · intro heq
    exact hnumbers.eq_of_toUpper (.inl rfl) (heq.trans hupper.symm)
  · intro heq
    rw [heq, hupper]

/-- A literal with switches, behind a selection of a font, begins in the running font if and only if
it stands in a column or the form has no other name for an alias of that name. -/
theorem running_font_iff (settings : Settings) (p : Project) {i : Nat} {f : Form}
    (hf : p.resolve.1.forms[i]? = some f) {e : Env}
    (he : e = programEnv settings p.resolve.1 (.form i))
    {before s : State} {expand : Expansion} {name : String}
    (hfont : s.sec.font = (before.emitAction e expand (.font name)).state.sec.font)
    {o : TextOutput} {lead : List Char} {rs : List (List Char × List Char)}
    (h : ShowsSwitched o lead rs) :
    let first := (s.emitText e o).block.fontLine?
    ((columnWidth? o).isSome = true → first = some ("FONT " ++ s.sec.font)) ∧
      ((columnWidth? o).isSome = false →
        first = some ("FONT " ++ (f.renames.font s.sec.font).toUpper ++ " NORMAL") ∧
          (first = some ("FONT " ++ s.sec.font ++ " NORMAL") ↔
            f.renames.font s.sec.font = s.sec.font)) := by
  subst he
  intro first
  have hfirst : first = _ := h.fontLine?_emitText s _
  have hupper : s.sec.font.toUpper = s.sec.font := by
    have hrunning : s.sec.font = (programEnv settings p.resolve.1 (.form i)).fontAlias name := hfont
    rw [hrunning, Env.fontAlias, Text.toUpper_toUpper]
  refine ⟨fun hcolumn => by rw [hfirst, if_pos hcolumn], fun hcolumn => ?_⟩
  rw [hfirst, if_neg (by simp [hcolumn])]
  refine ⟨by rw [fontAlias_form hf], ?_⟩
  rw [← fontAlias_running_iff settings p hf hupper]
  simp [← String.toList_inj]

theorem not_hasSwitch_of_not_mem {text : List Char} (h : '~' ∉ text) : ¬ HasSwitch text := by
  rintro ⟨c, -, hswitch⟩
  exact h (hswitch.subset List.mem_cons_self)

def borrowing (aliases : List String) : Project :=
  let fonts (names : List String) : Table FontDef :=
    .ofList (names.map fun name => (name, ⟨name, "ARIAL", 8⟩))
  { document := { fonts := fonts ["F1"] }, forms := [{ file := "a.frm", fonts := fonts aliases }] }

theorem running_font_iff_renamed :
    let e : Env := programEnv {} (borrowing ["F1"]).resolve.1 (.form 0)
    let s : State := ((State.initial e).emitAction e (fun _ s => .quiet s) (.font "F1")).state
    (∃ f, (borrowing ["F1"]).resolve.1.forms[0]? = some f ∧ f.renames.font "F1_1" = "F1_1") ∧
      s.sec.font = "F1_1" ∧
      (s.emitText e (plainShow "abc ~~F2def")).block.fontLine? = some "FONT F1_1 NORMAL" := by
  intro e s
  have hcut : IsSwitchCut ("abc ".toList, [("F2".toList, "def".toList)]) :=
    ⟨not_hasSwitch_of_not_mem (by decide),
      List.forall_mem_singleton.2 (not_hasSwitch_of_not_mem (by decide)),
      List.forall_mem_singleton.2 (isSwitchName_two (by decide) (by decide)),
      List.forall_mem_singleton.2 fun hshort => absurd hshort (by decide)⟩
  have hshows :
      ShowsSwitched (plainShow "abc ~~F2def") "abc ".toList [("F2".toList, "def".toList)] :=
    ⟨hcut,
      ofOperand?_paren "abc ~~F2def", by decide, ("F2".toList, "def".toList), by decide, by decide⟩
  have hrenames : (borrowing ["F1"]).resolve.1.forms[0]?.map (fun f => f.renames.font "F1_1")
      = some "F1_1" := by
    decide +kernel
  have hrunning : s.sec.font = "F1_1" := by decide +kernel
  obtain ⟨f, hf, hkept⟩ := Option.map_eq_some_iff.1 hrenames
  refine ⟨⟨f, hf, hkept⟩, hrunning, ?_⟩
  have hselected :
      s.sec.font
        = ((State.initial e).emitAction e (fun _ s => .quiet s) (.font "F1")).state.sec.font := rfl
  have hfirst := (running_font_iff {} (borrowing ["F1"]) hf rfl hselected hshows).2 rfl
  simpa [hrunning] using hfirst.2.2 (by rw [hrunning, hkept])

/-- An alias of the form reads like the new name of another one. -/
theorem running_font_renamed_twice :
    let e : Env := programEnv {} (borrowing ["F1", "F1_1"]).resolve.1 (.form 0)
    let s : State := ((State.initial e).emitAction e (fun _ s => .quiet s) (.font "F1")).state
    s.sec.font = "F1_1" ∧
      (s.emitText e (plainShow "abc ~~F2def")).block.fontLine? = some "FONT F1_1_1 NORMAL" := by
  decide +kernel

end VippDocdef.Docdef
