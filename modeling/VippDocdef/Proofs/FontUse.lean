import VippDocdef.Proofs.Commenting
import VippDocdef.Proofs.Provenance

/-! Fonts that the program of a document uses, and whether it declares them. Where the document
declares what it selects, every font of its text is declared, unless a subroutine of a form has
brought in one of its own. The footers of the pages have a fixed font, which is declared only if a
source defines it. -/

set_option autoImplicit false

namespace VippDocdef

theorem Text.toUpper_toUpper (s : String) : s.toUpper.toUpper = s.toUpper := by
  have hchar (c : Char) : c.toUpper.toUpper = c.toUpper := by
    unfold Char.toUpper
    split
    · next h =>
      rw [dif_neg]
      rintro ⟨hlow, -⟩
      have hfirst : 97 ≤ c.val := h.1
      have hlast : c.val ≤ 122 := h.2
      change 97 ≤ c.val + _ at hlow
      grind
    · rfl
  have hupper (s : String) : s.toUpper = s.map Char.toUpper := rfl
  apply String.toList_injective
  simp only [hupper, String.toList_map, List.map_map]
  exact List.map_congr_left fun c _ => hchar c

namespace Docdef
open Command (leaves)

/-- The fonts that an action selects, also inside of a literal. In a column there are no
switches. -/
def selectedBy : Action → List String
  | .font name => [name]
  | .text o =>
    match Source.ofOperand? o.source, columnWidth? o with
    | some (.literal text), none => (runs text.toList).2.map fun run => .ofList run.1
    | _, _ => []
  | _ => []

def selectedFonts (cs : List Command) : List String := (leaves cs).flatMap selectedBy

def Statement.fonts : Statement → List String
  | .output _ font .. | .column _ font .. | .baseline _ font _ | .emptyLine font _ => [font]
  | .switched runs _ | .switchedRight runs .. => runs.map (·.1)
  | _ => []

/-- The alias behind the word `FONT` at the start of a line. -/
def fontWord? (text : String) : Option String :=
  match text.toList.dropWhile (· == ' ') with
  | 'F' :: 'O' :: 'N' :: 'T' :: ' ' :: rest => some (.ofList (rest.takeWhile (· != ' ')))
  | _ => none

theorem fontWord?_of_start (start : String) {text : String} (h : start.toList <+: text.toList)
    (hstart : (start.toList.dropWhile (· == ' ')).head?.any (· != 'F') = true) :
    fontWord? text = none := by
  obtain ⟨rest, hrest⟩ := h
  unfold fontWord?
  rw [← hrest, List.dropWhile_append]
  cases hd : start.toList.dropWhile (· == ' ') with
  | nil => simp [hd] at hstart
  | cons c cs =>
    rw [hd] at hstart
    split
    · next heq =>
      obtain rfl : c = 'F' := (List.cons.inj heq).1
      cases hstart
    · rfl

theorem fontWord?_append {start : String}
    (hstart : (start.toList.dropWhile (· == ' ')).head?.any (· != 'F') = true) (rest : String) :
    fontWord? (start ++ rest) = none :=
  fontWord?_of_start start (by simp) hstart

theorem fontWord?_font {a : String} (ha : ' ' ∉ a.toList) (start rest : String)
    (hstart : start.toList.dropWhile (· == ' ') = ['F', 'O', 'N', 'T', ' '])
    (hrest : rest.toList.takeWhile (· != ' ') = []) :
    fontWord? (start ++ (a ++ rest)) = some a := by
  have hword : ∀ c ∈ a.toList, (c != ' ') = true := fun c hc => bne_iff_ne.2 fun h => ha (h ▸ hc)
  unfold fontWord?
  simp [List.dropWhile_append, hstart, List.takeWhile_append_of_pos hword, hrest]

theorem fontWord?_clause {a : String} (ha : ' ' ∉ a.toList) :
    fontWord? ("FONT " ++ a) = some a := by
  simpa using fontWord?_font ha "FONT " "" rfl rfl

theorem fontWord?_normal {a : String} (ha : ' ' ∉ a.toList) :
    fontWord? ("FONT " ++ (a ++ " NORMAL")) = some a :=
  fontWord?_font ha "FONT " " NORMAL" rfl rfl

namespace Statement

theorem filterMap_clauses (head : String) (below : List String) :
    (clauses head below).filterMap (fun l => fontWord? l.text)
      = (head :: below).filterMap fontWord? := by
  rw [clauses, List.filterMap_cons, List.filterMap_map, List.filterMap_cons]
  rfl

@[simp] theorem fontWord?_place (place : Place) : fontWord? place.clause = none := by
  simp (disch := decide) only [Place.clause, String.append_assoc, fontWord?_append]

@[simp] theorem fontWord?_widthClause (width : Float) : fontWord? (widthClause width) = none := by
  simp (disch := decide) only [widthClause, String.append_assoc, fontWord?_append]

@[simp] theorem fontWord?_anchoredClause (x y : Float) : fontWord? (anchoredClause x y) = none := by
  unfold anchoredClause
  simp (disch := decide) only [String.append_assoc, fontWord?_append]

theorem fontWord?_colorClause (color : Option String) :
    ∀ t ∈ colorClause color, fontWord? t = none := by
  cases color <;> simp (disch := decide) [colorClause, fontWord?_append]

theorem fontWord?_alignClause (align : Option Alignment) :
    ∀ t ∈ alignClause align, fontWord? t = none := by
  cases align <;> simp (disch := decide) [alignClause, fontWord?_append]

theorem fontWord?_quotedLines (texts : List String) :
    ∀ t ∈ quotedLines texts, fontWord? t = none := by
  have hquote (s : String) : fontWord? (quote s) = none := by
    simp (disch := decide) only [quote, String.append_assoc, fontWord?_append]
  fun_induction quotedLines texts with
  | case1 => exact List.forall_mem_nil _
  | case2 last => simp (disch := decide) [quote, String.append_assoc, fontWord?_append]
  | case3 first rest _ ih => exact List.forall_mem_cons.2 ⟨hquote first, ih⟩

theorem filterMap_runClauses {runs : List (String × String)}
    (hwords : ∀ a ∈ runs.map (·.1), ' ' ∉ a.toList)
    (hitems : ∀ t ∈ runs.map (·.2), fontWord? t = none) :
    (runClauses runs).filterMap fontWord? = runs.map (·.1) := by
  induction runs with
  | nil => rfl
  | cons run rest ih =>
    obtain ⟨hword, hwords⟩ := List.forall_mem_cons.1 hwords
    obtain ⟨hitem, hitems⟩ := List.forall_mem_cons.1 hitems
    have hcons : runClauses (run :: rest)
        = ("FONT " ++ run.1 ++ " NORMAL") :: run.2 :: runClauses rest := rfl
    rw [hcons, String.append_assoc, List.filterMap_cons_some (fontWord?_normal hword),
      List.filterMap_cons_none hitem, ih hwords hitems]
    rfl

theorem filterMap_lines {st : Statement} (hwords : ∀ a ∈ st.fonts, ' ' ∉ a.toList)
    (hown : ∀ t ∈ st.ownLines, fontWord? t = none) :
    st.lines.filterMap (fun l => fontWord? l.text) = st.fonts := by
  have hcolor (c : Option String) := List.filterMap_eq_nil_iff.2 (fontWord?_colorClause c)
  have halign (a : Option Alignment) := List.filterMap_eq_nil_iff.2 (fontWord?_alignClause a)
  cases st with
  | plain text => simpa [lines, fonts] using hown text List.mem_cons_self
  | routine name => simp (disch := decide) [lines, fonts, String.append_assoc, fontWord?_append]
  | output content font place color align =>
    unfold lines
    rw [filterMap_clauses]
    rcases align with _ | _ | _ | _ | _ <;>
    simp (disch := decide) [List.filterMap_append, List.filterMap_cons, hcolor, fonts,
      String.append_assoc, fontWord?_append, fontWord?_normal (hwords font List.mem_cons_self)]
  | column items font place width align =>
    have hitems : fontWord? items = none := hown items List.mem_cons_self
    rw [lines, filterMap_clauses]
    simp (disch := decide) [List.filterMap_append, List.filterMap_cons, halign, hitems, fonts,
      fontWord?_clause (hwords font List.mem_cons_self)]
  | switched runs place =>
    rw [lines, filterMap_clauses]
    simp (disch := decide) [List.filterMap_append, List.filterMap_cons,
      filterMap_runClauses hwords hown, fonts]
  | switchedRight runs place width =>
    rw [lines, filterMap_clauses]
    cases width <;>
    simp (disch := decide) [List.filterMap_append, List.filterMap_cons,
      filterMap_runClauses hwords hown, fonts]
  | baseline texts font align =>
    have hquoted := List.filterMap_eq_nil_iff.2 (fontWord?_quotedLines texts)
    rw [lines, filterMap_clauses]
    generalize justifyWidth = width
    split <;>
    simp (disch := decide) [List.filterMap_append, List.filterMap_cons, hquoted, halign, fonts,
      fontWord?_clause (hwords font List.mem_cons_self)]
  | emptyLine font y =>
    have hlines : (emptyLine font y).lines =
        flush ["OUTPUT ''", "    FONT " ++ (font ++ " NORMAL"),
        "    POSITION (SAME) (" ++ (y ++ ");")] := by
      simp only [lines, toString, String.append_assoc]
    have hfont := fontWord?_font (hwords font List.mem_cons_self) "    FONT " " NORMAL" rfl rfl
    rw [hlines]
    simp (disch := decide) [flush, List.filterMap_cons, hfont, fontWord?_append, fonts]
  | anchor => simp (disch := decide) [lines, flush, fonts]
  | box x y width height stroke =>
    unfold lines
    rw [filterMap_clauses]
    split <;>
    simp (disch := decide) [List.filterMap_append, List.filterMap_cons, hcolor, fonts,
      String.append_assoc, fontWord?_append]
  | rule x y length across thickness stroke =>
    unfold lines
    rw [filterMap_clauses]
    split <;>
    simp (disch := decide) [List.filterMap_append, List.filterMap_cons, hcolor, fonts,
      String.append_assoc, fontWord?_append]
  | segment name place =>
    rw [lines, filterMap_clauses]
    simp (disch := decide) [List.filterMap_cons, fonts, String.append_assoc, fontWord?_append,
      Place.clause]
  | image name place scale =>
    rw [lines, filterMap_clauses]
    simp (disch := decide) [List.filterMap_cons, fonts, String.append_assoc, fontWord?_append]
  | object name format area =>
    rcases area with _ | ⟨w, h⟩ <;>
    simp (disch := decide) [lines, areaClauses, List.filterMap_cons, fonts, String.append_assoc,
      fontWord?_append]

end Statement

/-- From the state `s` to the state `t` only known fonts are used, provided that the one at the
start is known. -/
def UsesOnly (known : String → Prop) (s : State) (written : List Statement) (t : State) : Prop :=
  known s.sec.font → (∀ st ∈ written, ∀ a ∈ st.fonts, known a) ∧ known t.sec.font

def Emission.UsesOnly (known : String → Prop) (s : State) (r : Emission) : Prop :=
  Docdef.UsesOnly known s r.block.statements r.state

section

variable {known : String → Prop} {e : Env} {expand : Expansion} {s t : State}

theorem UsesOnly.trans {u : State} {written written' : List Statement}
    (h : UsesOnly known s written t)
    (h' : UsesOnly known t written' u) : UsesOnly known s (written ++ written') u := by
  intro hs
  obtain ⟨hwritten, ht⟩ := h hs
  obtain ⟨hwritten', hu⟩ := h' ht
  exact ⟨List.forall_mem_append.2 ⟨hwritten, hwritten'⟩, hu⟩

theorem Emission.UsesOnly.around {u : State} {r : Emission} (h : r.UsesOnly known t)
    (ht : t.sec.font = s.sec.font) (hu : u.sec.font = r.state.sec.font) :
    (Emission.mk r.block u).UsesOnly known s := by
  intro hs
  obtain ⟨hwritten, hstate⟩ := h (ht ▸ hs)
  exact ⟨hwritten, hu ▸ hstate⟩

theorem State.font_withCursor (s : State) (f : Cursor → Cursor) :
    (s.withCursor f).sec.font = s.sec.font := rfl

theorem usesOnly_of_font {written : List Statement}
    (hwritten : ∀ st ∈ written, ∀ a ∈ st.fonts, a = s.sec.font)
    (ht : t.sec.font = s.sec.font) : UsesOnly known s written t := by
  intro hs
  refine ⟨fun st hst a ha => ?_, ht ▸ hs⟩
  rw [hwritten st hst a ha]
  exact hs

theorem usesOnly_quiet (ht : t.sec.font = s.sec.font) : UsesOnly known s [] t :=
  usesOnly_of_font (List.forall_mem_nil _) ht

theorem usesOnly_one {st : Statement} (hst : ∀ a ∈ st.fonts, a = s.sec.font)
    (ht : t.sec.font = s.sec.font) :
    UsesOnly known s [st] t :=
  usesOnly_of_font (List.forall_mem_singleton.2 hst) ht

theorem usesOnly_printPlain (text : String) (align : Option Alignment) :
    (s.printPlain e text align).UsesOnly known s := by
  unfold State.printPlain
  split
  · exact usesOnly_one (List.forall_mem_singleton.2 rfl) rfl
  split
  · exact usesOnly_one (List.forall_mem_singleton.2 rfl) rfl
  · exact usesOnly_one (List.forall_mem_singleton.2 rfl) rfl

theorem mem_fontSegments {start text font segment : String}
    (h : (font, segment) ∈ fontSegments start text) :
    font = start ∨ font ∈ (runs text.toList).2.map fun run => String.ofList run.1 := by
  unfold fontSegments at h
  obtain ⟨⟨name, stretch⟩, hmem, hsome⟩ := List.mem_filterMap.1 h
  have hfont : name = font := by
    dsimp only at hsome
    split at hsome
    · cases hsome
    · exact (Prod.mk.inj (Option.some.inj hsome)).1
  subst hfont
  rcases List.mem_cons.1 hmem with heq | hmem
  · exact .inl (Prod.mk.inj heq).1
  · obtain ⟨run, hrun, heq⟩ := List.mem_map.1 hmem
    exact .inr (List.mem_map.2 ⟨run, hrun, (Prod.mk.inj heq).1⟩)

theorem usesOnly_printLiteral (halias : ∀ a, known a → known (e.fontAlias a)) {text : String}
    (hswitch : ∀ name ∈ (runs text.toList).2.map fun run => String.ofList run.1,
      known (e.fontAlias name))
    (align : Option Alignment) :
    (s.printLiteral e text align).UsesOnly known s := by
  intro hs
  have hsegment {font segment : String} (h : (font, segment) ∈ fontSegments s.sec.font text) :
      known (e.fontAlias font) := by
    rcases mem_fontSegments h with rfl | hname
    · exact halias _ hs
    · exact hswitch font hname
  unfold State.printLiteral
  split
  · exact usesOnly_printPlain text align hs
  · next font segment hsegments =>
    split
    · exact usesOnly_printPlain text align hs
    · have hfont : known (s.withFont (e.fontAlias font)).sec.font :=
        hsegment (hsegments ▸ List.mem_singleton_self _)
      exact ⟨(usesOnly_printPlain segment align hfont).1, hs⟩
  · refine ⟨List.forall_mem_singleton.2 fun a ha => ?_, hs⟩
    have hrun : ∃ segment ∈ fontSegments s.sec.font text, e.fontAlias segment.1 = a := by
      split at ha <;>
      · obtain ⟨run, hrun, rfl⟩ := List.mem_map.1 ha
        obtain ⟨segment, hmem, rfl⟩ := List.mem_map.1 hrun
        exact ⟨segment, (List.mem_filter.1 hmem).1, rfl⟩
    obtain ⟨segment, hmem, rfl⟩ := hrun
    exact hsegment hmem

theorem usesOnly_emitText (halias : ∀ a, known a → known (e.fontAlias a)) {o : TextOutput}
    (ho : ∀ name ∈ selectedBy (.text o), known (e.fontAlias name)) :
    (s.emitText e o).UsesOnly known s := by
  unfold State.emitText
  split
  · exact usesOnly_quiet rfl
  · exact usesOnly_one (List.forall_mem_singleton.2 rfl) rfl
  · exact usesOnly_one (List.forall_mem_singleton.2 rfl) rfl
  · exact usesOnly_one (List.forall_mem_singleton.2 rfl) rfl
  · next text hsource hwidth =>
    refine usesOnly_printLiteral halias ?_ _
    simpa only [selectedBy, hsource, hwidth] using ho

theorem usesOnly_emitNewLine (amount : Option String) :
    (s.emitNewLine amount).UsesOnly known s := by
  unfold State.emitNewLine
  split
  · split
    · exact usesOnly_quiet rfl
    · exact usesOnly_one (List.forall_mem_singleton.2 rfl) rfl
  · exact usesOnly_one (List.forall_mem_singleton.2 rfl) rfl

theorem usesOnly_emitImage (c : ResourceCall) :
    (s.emitImage c).UsesOnly known s := by
  unfold State.emitImage
  split
  · exact usesOnly_quiet rfl
  · exact usesOnly_one (List.forall_mem_nil _) rfl

theorem fonts_of_shape? {x y length thick style : String} {st : Statement}
    (h : shape? e x y length thick style = some st) : st.fonts = [] := by
  simp only [shape?, Option.pure_def, Option.bind_eq_bind, Option.bind_eq_some_iff] at h
  obtain ⟨x, -, y, -, length, -, hst⟩ := h
  rw [← Option.some.inj hst, shape]
  split <;> rfl

theorem usesOnly_emitBox (args : List String) :
    (s.emitBox e args).UsesOnly known s := by
  unfold State.emitBox
  split
  · refine usesOnly_of_font (fun st hst a ha => ?_) rfl
    have hnone : st.fonts = [] := by
      rw [Emission.many, Block.statements_ofList] at hst
      rcases List.mem_append.1 hst with hanchor | hshape
      · rw [State.mem_anchorStatements hanchor]
        rfl
      · exact fonts_of_shape? (Option.mem_toList.1 hshape)
    rw [hnone] at ha
    cases ha
  · exact usesOnly_quiet rfl

def ExpandsKnown (known : String → Prop) (e : Env) (expand : Expansion) : Prop :=
  ∀ name body, e.project.subroutine? name = some body →
    ∀ t, (expand body t).UsesOnly known t

theorem usesOnly_emitSubroutine (hx : ExpandsKnown known e expand) (name : String) :
    (s.emitSubroutine e expand name).UsesOnly known s := by
  unfold State.emitSubroutine
  split
  · exact usesOnly_one (List.forall_mem_nil _) rfl
  · next body hbody =>
    split
    · exact usesOnly_one (List.forall_mem_nil _) (congrArg Section.font (s.sec_request name))
    split
    · exact usesOnly_one (List.forall_mem_nil _) rfl
    · next inside henter =>
      have hinside : inside.sec.font = s.sec.font := congrArg Section.font (s.sec_of_enter? henter)
      intro hs
      obtain ⟨hwritten, hstate⟩ := hx name body hbody inside (hinside ▸ hs)
      exact ⟨List.forall_mem_cons.2 ⟨List.forall_mem_nil _, hwritten⟩, hstate⟩

theorem usesOnly_emitFile (hx : ExpandsKnown known e expand) (cache : List String) (file : String) :
    (s.emitFile e expand cache file).UsesOnly known s := by
  unfold State.emitFile
  split
  · exact usesOnly_emitSubroutine hx _
  all_goals exact usesOnly_one (List.forall_mem_nil _) rfl

theorem usesOnly_emitSegment (hx : ExpandsKnown known e expand) (c : ResourceCall) :
    (s.emitSegment e expand c).UsesOnly known s := by
  unfold State.emitSegment
  dsimp only
  split
  · exact usesOnly_quiet rfl
  · exact (usesOnly_emitFile hx _ _).around rfl (State.font_withCursor _ _)

theorem usesOnly_emitAction (halias : ∀ a, known a → known (e.fontAlias a))
    (hx : ExpandsKnown known e expand)
    {a : Action} (ha : ∀ name ∈ selectedBy a, known (e.fontAlias name)) :
    (s.emitAction e expand a).UsesOnly known s := by
  have hplain {texts : List Statement} {t : State} (htexts : ∀ st ∈ texts, st.fonts = [])
      (ht : t.sec.font = s.sec.font) : (Emission.many texts t).UsesOnly known s := by
    refine usesOnly_of_font (fun st hst a ha => ?_) ht
    rw [Emission.many, Block.statements_ofList] at hst
    rw [htexts st hst] at ha
    cases ha
  cases a with
  | text o => exact usesOnly_emitText (o := o) halias ha
  | newLine amount => exact usesOnly_emitNewLine amount
  | box args => exact usesOnly_emitBox args
  | call c =>
    unfold State.emitAction
    dsimp only
    split
    · exact usesOnly_emitSegment hx c
    · exact usesOnly_emitImage c
  | assign a => exact hplain (by simp [Statement.fonts]) rfl
  | generic name args =>
    refine hplain (List.forall_mem_map.2 fun _ _ => rfl) ?_
    split <;> rfl
  | move x y =>
    refine usesOnly_quiet ?_
    show (s.move x y).sec.font = s.sec.font
    unfold State.move
    split
    · rfl
    · rfl
    · split <;> rfl
  | font name => exact fun _ => ⟨List.forall_mem_nil _, ha name (List.mem_singleton_self name)⟩
  | color name => exact usesOnly_quiet rfl

theorem Run.usesOnly {act : Emitter} {actions : List Action} {written : List Statement}
    (h : Run act s actions written t) (hact : ∀ a ∈ actions, ∀ s, (act a s).UsesOnly known s) :
    UsesOnly known s written t := by
  induction h with
  | stop s => exact usesOnly_quiet rfl
  | hand a next ih =>
    obtain ⟨ha, hrest⟩ := List.forall_mem_cons.1 hact
    exact (ha _).trans (ih hrest)
  | @hoist s t actions written condition next ih =>
    have hhoisted : UsesOnly known s ((Condition.ofAtoms condition).hoisted.map .plain) s :=
      usesOnly_of_font (by simp [Statement.fonts]) rfl
    exact hhoisted.trans (ih hact)
  | @note s t actions written next ih =>
    have hnote : UsesOnly known s [.plain strayElse] s := usesOnly_one (List.forall_mem_nil _) rfl
    exact hnote.trans (ih hact)
  | openOutline closed next ih => exact ih hact
  | closeOutline next ih => exact ih hact

theorem usesOnly_emitNested (halias : ∀ a, known a → known (e.fontAlias a))
    (hroutines : ∀ name body, e.project.subroutine? name = some body →
      ∀ font ∈ selectedFonts body, known (e.fontAlias font))
    (depth : Nat) {cs : List Command} (hcs : ∀ font ∈ selectedFonts cs, known (e.fontAlias font)) :
    (emitNested e depth cs s).UsesOnly known s := by
  induction depth generalizing cs s with
  | zero => exact usesOnly_quiet rfl
  | succ depth ih =>
    refine (Flow.run_emit _ (Flow.ofCommands cs) s).usesOnly fun a ha t => ?_
    rw [actions_ofCommands] at ha
    refine usesOnly_emitAction halias (fun name body hbody t => ih (hroutines name body hbody)) ?_
    intro font hfont
    exact hcs font (List.mem_flatMap_of_mem ha hfont)

end

def sectionFonts (p : Project) : List FontDef :=
  (declaredFonts p).values ++ defaultFonts.filter fun f => !(declaredFonts p).contains f.aliasName

def sectionAliases (p : Project) : List String := (sectionFonts p).map (·.aliasName)

theorem nodup_defaultFonts : (defaultFonts.map (·.aliasName)).Nodup := by decide

theorem toUpper_of_mem_defaultFonts : ∀ f ∈ defaultFonts, f.aliasName.toUpper = f.aliasName := by
  decide +kernel

theorem fontSection_eq (p : Project) :
    fontSection p = flush ("/* Font Definitions */" :: (sectionFonts p).map fontLine ++ [""]) := rfl

section Aliases

variable {p : Project} {a : String}

theorem mem_keys_declaredFonts :
    a ∈ (declaredFonts p).keys ↔ ∃ f ∈ p.fonts, (declaredFont f).aliasName = a := by
  rw [declaredFonts, Table.mem_keys_ofList, List.map_map, List.mem_map]
  rfl

theorem contains_declaredFonts :
    (declaredFonts p).contains a = true ↔ a ∈ (declaredFonts p).keys := by
  unfold Table.contains
  cases hget : (declaredFonts p).get? a with
  | none => simpa using Table.get?_eq_none.1 hget
  | some f => simpa using Table.mem_keys_of_get? hget

theorem sectionAliases_eq (p : Project) :
    sectionAliases p = (declaredFonts p).keys ++
      (defaultFonts.filter fun f => !(declaredFonts p).contains f.aliasName).map (·.aliasName) := by
  have hvalues : (declaredFonts p).values.map (·.aliasName) = (declaredFonts p).keys := by
    rw [Table.values, Table.keys, List.map_map]
    refine List.map_congr_left fun entry hentry => ?_
    obtain ⟨before, after, hsplit, -⟩ := Table.mem_entries_ofList.1 hentry
    have hmem : entry ∈ p.fonts.map fun f => ((declaredFont f).aliasName, declaredFont f) := by
      show entry ∈ p.fonts.map fun f => let d := declaredFont f; (d.aliasName, d)
      rw [hsplit]
      exact List.mem_append_right before List.mem_cons_self
    obtain ⟨f, -, rfl⟩ := List.mem_map.1 hmem
    rfl
  rw [sectionAliases, sectionFonts, List.map_append, hvalues]

/-- Declared is what the sources define, and what every program declares. -/
theorem mem_sectionAliases : a ∈ sectionAliases p ↔
    (∃ f ∈ p.fonts, (declaredFont f).aliasName = a) ∨ a ∈ defaultFonts.map (·.aliasName) := by
  rw [sectionAliases_eq, List.mem_append, ← mem_keys_declaredFonts]
  constructor
  · rintro (hkey | hdefault)
    · exact .inl hkey
    · obtain ⟨f, hf, rfl⟩ := List.mem_map.1 hdefault
      exact .inr (List.mem_map_of_mem (List.mem_filter.1 hf).1)
  · rintro (hkey | hdefault)
    · exact .inl hkey
    · by_cases hkey : a ∈ (declaredFonts p).keys
      · exact .inl hkey
      · obtain ⟨f, hf, rfl⟩ := List.mem_map.1 hdefault
        refine .inr (List.mem_map_of_mem (List.mem_filter.2 ⟨hf, ?_⟩))
        rw [← contains_declaredFonts, Bool.not_eq_true] at hkey
        rw [hkey]
        rfl

theorem nodup_sectionAliases (p : Project) : (sectionAliases p).Nodup := by
  rw [sectionAliases_eq]
  refine List.nodup_append.2 ⟨(declaredFonts p).nodup_keys,
    nodup_defaultFonts.sublist (List.filter_sublist.map _), ?_⟩
  rintro a hkey _ hdefault rfl
  obtain ⟨f, hf, rfl⟩ := List.mem_map.1 hdefault
  have hnot := (List.mem_filter.1 hf).2
  rw [contains_declaredFonts.2 hkey] at hnot
  cases hnot

theorem toUpper_of_mem_sectionAliases (h : a ∈ sectionAliases p) : a.toUpper = a := by
  rcases mem_sectionAliases.1 h with ⟨f, -, rfl⟩ | hdefault
  · exact Text.toUpper_toUpper _
  · obtain ⟨f, hf, rfl⟩ := List.mem_map.1 hdefault
    exact toUpper_of_mem_defaultFonts f hf

end Aliases

def textFonts (settings : Settings) (p : Project) : List String :=
  (programBodies settings p .document).flatMap fun b => b.2.statements.flatMap Statement.fonts

/-- A subroutine of a form selects the font. -/
def Borrowed (p : Project) (a : String) : Prop :=
  ∃ form ∈ p.forms, ∃ body ∈ form.subroutines.values, ∃ name ∈ selectedFonts body, name.toUpper = a

instance (p : Project) (a : String) : Decidable (Borrowed p a) :=
  inferInstanceAs (Decidable (∃ form ∈ p.forms, ∃ body ∈ form.subroutines.values,
    ∃ name ∈ selectedFonts body, name.toUpper = a))

/-- The document declares every font that its own commands select. -/
def DeclaresSelected (p : Project) : Prop :=
  ∀ cs ∈ p.document.cases.map (·.commands) ++ p.document.subroutines.values,
    ∀ name ∈ selectedFonts cs,
    ∃ f ∈ p.document.fonts.values, (declaredFont f).aliasName = name.toUpper

instance (p : Project) : Decidable (DeclaresSelected p) :=
  inferInstanceAs
    (Decidable (∀ cs ∈ p.document.cases.map (·.commands) ++ p.document.subroutines.values,
    ∀ name ∈ selectedFonts cs, ∃ f ∈ p.document.fonts.values,
    (declaredFont f).aliasName = name.toUpper))

section Text

variable {settings : Settings} {p : Project}

theorem known_of_document (hselected : DeclaresSelected p) {cs : List Command}
    (h : cs ∈ p.document.cases.map (·.commands) ++ p.document.subroutines.values) {name : String}
    (hname : name ∈ selectedFonts cs) :
    name.toUpper ∈ sectionAliases p ∨ Borrowed p name.toUpper := by
  obtain ⟨f, hf, halias⟩ := hselected cs h name hname
  exact .inl (mem_sectionAliases.2 (.inl ⟨f, List.mem_append_left _ hf, halias⟩))

theorem known_of_subroutine (hselected : DeclaresSelected p) {routine : String}
    {body : List Command}
    (h : p.subroutine? routine = some body) {name : String} (hname : name ∈ selectedFonts body) :
    name.toUpper ∈ sectionAliases p ∨ Borrowed p name.toUpper := by
  rcases Option.or_eq_some_iff.1 h with hdocument | ⟨-, hform⟩
  · refine known_of_document hselected (List.mem_append_right _ ?_) hname
    exact List.mem_map.2 ⟨_, Table.get?_eq_some.1 hdocument, rfl⟩
  · obtain ⟨form, hmem, hbody⟩ := List.exists_of_findSome?_eq_some hform
    exact .inr ⟨form, hmem, body, List.mem_map.2 ⟨_, Table.get?_eq_some.1 hbody, rfl⟩, name,
      hname, rfl⟩

/-- The text of a program uses declared fonts, and those that subroutines of forms select. -/
theorem known_of_mem_textFonts
    (hdefault : settings.layout.defaultFont ∈ defaultFonts.map (·.aliasName))
    (hselected : DeclaresSelected p) {a : String} (h : a ∈ textFonts settings p) :
    a ∈ sectionAliases p ∨ Borrowed p a := by
  let known (a : String) : Prop := a ∈ sectionAliases p ∨ Borrowed p a
  let e := programEnv settings p .document
  have halias : ∀ a, known a → known (e.fontAlias a) := by
    rintro a (hdeclared | ⟨form, hform, body, hbody, name, hname, rfl⟩)
    · rw [show e.fontAlias a = a from toUpper_of_mem_sectionAliases hdeclared]
      exact .inl hdeclared
    · rw [show e.fontAlias name.toUpper = name.toUpper from Text.toUpper_toUpper name]
      exact .inr ⟨form, hform, body, hbody, name, hname, rfl⟩
  have hwalk {s : State} (hs : s.sec.font = settings.layout.defaultFont) {cs : List Command}
      (hcs : ∀ font ∈ selectedFonts cs, known (e.fontAlias font)) :
      ∀ st ∈ (s.emit e cs).block.statements, ∀ a ∈ st.fonts, known a := by
    refine (usesOnly_emitNested halias (fun name body hbody font hfont => ?_) e.nesting hcs ?_).1
    · exact known_of_subroutine hselected hbody hfont
    · rw [hs]
      exact .inl (mem_sectionAliases.2 (.inr hdefault))
  obtain ⟨b, hb, hbody⟩ := List.mem_flatMap.1 h
  obtain ⟨st, hst, ha⟩ := List.mem_flatMap.1 hbody
  rcases List.mem_append.1 hb with hcase | hroutine
  · rw [bodies_caseBodies _ rfl] at hcase
    obtain ⟨c, hc, rfl⟩ := List.mem_map.1 hcase
    refine hwalk rfl (fun font hfont => ?_) st hst a ha
    have hcommands := List.mem_map_of_mem (f := Case.commands) (List.mem_filter.1 hc).1
    exact known_of_document hselected (List.mem_append_left _ hcommands) hfont
  · obtain ⟨name, hname, rfl⟩ :=
      List.mem_map.1 (bodies_routineBodies e _ _ (expanding_caseFormats e) ▸ hroutine)
    obtain ⟨body, hbody⟩ := defined_routineBodies e _ _ _ _ name hname
    rw [routineBlock, hbody] at hst
    refine hwalk ?_ (fun font hfont => known_of_subroutine hselected hbody hfont) st hst a ha
    unfold State.enter?
    split <;> rfl

end Text

def footerFonts (p : Project) : List String := (formatGroup p).filterMap fun l => fontWord? l.text

theorem fontWord?_formChoices (n : Nat) (forms : List String) :
    ∀ text ∈ formChoices n forms, fontWord? text = none := by
  induction forms generalizing n with
  | nil => exact List.forall_mem_nil _
  | cons name rest ih =>
    refine List.forall_mem_cons.2 ⟨?_, ih (n + 1)⟩
    exact fontWord?_of_start "      IF" (by simp [toString]) (by decide)

theorem fontWord?_formCycle (forms : List String) :
    ∀ text ∈ formCycle forms, fontWord? text = none := by
  refine List.forall_mem_append.2 ⟨fontWord?_formChoices 1 forms, ?_⟩
  split
  · exact List.forall_mem_nil _
  · exact List.forall_mem_singleton.2
      (fontWord?_of_start "      IF" (by simp [toString]) (by decide))

theorem filterMap_logicalPage {number : Nat} (hnumber : fontWord? s!"LOGICALPAGE {number}" = none)
    (forms : List String) :
    (logicalPage number forms).filterMap (fun l => fontWord? l.text) = ["F5_1"] := by
  have hcycle : (formCycle forms).filterMap fontWord? = [] :=
    List.filterMap_eq_nil_iff.2 (fontWord?_formCycle forms)
  unfold logicalPage flush
  rw [List.filterMap_map, List.filterMap_append, List.filterMap_append]
  simp only [Function.comp_def, hcycle, List.filterMap_cons, hnumber]
  decide +kernel

/-- The footers use one font, whatever the sources say. -/
theorem footerFonts_eq (p : Project) : footerFonts p = ["F5_1", "F5_1"] := by
  have hindented (lines : List Line) :
      (indented lines).filterMap (fun l => fontWord? l.text) = lines.filterMap fun l =>
        fontWord? l.text :=
    List.filterMap_map
  unfold footerFonts formatGroup
  simp only [List.filterMap_append, hindented]
  rw [filterMap_logicalPage (by decide +kernel), filterMap_logicalPage (by decide +kernel)]
  decide +kernel

/-- The font section declares the alias in a line that is not commented out. -/
def Declares (settings : Settings) (p : Project) (a : String) : Prop :=
  ∃ f ∈ sectionFonts p, f.aliasName = a ∧ (Detector.ofSettings settings.malformed).flags
    (fontLine f) = false

theorem fontLine_ne_empty (f : FontDef) : fontLine f ≠ "" := by
  intro h
  have hlength := congrArg String.length h
  simp [fontLine] at hlength

theorem Declares.written {settings : Settings} {p : Project} {a : String}
    (h : Declares settings p a) (date : String) (s : State) :
    ∃ f : FontDef, f.aliasName = a ∧
      fontLine f ∈ (documentProgram { settings, project := p } date s).lines.map
        (Line.write (.ofSettings settings.malformed)) := by
  obtain ⟨f, hf, halias, hflags⟩ := h
  refine ⟨f, halias, List.mem_map.2 ⟨⟨0, fontLine f⟩, ?_, ?_⟩⟩
  · have hsection : (⟨0, fontLine f⟩ : Line) ∈ fontSection p := by
      rw [fontSection_eq]
      exact List.mem_map_of_mem
        (List.mem_cons_of_mem _ (List.mem_append_left _ (List.mem_map_of_mem hf)))
    simp only [documentProgram, List.mem_append, hsection, true_or, or_true]
  · simp [Line.write, fontLine_ne_empty, Detector.sanitize, hflags, Line.indentation]

/-- Where the document declares what it selects, all fonts are declared if and only if a source
defines the font of the footers, the fonts that subroutines of forms bring in are declared, and no
declaration is commented out. A declaration is a line of the program, and a statement has its
aliases behind the word `FONT`, if none of the texts that it writes as they stand looks so. -/
theorem document_fonts_declared_iff (settings : Settings) (date : String) (p : Project)
    (hdefault : settings.layout.defaultFont ∈ defaultFonts.map (·.aliasName))
    (hselected : DeclaresSelected p) :
    (∀ a, Declares settings p a → ∃ f : FontDef, f.aliasName = a ∧
      fontLine f ∈ (documentProgram { settings, project := p } date
        (.initial { settings, project := p })).lines.map
        (Line.write (.ofSettings settings.malformed))) ∧
    (∀ b ∈ programBodies settings p .document, ∀ st ∈ b.2.statements,
      (∀ a ∈ st.fonts, ' ' ∉ a.toList) → (∀ t ∈ st.ownLines, fontWord? t = none) →
      st.lines.filterMap (fun l => fontWord? l.text) = st.fonts) ∧
    ((∀ a ∈ footerFonts p ++ textFonts settings p, Declares settings p a) ↔
      (∃ f ∈ p.fonts, (declaredFont f).aliasName = "F5_1") ∧
      (∀ a ∈ textFonts settings p, Borrowed p a → a ∈ sectionAliases p) ∧
      ∀ f ∈ sectionFonts p, f.aliasName ∈ footerFonts p ++ textFonts settings p →
        (Detector.ofSettings settings.malformed).flags (fontLine f) = false) := by
  refine ⟨fun a ha => ha.written date _, fun _ _ _ _ => Statement.filterMap_lines, ?_⟩
  have hfooter :
      "F5_1" ∈ sectionAliases p ↔ ∃ f ∈ p.fonts, (declaredFont f).aliasName = "F5_1" := by
    rw [mem_sectionAliases]
    exact or_iff_left (by decide)
  have halias {a : String} (h : Declares settings p a) : a ∈ sectionAliases p := by
    obtain ⟨f, hf, rfl, -⟩ := h
    exact List.mem_map_of_mem hf
  constructor
  · intro hall
    refine ⟨hfooter.1 (halias (hall _ (by simp [footerFonts_eq]))),
      fun a ha _ => halias (hall a (List.mem_append_right _ ha)), fun f hf hused => ?_⟩
    obtain ⟨g, hg, hname, hflags⟩ := hall _ hused
    rw [← List.inj_on_of_nodup_map (nodup_sectionAliases p) hg hf hname]
    exact hflags
  · rintro ⟨hfive, hborrowed, hflags⟩ a ha
    have hdeclared : a ∈ sectionAliases p := by
      rcases List.mem_append.1 ha with hfoot | htext
      · have hname : a = "F5_1" := by simpa [footerFonts_eq] using hfoot
        rw [hname]
        exact hfooter.2 hfive
      · exact (known_of_mem_textFonts hdefault hselected htext).elim id (hborrowed a htext)
    obtain ⟨f, hf, rfl⟩ := List.mem_map.1 hdeclared
    exact ⟨f, hf, rfl, hflags f hf ha⟩

/-- A document that declares and selects `F1`. The font of the footers is not declared. -/
theorem footer_font_undeclared :
    let p := (Project.ofSources
      ("t.dbm", "/F1 /ARIAL 8 INDEXFONT\nCASE PREFIX\n(A) \x7b F1 (x) SH \x7d\nENDCASE")
        []).resolve.1
    let settings : Settings := {}
    settings.layout.defaultFont ∈ defaultFonts.map (·.aliasName) ∧ DeclaresSelected p ∧
      "F5_1" ∈ footerFonts p ∧ ¬ Declares settings p "F5_1" := by
  intro p settings
  obtain ⟨hselected, hfonts⟩ :
      DeclaresSelected p ∧ p.fonts.map (fun f => (declaredFont f).aliasName) = ["F1"] := by
    decide +kernel
  refine ⟨by decide, hselected, by simp [footerFonts_eq], ?_⟩
  rintro ⟨f, hf, halias, -⟩
  have hdeclared : "F5_1" ∈ sectionAliases p := List.mem_map.2 ⟨f, hf, halias⟩
  rcases mem_sectionAliases.1 hdeclared with ⟨g, hg, hname⟩ | hdefault
  · have hmem : "F5_1" ∈ p.fonts.map fun f => (declaredFont f).aliasName :=
      List.mem_map.2 ⟨g, hg, hname⟩
    rw [hfonts] at hmem
    revert hmem
    decide
  · revert hdefault
    decide

def definedFooter : Project :=
  let font (name : String) : String × FontDef := (name, ⟨name, "ARIAL", 8⟩)
  let print (font text : String) : List Command :=
    [.act {} (.font font), .act {} (.text { keyword := "SH", source := text })]
  let call : Command := .act {} (.call ⟨.segment, "S", []⟩)
  { document :=
      { fonts := .ofList [font "F1", font "F5_1"]
        cases := [⟨"A", print "F1" "(x)" ++ [call]⟩] }
    forms := [{ file := "a.frm", subroutines := .ofList [("S", print "f1" "(y)")] }] }

theorem document_fonts_declared_iff_definedFooter :
    DeclaresSelected definedFooter ∧ textFonts {} definedFooter = ["F1", "F1"] ∧
      Borrowed definedFooter "F1" ∧
      ∀ a ∈ ["F5_1", "F5_1", "F1", "F1"], Declares {} definedFooter a := by
  have hselected : DeclaresSelected definedFooter := by decide +kernel
  have htext : textFonts {} definedFooter = ["F1", "F1"] := by decide +kernel
  have haliases : "F1" ∈ sectionAliases definedFooter := by decide +kernel
  have hharmless : ∀ f ∈ sectionFonts definedFooter, f.aliasName ∈ ["F5_1", "F5_1", "F1", "F1"] →
      isHarmless (fontLine f) = true := by decide +kernel
  have hall := (document_fonts_declared_iff {} "" definedFooter (by decide) hselected).2.2.2
  rw [footerFonts_eq, htext] at hall
  refine ⟨hselected, htext, by decide +kernel, hall ⟨by decide +kernel, ?_, fun f hf hused => ?_⟩⟩
  · intro a ha _
    have hname : a = "F1" := by simpa using ha
    exact hname ▸ haliases
  · exact flags_eq_of_isHarmless (hharmless f hf hused)

end Docdef

end VippDocdef
