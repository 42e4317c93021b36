import VippDocdef.Proofs.Provenance
import VippDocdef.Proofs.Remarks

/-! Where the comments of a program end. Titles, file names, the date, mangled assignments, unknown
words, names of subroutines and flagged lines are put into comments as they stand. All comments of a
program reach to the end of their lines if none of these texts has the end of a comment in it, and
then only. -/

set_option autoImplicit false

namespace VippDocdef.Docdef

def metadataRemarks (m : Metadata) : List String :=
  m.title.toList ++ (m.creator.toList ++ m.creationDate.toList)

theorem wraps_metadataLines (m : Metadata) : Wraps (metadataLines m) (metadataRemarks m) := by
  let note (label v : String) : String := s!"/* Original {label}: {v} */"
  have hnote {label : String} (hlabel : '*' ∉ label.toList) (value : Option String) :
      Wraps (flush (value.map (note label)).toList) value.toList := by
    cases value with
    | none => exact .none throughout_nil
    | some v =>
      have htext :
          note label v = "/* " ++ ("Original " ++ label ++ ": " ++ (v ++ "")) ++ " */" := by
        simp [← String.toList_inj, toString, note]
      exact wraps_remark htext (by simpa using hlabel) (by decide) (by decide)
  have hlines : metadataLines m
      = flush (m.title.map (note "Title")).toList
        ++ (flush (m.creator.map (note "Creator")).toList ++ flush
          (m.creationDate.map (note "Date")).toList) := by
    obtain ⟨title, creator, creationDate⟩ := m
    cases title <;> cases creator <;> cases creationDate <;> rfl
  rw [hlines]
  exact (hnote (by decide) _).append ((hnote (by decide) _).append (hnote (by decide) _))

theorem inert_banner : Throughout Inert (flush [banner]) := throughout_fixed (by decide)

theorem wraps_header (d : Document) (date : String) :
    Wraps (header d date) ([d.file, date] ++ metadataRemarks d.metadata) := by
  have hfile : Wraps (flush [s!"/* Source: {d.file} */"]) [d.file] :=
    wraps_labelled "Source: " rfl (by decide) d.file
  have hdate : Wraps (flush [s!"/* Conversion Date: {date} */"]) [date] :=
    wraps_labelled "Conversion Date: " rfl (by decide) date
  have hmetadata : Wraps (if d.metadata = {} then [] else metadataLines d.metadata ++ [.blank])
      (metadataRemarks d.metadata) := by
    split
    · next hnone =>
      rw [hnone]
      exact .none throughout_nil
    · exact (wraps_metadataLines d.metadata).before (by simp [Line.blank])
  have hstart : Throughout Inert (flush [s!"DOCDEF {d.programName};", ""]) := by
    simp (disch := decide) [String.append_assoc, inert_append]
  exact ((((hfile.append hdate).behind inert_banner).before (b := flush [""]) (by simp)).append
    hmetadata).before hstart

theorem inert_dataFormats (i : InputSettings) : Throughout Inert (dataFormats i) := by
  unfold dataFormats
  simp (disch := decide) [String.append_assoc, inert_append, inert_of_isInert]

theorem inert_formChoices (n : Nat) (forms : List String) : ∀ t ∈ formChoices n forms, Inert t := by
  induction forms generalizing n with
  | nil => exact List.forall_mem_nil _
  | cons name rest ih =>
    refine List.forall_mem_cons.2 ⟨?_, ih (n + 1)⟩
    simp (disch := decide) only [String.append_assoc, inert_append]

theorem inert_logicalPage (number : Nat) (forms : List String) :
    Throughout Inert (logicalPage number forms) := by
  have hcycle : ∀ t ∈ formCycle forms, Inert t := by
    unfold formCycle
    rw [List.forall_mem_append]
    refine ⟨inert_formChoices 1 forms, ?_⟩
    split
    · exact List.forall_mem_nil _
    · simp (disch := decide) [String.append_assoc, inert_append]
  unfold logicalPage
  simp only [throughout_flush, List.forall_mem_append]
  refine ⟨⟨?_, hcycle⟩, ?_⟩ <;> simp (disch := decide) [inert_append, inert_of_isInert]

theorem inert_formatGroup (p : Project) : Throughout Inert (formatGroup p) := by
  unfold formatGroup
  simp (disch := decide) [inert_logicalPage, Line.blank, inert_of_isInert]

theorem inert_titled {title : String} (htitle : isInert title = true) {α : Type} {line : α → String}
    (hline : ∀ x, Inert (line x)) (xs : List α) :
    Throughout Inert (flush ([title] ++ xs.map line ++ [""])) := by
  rw [throughout_flush, List.forall_mem_append, List.forall_mem_append, List.forall_mem_map]
  exact ⟨⟨List.forall_mem_singleton.2 (inert_of_isInert htitle), fun x _ => hline x⟩,
    List.forall_mem_singleton.2 inert_empty⟩

theorem inert_fontSection (p : Project) : Throughout Inert (fontSection p) := by
  refine inert_titled (by decide) (fun f => ?_) _
  unfold fontLine
  simp (disch := decide) only [String.append_assoc, inert_append]

theorem inert_colorSection (p : Project) : Throughout Inert (colorSection p) := by
  refine inert_titled (by decide) (fun c => ?_) _
  unfold colorLine
  simp (disch := decide) only [String.append_assoc, inert_append]

theorem inert_spacingLine (spacing : Option String) : Inert (spacingLine spacing) := by
  unfold spacingLine
  split
  · simp (disch := decide) only [String.append_assoc, inert_append]
  · exact inert_of_isInert (by decide)

theorem inert_recordInput (record : String) : Throughout Inert (recordInput record) := by
  unfold recordInput
  simp (disch := decide) [inert_append, inert_of_isInert]

theorem inert_mainFormat (e : Env) : Throughout Inert (mainFormat e) := by
  have horigin (origin : Option (Int × Int)) : Throughout Inert (pageOriginLines origin) := by
    unfold pageOriginLines
    split
    · simp (disch := decide) [String.append_assoc, inert_append, inert_of_isInert, Line.blank]
    · exact throughout_nil
  have hdispatch (separator : String) : Throughout Inert (dispatchLines separator) := by
    unfold dispatchLines
    simp (disch := decide) [String.append_assoc, inert_append, inert_of_isInert]
  have hend : Throughout Inert endOfDocumentLines := throughout_fixed (by decide)
  unfold mainFormat
  simp (disch := decide) [inert_recordInput, inert_spacingLine, horigin, hdispatch, hend,
    String.append_assoc, inert_append, inert_of_isInert]

theorem inert_initializationLines (a : Action) : ∀ t ∈ initializationLines a, Inert t := by
  unfold initializationLines
  split
  · dsimp only
    split
    · exact List.forall_mem_nil _
    · rw [List.forall_mem_singleton, String.append_assoc, String.append_assoc]
      exact inert_dropLeading _ _ (by simp)
  · split
    · simp (disch := decide) [inert_of_isInert]
    · exact List.forall_mem_nil _
  · simp [inert_spacingLine]
  · next name _ _ =>
    split
    · next horientation =>
      rw [List.forall_mem_singleton]
      simp only [List.mem_cons, List.not_mem_nil, or_false] at horientation
      rcases horientation with rfl | rfl | rfl <;> exact inert_of_isInert (by decide)
    · exact List.forall_mem_nil _
  · exact List.forall_mem_nil _

theorem inert_beforeFirstDocument (e : Env) : Throughout Inert (beforeFirstDocument e) := by
  have hcorrections : ∀ t ∈ correctionLines e.settings.calibration, Inert t := by
    unfold correctionLines FontBand.variable
    rw [List.forall_mem_append, List.forall_mem_map]
    simp (disch := decide) [String.append_assoc, inert_append]
  have hheader : Throughout Inert dataHeaderLines := throughout_fixed (by decide)
  have hinit :
      ∀ t ∈ (Command.actions e.project.document.prologue).flatMap initializationLines, Inert t := by
    intro t ht
    obtain ⟨a, -, hta⟩ := List.mem_flatMap.1 ht
    exact inert_initializationLines a t hta
  unfold beforeFirstDocument
  simp only [throughout_append, throughout_indented, throughout_flush, List.forall_mem_append]
  refine ⟨⟨?_, ⟨⟨⟨⟨⟨?_, hcorrections⟩, ?_⟩, hinit⟩, ?_⟩, ⟨⟨?_, inert_recordInput _⟩, ?_⟩, hheader⟩,
    ?_⟩, ?_⟩ <;>
    simp (disch := decide) [String.append_assoc, inert_append, inert_of_isInert, Line.blank]

theorem inert_beforeDocument : Throughout Inert beforeDocument := throughout_fixed (by decide)

theorem inert_stubs (d : Document) (written : List String) :
    Throughout Inert (stubs d written) := by
  have hstub {key : String} (hkey : '*' ∉ key.toList) : Throughout Inert (stubLines key) := by
    have hnote : Inert s!"/* {key} Prefix not found or commented out */" := by
      have htext : s!"/* {key} Prefix not found or commented out */"
          = "/* " ++ (key ++ " Prefix not found or commented out") ++ " */" := by
        simp [← String.toList_inj, toString]
      rw [htext, inert_comment_iff]
      exact not_closes_of_not_mem (by simp [hkey])
    have hname : Inert s!"DOCFORMAT {formatOfKey key};" := by
      simp (disch := decide) only [String.append_assoc, inert_append]
    exact List.forall_mem_cons.2
      ⟨hname, List.forall_mem_cons.2 ⟨hnote, throughout_fixed (by decide)⟩⟩
  unfold stubs
  dsimp only
  split
  · exact throughout_nil
  · simp only [throughout_append]
    refine ⟨⟨throughout_fixed (by decide), fun t ht => ?_⟩, throughout_fixed (by decide)⟩
    obtain ⟨x, hx, rfl⟩ := List.mem_map.1 ht
    obtain ⟨key, hkey, hxkey⟩ := List.mem_flatMap.1 hx
    have hstar : '*' ∉ key.toList :=
      not_mem_referencedPrefixes (List.mem_of_mem_filter hkey) (by decide) (by decide)
    exact hstub hstar _ (List.mem_map_of_mem hxkey)

theorem Wraps.congr {lines : List Line} {remarks more : List String} (h : Wraps lines remarks)
    (hmore : ∀ text, text ∈ remarks ↔ text ∈ more) : Wraps lines more := by
  unfold Wraps at h ⊢
  simpa only [hmore] using h

theorem Wraps.flatten {α : Type} {parts : List α} {linesOf : α → List Line}
    {remarksOf : α → List String} (h : ∀ x, Wraps (linesOf x) (remarksOf x)) :
    Wraps (parts.map linesOf).flatten (parts.flatMap remarksOf) := by
  induction parts with
  | nil => exact .none throughout_nil
  | cons x rest ih => exact (h x).append ih

theorem wraps_formatLines {body : Block} {remarks : List String} (h : Wraps body.lines remarks)
    (name : String) :
    Wraps (formatLines name body) remarks := by
  have hstart : Throughout Inert (flush [s!"DOCFORMAT {name};"]) := by
    simp (disch := decide) [String.append_assoc, inert_append]
  exact (h.indented.behind hstart).before (by simp [Line.blank])

def caseRemarks (e : Env) (c : Case) : List String :=
  remarksNested e e.nesting c.commands ((State.initial e).beginSection e caseOrigin.1 caseOrigin.2)

def routineRemarks (e : Env) (x y : Float) (name : String) : List String :=
  remarksNested e e.nesting ((e.project.subroutine? name).getD [])
    ((State.initial e).inFormat e x y name)

theorem wraps_caseFrame (e : Env) (cases : List Case) :
    Wraps (caseFrame (cases.map (caseSection e))) (cases.flatMap (caseRemarks e)) := by
  have hsections : Wraps (cases.map (caseSection e)).flatten (cases.flatMap (caseRemarks e)) :=
    .flatten fun c => wraps_formatLines (wraps_emitNested e e.nesting c.commands _) _
  exact (hsections.behind (throughout_fixed (by decide))).before (throughout_fixed (by decide))

theorem wraps_routineFrame (e : Env) (x y : Float) (names : List String) :
    Wraps (routineFrame (names.map (routineSection e x y)))
      (names.flatMap (routineRemarks e x y)) := by
  have hsections :
      Wraps (names.map (routineSection e x y)).flatten (names.flatMap (routineRemarks e x y)) :=
    .flatten fun name => wraps_formatLines (wraps_emitNested e e.nesting _ _) _
  unfold routineFrame
  split
  · next hempty =>
    rw [List.map_eq_nil_iff.1 (List.isEmpty_iff.1 hempty)]
    exact .none throughout_nil
  · exact hsections.before (throughout_fixed (by decide))

def formRoutines (e : Env) (f : Form) : List String :=
  (allRoutineBodies e 0 0 (formBody e f (.initial e)).state).names

theorem not_mem_formatName (f : Form) : '*' ∉ f.formatName.toList := by
  unfold Form.formatName formatName
  rw [String.toList_ofList]
  intro hmem
  exact absurd (List.mem_filter.1 hmem).2 (by decide)

theorem inert_formEnd (f : Form) : Inert s!"/* END OF FRM DOCFORMAT {f.formatName} */" := by
  have htext (name : String) : s!"/* END OF FRM DOCFORMAT {name} */"
      = "/* " ++ ("END OF FRM DOCFORMAT " ++ name) ++ " */" := by
    simp [← String.toList_inj, toString]
  rw [htext, inert_comment_iff]
  exact not_closes_of_not_mem (by simp [not_mem_formatName f])

theorem wraps_pageOutline {body : List Line} {remarks : List String} (h : Wraps body remarks)
    {opener : String}
    (hopener : isInert opener = true) : Wraps (pageOutline opener body) remarks := by
  refine (h.indented.behind ?_).before (throughout_fixed (by decide))
  exact List.forall_mem_cons.2 ⟨inert_of_isInert hopener, throughout_fixed (by decide)⟩

theorem wraps_wrapForm (mode : FormMode) (f : Form) {body : List Line} {remarks : List String}
    (h : Wraps body remarks) :
    Wraps (wrapForm mode f body) ((if mode = .include then [f.file] else []) ++ remarks) := by
  cases mode with
  | standalone =>
    have hstart : Throughout Inert (flush [s!"DOCFORMAT {f.formatName};"]) := by
      simp (disch := decide) [String.append_assoc, inert_append]
    have hend : Throughout Inert (flush ["", s!"/* END OF FRM DOCFORMAT {f.formatName} */"]) :=
      List.forall_mem_cons.2 ⟨inert_empty, List.forall_mem_singleton.2 (inert_formEnd f)⟩
    have hfixed : Throughout Inert (flush [formMargins, "SETUNITS LINESP AUTO;", ""]) :=
      throughout_fixed (by decide)
    have houtline : Wraps (pageOutline "OUTLINE" body) remarks := wraps_pageOutline h (by decide)
    exact ((houtline.behind hfixed).indented.behind hstart).before hend
  | «include» =>
    have hfile : Wraps (flush [s!"/* External Format: {f.file} */"]) [f.file] :=
      wraps_labelled "External Format: " rfl (by decide) f.file
    exact (hfile.before (b := flush [""]) (by simp)).append (wraps_pageOutline h (by decide))

/-- The texts that the program of a document puts into comments. -/
def documentRemarks (e : Env) (date : String) : List String :=
  [e.project.document.file, date] ++ metadataRemarks e.project.document.metadata
    ++ (formatCases e.project.document).flatMap (caseRemarks e)
    ++ (documentRoutines e).flatMap (routineRemarks e caseOrigin.1 caseOrigin.2)

def formRemarks (e : Env) (f : Form) : List String :=
  [f.file] ++ metadataRemarks f.metadata ++ remarksNested e e.nesting f.commands
    (formStart e (.initial e))
    ++ (formRoutines e f).flatMap (routineRemarks e 0 0)

theorem wraps_documentProgram (e : Env) (date : String) :
    Wraps (documentProgram e date (.initial e)).lines (documentRemarks e date) := by
  have hhead : Wraps (documentHead e date)
      ([e.project.document.file, date] ++ metadataRemarks e.project.document.metadata) :=
    (((((wraps_header e.project.document date).before (inert_dataFormats _)).before
      (inert_formatGroup _)).before
      (inert_fontSection _)).before (inert_colorSection _)).before (inert_mainFormat e)
  have hfoot : Throughout Inert (documentFoot e) := by
    simp only [documentFoot, throughout_append]
    exact ⟨⟨inert_stubs _ _, inert_beforeFirstDocument e⟩, inert_beforeDocument⟩
  rw [lines_documentProgram]
  exact ((hhead.append (wraps_caseFrame e _)).append (wraps_routineFrame e _ _ _)).before hfoot

theorem wraps_formProgram (e : Env) (f : Form) :
    Wraps (formProgram e f (.initial e)).lines (formRemarks e f) := by
  have hfile : Wraps (flush [s!"/* FRM DFA File: {f.file} */"]) [f.file] :=
    wraps_labelled "FRM DFA File: " rfl (by decide) f.file
  have hblank : Throughout Inert [.blank] := by simp [Line.blank]
  have hbody := wraps_wrapForm e.settings.layout.formMode f
    (wraps_emitNested e e.nesting f.commands (formStart e (.initial e)))
  have hexpanding : (formBody e f (.initial e)).state.expanding = [] :=
    expanding_emitNested e e.nesting f.commands (formStart e (.initial e))
  have hroutines := wraps_routineFrame e 0 0 (formRoutines e f)
  rw [formRoutines, ← lines_routineFormats e 0 0 hexpanding] at hroutines
  refine (((((((hfile.before inert_banner).append (wraps_metadataLines f.metadata)).before
    hblank).append hbody).before
    hblank).append hroutines)).congr fun text => ?_
  simp only [formRemarks, List.mem_append]
  split
  · -- the name of an included form stands over it twice
    tauto
  · simp [formRoutines]

theorem inert_sanitize_iff (d : Detector) (text : String) :
    Inert (d.sanitize text) ↔ Inert text ∧ (d.flags text = true → ¬ Closes text.toList) := by
  unfold Detector.sanitize
  split
  · next hflags =>
    have hcode : ¬ Opens text := by
      intro hopens
      rw [d.flags_comment hopens] at hflags
      cases hflags
    rw [inert_comment_iff, and_iff_right (inert_of_not_opens hcode), forall_prop_of_true hflags]
  · next hflags => simp [hflags]

/-- Every comment among the written lines reaches to the end of its line. -/
def CommentsInert (d : Detector) (lines : List Line) : Prop :=
  ∀ x ∈ lines, ∀ text, x.write d = Line.indentation x.depth ++ text → Inert text

/-- None of the texts that are put into comments ends one, neither those of the source nor the
flagged lines. -/
def NoneCloses (d : Detector) (lines : List Line) (remarks : List String) : Prop :=
  (∀ text ∈ remarks, ¬ Closes text.toList) ∧ ∀ x ∈ lines, d.flags x.text = true →
    ¬ Closes x.text.toList

theorem Line.inert_write_iff (d : Detector) (x : Line) :
    (∀ text, x.write d = Line.indentation x.depth ++ text → Inert text) ↔
      Inert (d.sanitize x.text) := by
  unfold Line.write
  split
  · next hblank =>
    have hsanitize : d.sanitize "" = "" := rfl
    rw [hblank, hsanitize, iff_true_right inert_empty]
    intro text htext
    rw [(String.append_eq_empty_iff.1 htext.symm).2]
    exact inert_empty
  · constructor
    · intro h
      exact h _ rfl
    · intro h text htext
      rw [String.append_right_inj] at htext
      exact htext ▸ h

theorem Wraps.commentsInert_iff {lines : List Line} {remarks : List String}
    (h : Wraps lines remarks) (d : Detector) :
    CommentsInert d lines ↔ NoneCloses d lines remarks := by
  have hlines : Throughout Inert lines ↔ ∀ x ∈ lines, Inert x.text := List.forall_mem_map
  unfold CommentsInert NoneCloses
  unfold Wraps at h
  rw [← h, hlines, ← forall₂_and]
  exact forall₂_congr fun x _ => (x.inert_write_iff d).trans (inert_sanitize_iff d x.text)

/-- All comments of a program reach to the end of their lines if and only if none of the texts in
them ends one. -/
theorem comments_inert_iff (settings : Settings) (p : Project) :
    let d : Detector := .ofSettings settings.malformed
    (∀ date : String,
      let e : Env := { settings, project := p }
      let lines : List Line := (documentProgram e date (.initial e)).lines
      (Program.ofDocument settings date p).text = writeLines d lines ∧
        (CommentsInert d lines ↔ NoneCloses d lines (documentRemarks e date))) ∧
    ∀ f : Form,
      let e : Env := { settings, project := p, renames := f.renames }
      let lines : List Line := (formProgram e f (.initial e)).lines
      (Program.ofForm settings p f).text = writeLines d lines ∧
        (CommentsInert d lines ↔ NoneCloses d lines (formRemarks e f)) :=
  ⟨fun date => ⟨rfl, (wraps_documentProgram _ date).commentsInert_iff _⟩,
    fun f => ⟨rfl, (wraps_formProgram _ f).commentsInert_iff _⟩⟩

/-- A title that ends the comment around it: the rest of the line is code. -/
theorem title_ends_comment :
    let settings : Settings := {}
    let p : Project := { document := { metadata := { title := some "Q1 */ DOCDEF X;" } } }
    let e : Env := { settings, project := p }
    let lines : List Line := (documentProgram e "2024-01-01" (.initial e)).lines
    ⟨0, "/* Original Title: Q1 */ DOCDEF X; */"⟩ ∈ lines ∧
      ¬ CommentsInert (.ofSettings settings.malformed) lines := by
  intro settings p e lines
  have hcloses : Closes "Q1 */ DOCDEF X;".toList := ⟨"Q1 ".toList, " DOCDEF X;".toList, by decide⟩
  have hmem : "Q1 */ DOCDEF X;" ∈ documentRemarks e "2024-01-01" := by
    simp [documentRemarks, metadataRemarks, e, p]
  have hheader :
      ⟨0, "/* Original Title: Q1 */ DOCDEF X; */"⟩ ∈ header e.project.document "2024-01-01" := by
    decide
  have hline : ⟨0, "/* Original Title: Q1 */ DOCDEF X; */"⟩ ∈ lines := by
    simp only [lines, documentProgram, List.append_assoc]
    exact List.mem_append_left _ hheader
  refine ⟨hline, fun hinert => ?_⟩
  exact (((wraps_documentProgram e "2024-01-01").commentsInert_iff _).1 hinert).1 _ hmem hcloses

end VippDocdef.Docdef
