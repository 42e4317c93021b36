import VippDocdef.Proofs.Calls
import VippDocdef.Proofs.CaseRegions

/-! Formats of record types in the program of a document. Each record type that a case or a
comparison of the source names has one format, and no line but the first of a format looks like
one. -/

set_option autoImplicit false

namespace VippDocdef

/-- The keys of the cases are all different, and no blank is in them. -/
structure Keyed (cases : List Case) : Prop where
  nodup : (cases.map Case.key).Nodup
  solid : ∀ c ∈ cases, ' ' ∉ c.key.toList

namespace Keyed

theorem nil : Keyed [] := ⟨.nil, List.forall_mem_nil _⟩

theorem putCase {cases : List Case} (h : Keyed cases) {c : Case} (hc : ' ' ∉ c.key.toList) :
    Keyed (putCase c cases) := by
  refine ⟨nodup_map_key_putCase h.nodup c, fun x hx => ?_⟩
  rcases (mem_putCase_iff h.nodup).1 hx with rfl | ⟨hx, -⟩
  · exact hc
  · exact h.solid x hx

theorem append {cases : List Case} (h : Keyed cases) {c : Case} (hc : ' ' ∉ c.key.toList)
    (hfresh : c.key ∉ cases.map Case.key) : Keyed (cases ++ [c]) := by
  refine ⟨?_, List.forall_mem_append.2 ⟨h.solid, by simpa using hc⟩⟩
  rw [List.map_append, List.nodup_append]
  refine ⟨h.nodup, by simp, fun key hkey other hother heq => ?_⟩
  rw [List.map_singleton, List.mem_singleton] at hother
  exact hfresh (hother ▸ heq ▸ hkey)

end Keyed

theorem solid_of_parenthesizedKey? {cs : List Char} {key : String}
    (h : parenthesizedKey? cs = some key) :
    ' ' ∉ key.toList := by
  unfold parenthesizedKey? at h
  split at h
  · dsimp only at h
    split at h
    · rw [← Option.some.inj h, String.toList_ofList]
      intro hmem
      exact absurd (List.all_eq_true.1 List.all_takeWhile _ hmem) (by decide)
    · cases h
  · cases h

theorem solid_of_dispatchKey? {condition : List String} {key : String}
    (h : dispatchKey? condition = some key) : ' ' ∉ key.toList := by
  simp only [dispatchKey?, Option.bind_eq_bind, Option.bind_eq_some_iff] at h
  obtain ⟨_, -, _, -, _, -, rest, -, hkey⟩ := h
  exact solid_of_parenthesizedKey? hkey

theorem Keyed.addDispatchCase {cases : List Case} (h : Keyed cases) (c : Command) :
    Keyed (addDispatchCase cases c) := by
  unfold VippDocdef.addDispatchCase
  split
  · split
    · next key hkey =>
      split
      · exact h
      · next hany =>
        refine h.append (solid_of_dispatchKey? hkey) fun hmem => hany ?_
        simpa using hmem
    · exact h
  · exact h

theorem solid_of_caseLabel? {t : Token} {key : String} (h : t.caseLabel? = some key) :
    ' ' ∉ key.toList := by
  unfold Token.caseLabel? at h
  split at h
  · have hfilter := (Option.filter_eq_some_iff.1 h).2
    simp at hfilter
    exact hfilter.1
  · cases h

theorem RegionStep.solid_of_label {t : Token} {key : String}
    (h : RegionStep.ofToken t = .label key) :
    ' ' ∉ key.toList :=
  solid_of_caseLabel? (RegionStep.ofToken_eq_label_iff.1 h)

theorem solid_labeled (inside : Bool) (ts : List Token) :
    ∀ entry ∈ (Regions.read inside ts).labeled, ' ' ∉ entry.1.toList := by
  fun_induction Regions.read inside ts with
  | case1 => exact List.forall_mem_nil _
  | case2 _ _ _ _ _ ih => exact ih
  | case3 _ _ _ _ _ _ ih => exact ih
  | case4 _ _ _ _ _ ih => exact ih
  | case5 _ _ _ _ _ ih => exact ih
  | case6 _ _ _ _ _ hlabel _ _ _ _ _ _ ih =>
    exact List.forall_mem_cons.2 ⟨RegionStep.solid_of_label hlabel, ih⟩
  | case7 _ _ _ _ _ hlabel =>
    exact List.forall_mem_cons.2 ⟨RegionStep.solid_of_label hlabel, List.forall_mem_nil _⟩
  | case8 _ _ _ _ _ _ _ ih =>
    have hdefault : ' ' ∉ defaultKey.toList := by decide
    exact List.forall_mem_cons.2 ⟨hdefault, ih⟩
  | case9 _ _ _ _ _ _ _ _ _ ih => exact ih

theorem keyed_build (file source : String) : Keyed (Document.build file source).cases := by
  have hlabeled (entries : List (String × List Token)) (cases : List Case) (h : Keyed cases)
      (hsolid : ∀ entry ∈ entries, ' ' ∉ entry.1.toList) :
      Keyed (entries.foldl (fun cs entry => putCase ⟨entry.1, commandsOf entry.2⟩ cs) cases) := by
    induction entries generalizing cases with
    | nil => exact h
    | cons entry rest ih =>
      obtain ⟨hentry, hrest⟩ := List.forall_mem_cons.1 hsolid
      exact ih _ (h.putCase hentry) hrest
  have hdispatch (prologue : List Command) (cases : List Case) (h : Keyed cases) :
      Keyed (prologue.foldl addDispatchCase cases) := by
    induction prologue generalizing cases with
    | nil => exact h
    | cons c rest ih => exact ih _ (h.addDispatchCase c)
  exact hdispatch _ _ (hlabeled _ [] .nil (solid_labeled false _))

theorem eq_of_toUpper_eq {c d : Char} (hd : d.toNat < 65 ∨ 90 < d.toNat) (h : c.toUpper = d) :
    c = d := by
  subst h
  unfold Char.toUpper at hd ⊢
  split at hd
  · next hc =>
    have hlow := UInt32.le_iff_toNat_le.1 hc.1
    have hhigh := UInt32.le_iff_toNat_le.1 hc.2
    simp at hd hlow hhigh
    omega
  · next hc => rw [dif_neg hc]

theorem not_mem_of_prefixReferenceAt? {cs : List Char} {key : String}
    (h : prefixReferenceAt? cs = some key)
    {d : Char} (hupper : d.toNat < 65 ∨ 90 < d.toNat) (hd : isPrefixChar d = false) :
    d ∉ key.toList := by
  simp only [prefixReferenceAt?, Option.bind_eq_bind, Option.bind_eq_some_iff] at h
  obtain ⟨_, -, _, -, _, -, _, -, rest, -, hkey⟩ := h
  split at hkey
  · rw [← Option.some.inj hkey, String.toList_ofList]
    intro hmem
    obtain ⟨c, hc, hcd⟩ := List.mem_map.1 hmem
    have hprefix : isPrefixChar c = true := List.all_eq_true.1 List.all_takeWhile c hc
    rw [eq_of_toUpper_eq hupper hcd, hd] at hprefix
    cases hprefix
  · cases hkey

theorem mem_everywhere {α : Type} {read : List Char → Option α} {cs : List Char} {x : α} :
    x ∈ everywhere read cs ↔ ∃ rest, rest <:+ cs ∧ read rest = some x := by
  induction cs with
  | nil => simp [everywhere]
  | cons c cs ih => simp [everywhere, ih, List.suffix_cons_iff, or_and_right, exists_or]

theorem not_mem_referencedPrefixes {raw key : String} (hkey : key ∈ referencedPrefixes raw)
    {d : Char}
    (hupper : d.toNat < 65 ∨ 90 < d.toNat) (hd : isPrefixChar d = false) : d ∉ key.toList := by
  obtain ⟨entry, hentry, rfl⟩ := List.mem_map.1 (Table.mem_keys_ofList.1 hkey)
  obtain ⟨key, hmem, rfl⟩ := List.mem_map.1 hentry
  obtain ⟨rest, -, hrest⟩ := mem_everywhere.1 hmem
  exact not_mem_of_prefixReferenceAt? hrest hupper hd

namespace Docdef

def caseLine (key : String) : String := s!"DOCFORMAT {formatOfKey key};"

theorem isFormatLine_case : IsFormatLine caseStart caseLine where
  mem := by decide
  toList key := by
    unfold caseLine formatOfKey
    simp [caseStart, toString]

def sectionKey? (line : String) : Option String :=
  match Text.after? caseStart (line.toList.dropWhile (· == ' ')) with
  | none => none
  | some rest =>
    if rest.getLast? = some ';' ∧ ' ' ∉ rest.dropLast then some (.ofList rest.dropLast) else none

theorem sectionKey?_eq_some {line key : String} :
    sectionKey? line = some key ↔ shows (caseLine key) line = true ∧ ' ' ∉ key.toList := by
  unfold sectionKey? shows
  rw [beq_iff_eq, isFormatLine_case.toList]
  constructor
  · intro h
    split at h
    · cases h
    · next rest hrest =>
      split at h
      · next hlast =>
        obtain ⟨init, rfl⟩ := List.getLast?_eq_some_iff.1 hlast.1
        have hkey : key.toList = init := by
          rw [← Option.some.inj h, String.toList_ofList, List.dropLast_concat]
        rw [Text.append_of_after? hrest, hkey]
        exact ⟨rfl, by simpa using hlast.2⟩
      · cases h
  · rintro ⟨hline, hkey⟩
    simp [hline, Text.after?_append, hkey]

def sectionKeys (d : Detector) (lines : List Line) : List String :=
  (Listing.add d {} lines).written.filterMap sectionKey?

theorem sectionKeys_eq (d : Detector) (lines : List Line) :
    sectionKeys d lines = lines.filterMap fun x => sectionKey? (x.write d) := by
  simp [sectionKeys, Listing.add, List.filterMap_map]

@[simp] theorem sectionKeys_append (d : Detector) (a b : List Line) :
    sectionKeys d (a ++ b) = sectionKeys d a ++ sectionKeys d b := by
  simp [sectionKeys_eq]

theorem not_equals_of_solid {key : String} (h : ' ' ∉ key.toList) : ¬ equals <:+: key.toList :=
  fun hequals => h (hequals.subset (by decide))

theorem sectionKey?_of_apart (d : Detector) {x : Line} (h : Apart caseStart x.text) :
    sectionKey? (x.write d) = none := by
  refine Option.eq_none_iff_forall_not_mem.2 fun key hmem => ?_
  obtain ⟨hshows, hkey⟩ := sectionKey?_eq_some.1 hmem
  rw [isFormatLine_case.not_shows_write h (not_equals_of_solid hkey)] at hshows
  cases hshows

theorem sectionKeys_of_apart (d : Detector) {lines : List Line}
    (h : Throughout (Apart caseStart) lines) :
    sectionKeys d lines = [] := by
  rw [sectionKeys_eq, List.filterMap_eq_nil_iff]
  exact fun x hx => sectionKey?_of_apart d (h x.text (List.mem_map_of_mem hx))

theorem sectionKeys_cons {d : Detector} {key : String} (hkey : ' ' ∉ key.toList)
    (hd : d.flags (caseLine key) = false) {rest : List Line}
    (hrest : Throughout (Apart caseStart) rest) :
    sectionKeys d (⟨0, caseLine key⟩ :: rest) = [key] := by
  have hself : shows (caseLine key) (caseLine key) = true :=
    (isFormatLine_case.shows_iff key key).2 rfl
  have hsome : sectionKey? (Line.write d ⟨0, caseLine key⟩) = some key := by
    rw [write_of_not_flagged hd (isFormatLine_case.ne_empty key) 0, sectionKey?_eq_some,
      shows_lineAt]
    exact ⟨hself, hkey⟩
  have hnone := sectionKeys_of_apart d hrest
  rw [sectionKeys_eq] at hnone ⊢
  simp only [List.filterMap_cons, hsome, hnone]

theorem sectionKeys_flatMap {α : Type} {d : Detector} {linesOf : α → List Line} {keyOf : α → String}
    {parts : List α} (h : ∀ x ∈ parts, sectionKeys d (linesOf x) = [keyOf x]) :
    sectionKeys d (parts.flatMap linesOf) = parts.map keyOf := by
  induction parts with
  | nil => rfl
  | cons x rest ih =>
    obtain ⟨hx, hrest⟩ := List.forall_mem_cons.1 h
    rw [List.flatMap_cons, sectionKeys_append, hx, ih hrest]
    rfl

theorem Nameless.apart_case {text : String} (h : Nameless text) : Apart caseStart text :=
  h caseStart (by decide)

theorem sectionKeys_of_nameless (d : Detector) {lines : List Line} (h : Throughout Nameless lines) :
    sectionKeys d lines = [] :=
  sectionKeys_of_apart d fun t ht => (h t ht).apart_case

theorem Block.Sound.apart_case {b : Block} (h : b.Sound) : Throughout (Apart caseStart) b.lines :=
  fun t ht => (h.callOrApart t ht).2 caseStart (by decide)

/-- The detector lets the lines over the formats of these record types pass. -/
def Spares (d : Detector) (keys : List String) : Prop :=
  ∀ key ∈ keys, d.flags (caseLine key) = false

theorem sectionKeys_bodies {d : Detector} {b : Bodies} (h : b.Sound)
    (hsolid : ∀ key ∈ b.names, ' ' ∉ key.toList) (hd : Spares d b.names) :
    sectionKeys d (b.lines formatOfKey) = b.names := by
  refine sectionKeys_flatMap fun part hpart => ?_
  have hname : part.1 ∈ b.names := List.mem_map_of_mem hpart
  refine sectionKeys_cons (hsolid _ hname) (hd _ hname) ?_
  refine throughout_append.2 ⟨throughout_indented.2 (h part hpart).apart_case, ?_⟩
  simp [Line.blank, nameless_empty.apart_case]

theorem names_caseBodies (e : Env) (cases : List Case) (s : State) :
    (caseBodies e cases s).names = cases.map Case.key := by
  induction cases generalizing s with
  | nil => rfl
  | cons c rest ih => exact congrArg (c.key :: ·) (ih _)

theorem sectionKeys_caseFormats {d : Detector} {e : Env} (s : State)
    (hsolid : ∀ c ∈ formatCases e.project.document, ' ' ∉ c.key.toList)
    (hd : Spares d ((formatCases e.project.document).map Case.key)) :
    sectionKeys d (caseFormats e s).lines = (formatCases e.project.document).map Case.key := by
  have hnames := names_caseBodies e (formatCases e.project.document) s
  have hbodies : sectionKeys d ((caseBodies e (formatCases e.project.document) s).lines formatOfKey)
      = (caseBodies e (formatCases e.project.document) s).names := by
    refine sectionKeys_bodies (sound_caseBodies e _ s) ?_ (hnames ▸ hd)
    rw [hnames]
    simpa using hsolid
  have hstart : sectionKeys d
      (flush ["/* Individual DOCFORMAT sections for each record type */", ""]) = [] :=
    sectionKeys_of_nameless d (by simp (disch := decide) [nameless_of_start])
  have hend : sectionKeys d (flush ["/* END OF INDIVIDUAL DOCFORMATS */", ""]) = [] :=
    sectionKeys_of_nameless d (by simp (disch := decide) [nameless_of_start])
  simp only [caseFormats, sectionKeys_append, hstart, hend, hbodies, hnames, List.nil_append,
    List.append_nil]

theorem apart_case_sectionLine (name : String) : Apart caseStart (sectionLine name) := by
  refine .inl ?_
  rw [isFormatLine_section.toList]
  simp [sectionStart, caseStart]

theorem sectionKeys_routineFormats (d : Detector) (e : Env) (x y : Float) (s : State) :
    sectionKeys d (routineFormats e x y s).lines = [] := by
  have hsound : (allRoutineBodies e x y s).Sound := sound_routineBodies e x y _ s
  have hbodies :
      Throughout (Apart caseStart) ((allRoutineBodies e x y s).lines formatOfRoutine) := by
    intro t ht
    obtain ⟨line, hline, rfl⟩ := List.mem_map.1 ht
    obtain ⟨⟨name, body⟩, hbody, hmem⟩ := List.mem_flatMap.1 hline
    have htext : line.text ∈ texts (formatLines (formatOfRoutine name) body) :=
      List.mem_map_of_mem hmem
    rw [texts_routineLines, List.mem_cons, List.mem_append, List.mem_singleton] at htext
    rcases htext with htext | htext | htext
    · exact htext ▸ apart_case_sectionLine name
    · exact (hsound _ hbody).apart_case _ htext
    · exact htext ▸ nameless_empty.apart_case
  apply sectionKeys_of_apart
  unfold routineFormats
  dsimp only
  split
  · exact throughout_nil
  · refine throughout_append.2 ⟨hbodies, ?_⟩
    simp (disch := decide) [apart_of_start, nameless_empty.apart_case]

theorem mem_keys_registry {document : Document} {key : String} :
    key ∈ (registry document).keys ↔ key ∈ (formatCases document).map Case.key := by
  rw [registry, Table.mem_keys_ofList, List.map_map]
  rfl

def missingKeys (document : Document) : List String :=
  (referencedPrefixes document.raw).filter fun key => !(registry document).keys.contains key

theorem mem_missingKeys {document : Document} {key : String} :
    key ∈ missingKeys document
      ↔ key ∈ referencedPrefixes document.raw ∧ key ∉ (formatCases document).map Case.key := by
  rw [missingKeys, List.mem_filter, ← mem_keys_registry]
  simp

theorem stubs_eq (document : Document) :
    stubs document (registry document).keys =
      if (missingKeys document).isEmpty then []
      else flush ["/* Stub DOCFORMATs for undefined PREFIX cases */", ""]
        ++ (missingKeys document).flatMap stubLines ++ flush ["/* END OF STUB DOCFORMATS */", ""] :=
  rfl

theorem sectionKeys_stubs {d : Detector} {document : Document}
    (hd : Spares d (missingKeys document)) :
    sectionKeys d (stubs document (registry document).keys) = missingKeys document := by
  have hnameless (key : String) : Throughout Nameless (stubLines key).tail := by
    simp (disch := decide) [stubLines, String.append_assoc, nameless_append, nameless_of_start,
      Line.blank]
  have hmissing :
      sectionKeys d ((missingKeys document).flatMap stubLines) = missingKeys document := by
    rw [sectionKeys_flatMap fun key hkey => ?_, List.map_id]
    have hsolid : ' ' ∉ key.toList :=
      not_mem_referencedPrefixes (List.mem_of_mem_filter hkey) (by decide) (by decide)
    exact sectionKeys_cons hsolid (hd key hkey) fun t ht => (hnameless key t ht).apart_case
  have hstart :
      sectionKeys d (flush ["/* Stub DOCFORMATs for undefined PREFIX cases */", ""]) = [] :=
    sectionKeys_of_nameless d (by simp (disch := decide) [nameless_of_start])
  have hend : sectionKeys d (flush ["/* END OF STUB DOCFORMATS */", ""]) = [] :=
    sectionKeys_of_nameless d (by simp (disch := decide) [nameless_of_start])
  rw [stubs_eq]
  split
  · next hempty => rw [List.isEmpty_iff.1 hempty]; rfl
  · rw [sectionKeys_append, sectionKeys_append, hstart, hend, hmissing, List.nil_append,
      List.append_nil]

theorem caseLine_mem_caseFormats {e : Env} (s : State) {key : String}
    (h : key ∈ (formatCases e.project.document).map Case.key) :
    caseLine key ∈ texts (caseFormats e s).lines := by
  rw [← names_caseBodies e _ s] at h
  obtain ⟨⟨key, body⟩, hbody, rfl⟩ := List.mem_map.1 h
  have hbodies : ⟨0, caseLine key⟩
      ∈ (caseBodies e (formatCases e.project.document) s).lines formatOfKey :=
    List.mem_flatMap.2 ⟨_, hbody, List.mem_cons_self⟩
  have hlines : ⟨0, caseLine key⟩ ∈ (caseFormats e s).lines :=
    List.mem_append_left _ (List.mem_append_right _ hbodies)
  exact List.mem_map_of_mem hlines

theorem caseLine_mem_stubs {document : Document} {key : String} (h : key ∈ missingKeys document) :
    caseLine key ∈ texts (stubs document (registry document).keys) := by
  have hne : (missingKeys document).isEmpty = false := by
    cases hkeys : missingKeys document with
    | nil => rw [hkeys] at h; cases h
    | cons => rfl
  have hstub : ⟨0, caseLine key⟩ ∈ (missingKeys document).flatMap stubLines :=
    List.mem_flatMap.2 ⟨key, h, List.mem_cons_self⟩
  have hlines : ⟨0, caseLine key⟩ ∈ stubs document (registry document).keys := by
    rw [stubs_eq, if_neg (Bool.eq_false_iff.1 hne)]
    exact List.mem_append_left _ (List.mem_append_right _ hstub)
  exact List.mem_map_of_mem hlines

/-- The formats of record types in a program: those of the cases, and behind them stubs for the
other record types that the source compares with. No record type has two. -/
structure Sectioned (d : Detector) (document : Document) (program first second : List Line) :
    Prop where
  split : sectionKeys d program = sectionKeys d first ++ sectionKeys d second
  cases : sectionKeys d first = (formatCases document).map Case.key
  stubs : ∀ key, key ∈ sectionKeys d second
    ↔ key ∈ referencedPrefixes document.raw ∧ key ∉ sectionKeys d first
  nodup : (sectionKeys d program).Nodup
  once : ∀ key, key ∈ (formatCases document).map Case.key ∨ key ∈ referencedPrefixes document.raw →
    (sectionKeys d program).count key = 1

theorem sectionKeys_documentProgram (d : Detector) (e : Env) (date : String) (s : State) :
    sectionKeys d (documentProgram e date s).lines = sectionKeys d (caseFormats e s).lines
      ++ sectionKeys d (stubs e.project.document (registry e.project.document).keys) := by
  simp only [documentProgram]
  rw [sectionKeys_append, sectionKeys_append, sectionKeys_append, sectionKeys_append,
    sectionKeys_append, sectionKeys_of_nameless d (nameless_documentHead e date),
    sectionKeys_routineFormats, sectionKeys_of_nameless d (nameless_beforeFirstDocument e),
    sectionKeys_of_nameless d nameless_beforeDocument]
  simp only [List.nil_append, List.append_nil]

/-- In the program of a document, every record type that has a case or that the source compares with
has one format. -/
theorem documentProgram_sectioned (settings : Settings) (forms : List Form)
    (file source date : String) (d : Detector) :
    let document := Document.build file source
    let e : Env := { settings, project := { document, forms } }
    let program := (documentProgram e date (.initial e)).lines
    (∀ key, caseLine key ∈ texts program → d.flags (caseLine key) = false) →
      Sectioned d document program (caseFormats e (.initial e)).lines
        (stubs document (registry document).keys) := by
  intro document e program hd
  have hkeyed : Keyed document.cases := keyed_build file source
  have hsub : (formatCases document).Sublist document.cases := List.filter_sublist
  have hcases :
      sectionKeys d (caseFormats e (.initial e)).lines = (formatCases document).map Case.key := by
    refine sectionKeys_caseFormats _ (fun c hc => hkeyed.solid c (hsub.subset hc)) fun key hkey =>
      hd key ?_
    simp only [program, documentProgram, texts_append, List.mem_append]
    simp [caseLine_mem_caseFormats (State.initial e) hkey]
  have hstubs : sectionKeys d (stubs document (registry document).keys) = missingKeys document := by
    refine sectionKeys_stubs fun key hkey => hd key ?_
    simp only [program, documentProgram, texts_append, List.mem_append]
    simp [e, caseLine_mem_stubs hkey]
  have hsplit := sectionKeys_documentProgram d e date (.initial e)
  have hnodup : (sectionKeys d program).Nodup := by
    rw [hsplit, hcases, hstubs, List.nodup_append]
    refine ⟨(hsub.map Case.key).nodup hkeyed.nodup, (Table.nodup_keys _).filter _, ?_⟩
    intro key hkey other hother heq
    exact (mem_missingKeys.1 hother).2 (heq ▸ hkey)
  refine ⟨hsplit, hcases, fun key => ?_, hnodup, fun key hkey => ?_⟩
  · rw [hstubs, hcases, mem_missingKeys]
  · have hmem : key ∈ sectionKeys d program := by
      rw [hsplit, hcases, hstubs, List.mem_append, mem_missingKeys]
      by_cases hcase : key ∈ (formatCases document).map Case.key
      · exact .inl hcase
      · exact .inr ⟨hkey.resolve_left hcase, hcase⟩
    rw [hnodup.count, if_pos hmem]

/-- A label that stands twice, and a comparison in a comment. -/
theorem documentProgram_sectioned_comment :
    let source := "CASE PREFIX (A) \x7bNL\x7d (A) \x7bNL\x7d % prefix ne (c)"
    let document := Document.build "a.dbm" source
    let e : Env := { project := { document } }
    let program := (documentProgram e "2024-01-01" (.initial e)).lines
    (∀ key, caseLine key ∈ texts program → Detector.idle.flags (caseLine key) = false) ∧
      (sectionKeys .idle program).Nodup ∧
      sectionKeys .idle (caseFormats e (.initial e)).lines = ["A"] ∧
      "C" ∈ sectionKeys .idle (stubs document (registry document).keys) := by
  intro source document e program
  have hd : ∀ key, caseLine key ∈ texts program → Detector.idle.flags (caseLine key) = false :=
    fun key _ => Detector.flags_idle _
  have hsections := documentProgram_sectioned {} [] "a.dbm" source "2024-01-01" .idle hd
  have hkeys : (formatCases document).map Case.key = ["A"] := by decide +kernel
  have hreferenced : "C" ∈ referencedPrefixes document.raw := by decide +kernel
  refine ⟨hd, hsections.nodup, hsections.cases.trans hkeys,
    (hsections.stubs "C").2 ⟨hreferenced, ?_⟩⟩
  rw [hsections.cases, hkeys]
  decide

end Docdef

end VippDocdef
