import Mathlib.Data.List.Nodup
import Mathlib.Tactic.Tauto
import VippDocdef.Proofs.Sections

/-! Dispatch on record types. A program sends each record to the format that its type names, so the
type of a case needs a format: the case's own if its commands need one, or a stub if the source
compares with the type. A case with neither has none. -/

set_option autoImplicit false

namespace VippDocdef

def Spells (letters : List Char) (word : String) : Prop := letters.map Char.toLower = word.toList

structure Blanks (cs : List Char) : Prop where
  nonempty : cs ≠ []
  blank : ∀ c ∈ cs, Text.isBlank c = true

/-- A text starts with `PREFIX`, a comparison and a name in parentheses that is `key` in
capitals. -/
inductive ComparesAt (key : String) : List Char → Prop where
  | intro {word gap comparison gap' name : List Char} (after : List Char)
      (isPrefix : Spells word "prefix") (isGap : Blanks gap)
      (compares : ∃ text ∈ comparisons, Spells comparison text) (isGap' : Blanks gap')
      (nonempty : name ≠ []) (named : ∀ c ∈ name, isPrefixChar c = true)
      (isKey : key = .ofList (name.map Char.toUpper)) :
      ComparesAt key (word ++ (gap ++ (comparison ++ (gap' ++ '(' :: (name ++ ')' :: after)))))

/-- Somewhere in the text `PREFIX` is compared with `key`. -/
def Compares (raw key : String) : Prop := ∃ rest, rest <:+ raw.toList ∧ ComparesAt key rest

theorem afterWord?_eq_some {word : String} {cs rest : List Char} :
    afterWord? word cs = some rest ↔ ∃ letters, Spells letters word ∧ cs = letters ++ rest := by
  unfold afterWord?
  constructor
  · intro h
    split at h
    · next hword =>
      cases h
      exact ⟨_, hword, (List.take_append_drop _ _).symm⟩
    · cases h
  · rintro ⟨letters, hletters, rfl⟩
    have hlength : word.length = letters.length := by
      rw [← String.length_toList, ← hletters, List.length_map]
    rw [hlength, List.take_left, List.drop_left]
    exact if_pos hletters

theorem afterBlanks?_eq_some {cs rest : List Char} :
    afterBlanks? cs = some rest
      ↔ ∃ gap, Blanks gap ∧ cs = gap ++ rest ∧ ∀ c ∈ rest.head?, Text.isBlank c = false := by
  unfold afterBlanks?
  constructor
  · intro h
    split at h
    · next c cs =>
      split at h
      · next hc =>
        cases h
        have hgap : ∀ x ∈ c :: cs.takeWhile Text.isBlank, Text.isBlank x = true :=
          List.forall_mem_cons.2 ⟨hc, List.all_eq_true.1 List.all_takeWhile⟩
        refine ⟨c :: cs.takeWhile Text.isBlank, ⟨by simp, hgap⟩, by simp, fun x hx => ?_⟩
        have hhead := List.head?_dropWhile_not Text.isBlank cs
        rw [Option.mem_def.1 hx] at hhead
        exact hhead
      · cases h
    · cases h
  · rintro ⟨gap, hgap, rfl, hrest⟩
    obtain ⟨c, gap, rfl⟩ := List.exists_cons_of_ne_nil hgap.nonempty
    obtain ⟨hc, hblank⟩ := List.forall_mem_cons.1 hgap.blank
    have hdrop : rest.dropWhile Text.isBlank = rest := by
      cases rest with
      | nil => rfl
      | cons x rest => exact List.dropWhile_cons_of_neg (by simpa using hrest)
    simp [hc, List.dropWhile_append_of_pos hblank, hdrop]

theorem isBlank_toLower {c : Char} (h : Text.isBlank c = true) : Text.isBlank c.toLower = true := by
  unfold Char.toLower
  split
  · next hc =>
    -- no capital letter is blank
    have hlow := UInt32.le_iff_toNat_le.1 hc.1
    have hhigh := UInt32.le_iff_toNat_le.1 hc.2
    simp [Text.isBlank, Text.blankRanges] at h hlow hhigh
    omega
  · exact h

theorem findSome?_comparison {cs rest : List Char} :
    ["eq", "ne", "gt", "lt", "ge", "le"].findSome? (afterWord? · cs) = some rest
      ↔ ∃ comparison, (∃ text ∈ comparisons, Spells comparison text) ∧ cs = comparison ++ rest := by
  have hlength : ∀ text ∈ ["eq", "ne", "gt", "lt", "ge", "le"], text.length = 2 := by decide
  have hdrop {text : String} {rest : List Char} (hmem : text ∈ ["eq", "ne", "gt", "lt", "ge", "le"])
      (h : afterWord? text cs = some rest) : rest = cs.drop 2 := by
    unfold afterWord? at h
    split at h
    · rw [← hlength text hmem, Option.some.inj h]
    · cases h
  have hmem (text : String) : text ∈ comparisons ↔ text ∈ ["eq", "ne", "gt", "lt", "ge", "le"] := by
    simp only [comparisons, List.mem_cons, List.not_mem_nil, or_false]
    tauto
  constructor
  · intro h
    obtain ⟨text, htext, hafter⟩ := List.exists_of_findSome?_eq_some h
    obtain ⟨comparison, hspells, hcs⟩ := afterWord?_eq_some.1 hafter
    exact ⟨comparison, ⟨text, (hmem text).2 htext, hspells⟩, hcs⟩
  · -- the first word that fits need not be this one, but all are as long
    rintro ⟨comparison, ⟨text, htext, hspells⟩, hcs⟩
    have hafter := afterWord?_eq_some.2 ⟨comparison, hspells, hcs⟩
    have hsome : (["eq", "ne", "gt", "lt", "ge", "le"].findSome? (afterWord? · cs)).isSome = true :=
      List.findSome?_isSome_iff.2 ⟨text, (hmem text).1 htext, by simp [hafter]⟩
    obtain ⟨other, hother⟩ := Option.isSome_iff_exists.1 hsome
    obtain ⟨text', htext', hafter'⟩ := List.exists_of_findSome?_eq_some hother
    rw [hother, hdrop htext' hafter', hdrop ((hmem text).1 htext) hafter]

theorem head_of_compares {comparison : List Char} (h : ∃ text ∈ comparisons, Spells comparison text)
    (rest : List Char) : ∀ c ∈ (comparison ++ rest).head?, Text.isBlank c = false := by
  obtain ⟨text, htext, hspells⟩ := h
  have hletters : ∀ text ∈ comparisons,
      text.toList ≠ [] ∧ text.toList.all (fun c => !Text.isBlank c) = true := by decide
  obtain ⟨hne, hall⟩ := hletters text htext
  rw [← hspells] at hne hall
  cases comparison with
  | nil => exact absurd rfl hne
  | cons c cs =>
    have hlower : Text.isBlank c.toLower = false := by
      simpa using List.all_eq_true.1 hall c.toLower (by simp)
    have hc : Text.isBlank c = false := by
      by_contra hblank
      rw [isBlank_toLower (by simpa using hblank)] at hlower
      cases hlower
    simpa using hc

theorem prefixReferenceAt?_eq_some {cs : List Char} {key : String} :
    prefixReferenceAt? cs = some key ↔ ComparesAt key cs := by
  simp only [prefixReferenceAt?, Option.bind_eq_bind, Option.bind_eq_some_iff]
  constructor
  · rintro ⟨_, hword, _, hgap, _, hcomparison, _, hgap', rest, hopen, hkey⟩
    obtain ⟨word, isPrefix, rfl⟩ := afterWord?_eq_some.1 hword
    obtain ⟨gap, isGap, rfl, -⟩ := afterBlanks?_eq_some.1 hgap
    obtain ⟨comparison, compares, rfl⟩ := findSome?_comparison.1 hcomparison
    obtain ⟨gap', isGap', rfl, -⟩ := afterBlanks?_eq_some.1 hgap'
    obtain rfl := Text.append_of_after? hopen
    split at hkey
    · next hname =>
      simp only [Bool.and_eq_true, Bool.not_eq_true', List.isEmpty_eq_false_iff,
        decide_eq_true_eq] at hname
      obtain ⟨after, hafter⟩ := List.head?_eq_some_iff.1 hname.2
      have hrest : rest = rest.takeWhile isPrefixChar ++ ')' :: after := by
        rw [← hafter, List.takeWhile_append_dropWhile]
      rw [hrest]
      exact .intro after isPrefix isGap compares isGap' hname.1
        (List.all_eq_true.1 List.all_takeWhile)
        (Option.some.inj hkey).symm
    · cases hkey
  · rintro ⟨after, isPrefix, isGap, compares, isGap', nonempty, named, rfl⟩
    have hopen : Text.isBlank '(' = false := by decide
    have hclose : isPrefixChar ')' = false := by decide
    refine ⟨_, afterWord?_eq_some.2 ⟨_, isPrefix, rfl⟩, _,
      afterBlanks?_eq_some.2 ⟨_, isGap, rfl, head_of_compares compares _⟩, _,
      findSome?_comparison.2 ⟨_, compares, rfl⟩, _,
      afterBlanks?_eq_some.2 ⟨_, isGap', rfl, by simpa using hopen⟩, _, rfl, ?_⟩
    simp [List.takeWhile_append_of_pos named, List.dropWhile_append_of_pos named, hclose, nonempty]

theorem mem_referencedPrefixes {raw key : String} :
    key ∈ referencedPrefixes raw ↔ Compares raw key := by
  unfold referencedPrefixes Compares
  rw [Table.mem_keys_ofList, List.map_map]
  simp [mem_everywhere, prefixReferenceAt?_eq_some]

namespace Docdef

theorem key_mem_formatCases {document : Document} (h : Keyed document.cases) {c : Case}
    (hc : c ∈ document.cases) (hdefault : c.isDefault = false) :
    c.key ∈ (formatCases document).map Case.key ↔ needsFormat c.commands = true := by
  constructor
  · intro hkey
    obtain ⟨x, hx, hkey⟩ := List.mem_map.1 hkey
    obtain ⟨hmem, hneeds⟩ := List.mem_filter.1 hx
    obtain rfl : x = c := List.inj_on_of_nodup_map h.nodup hmem hc hkey
    simpa [hdefault] using hneeds
  · intro hneeds
    exact List.mem_map_of_mem (List.mem_filter.2 ⟨hc, by simp [hdefault, hneeds]⟩)

def dispatchLine : String := "USE FORMAT REFERENCE('DF_'!PREFIX);"

theorem dispatchLine_mem_documentProgram (e : Env) (date : String) (s : State) :
    dispatchLine ∈ texts (documentProgram e date s).lines := by
  have hmain : dispatchLine ∈ texts (mainFormat e) := by
    simp [mainFormat, dispatchLines, dispatchLine]
  simp only [documentProgram, texts_append, List.mem_append]
  simp [hmain]

/-- The record types that have a format are those of the cases that need one and those compared
with. -/
theorem mem_sectionKeys_documentProgram {d : Detector} {e : Env} (date : String) (s : State)
    (hkeyed : Keyed e.project.document.cases)
    (hd : ∀ key, caseLine key ∈ texts (documentProgram e date s).lines →
      d.flags (caseLine key) = false)
    (key : String) :
    key ∈ sectionKeys d (documentProgram e date s).lines
      ↔ key ∈ (formatCases e.project.document).map Case.key ∨
      Compares e.project.document.raw key := by
  have hsolid : ∀ c ∈ formatCases e.project.document, ' ' ∉ c.key.toList :=
    fun c hc => hkeyed.solid c (List.mem_of_mem_filter hc)
  have hcases : Spares d ((formatCases e.project.document).map Case.key) := by
    intro key hkey
    apply hd
    simp only [documentProgram, texts_append, List.mem_append]
    simp [caseLine_mem_caseFormats s hkey]
  have hstubs : Spares d (missingKeys e.project.document) := by
    intro key hkey
    apply hd
    simp only [documentProgram, texts_append, List.mem_append]
    simp [caseLine_mem_stubs hkey]
  rw [sectionKeys_documentProgram, sectionKeys_caseFormats s hsolid hcases,
    sectionKeys_stubs hstubs, List.mem_append, mem_missingKeys, mem_referencedPrefixes]
  tauto

theorem raw_build (file source : String) : (Document.build file source).raw = source := by
  rw [Document.build]

/-- The program of a document sends every record to the format of its type. A record type with a
case has one if the case needs one, or if the source compares with the type. -/
theorem dispatch_resolves_iff (settings : Settings) (forms : List Form) (file source date : String)
    (d : Detector) :
    let document := Document.build file source
    let e : Env := { settings, project := { document, forms } }
    let program := (documentProgram e date (.initial e)).lines
    (∀ key, caseLine key ∈ texts program → d.flags (caseLine key) = false) →
      dispatchLine ∈ texts program ∧
        ∀ c ∈ document.cases, c.isDefault = false →
          (c.key ∈ sectionKeys d program ↔
            needsFormat c.commands = true ∨ Compares source c.key) := by
  intro document e program hd
  have hkeyed : Keyed document.cases := keyed_build file source
  refine ⟨dispatchLine_mem_documentProgram e date _, fun c hc hdefault => ?_⟩
  have hkeys := mem_sectionKeys_documentProgram date (.initial e) hkeyed hd c.key
  rw [key_mem_formatCases hkeyed hc hdefault, raw_build] at hkeys
  exact hkeys

/-- A case that needs a format, one that a comment compares with, and one that only assigns. -/
theorem dispatch_resolves_iff_mixed :
    let source :=
      "CASE PREFIX (A) \x7bNL\x7d (B) \x7b/V 1 SETVAR\x7d (C) \x7b/V 1 SETVAR\x7d % prefix NE (b)"
    let document := Document.build "a.dbm" source
    let e : Env := { project := { document } }
    let program := (documentProgram e "2024-01-01" (.initial e)).lines
    (∀ key, caseLine key ∈ texts program → Detector.idle.flags (caseLine key) = false) ∧
      document.cases.map Case.key = ["A", "B", "C"] ∧ dispatchLine ∈ texts program ∧
      "A" ∈ sectionKeys .idle program ∧ "B" ∈ sectionKeys .idle program ∧
      "C" ∉ sectionKeys .idle program := by
  intro source document e program
  have hd : ∀ key, caseLine key ∈ texts program → Detector.idle.flags (caseLine key) = false :=
    fun key _ => Detector.flags_idle _
  obtain ⟨hline, hresolves⟩ := dispatch_resolves_iff {} [] "a.dbm" source "2024-01-01" .idle hd
  have hcases : document.cases.map (fun c => (c.key, c.isDefault, needsFormat c.commands))
      = [("A", false, true), ("B", false, false), ("C", false, false)] := by decide +kernel
  have hcase (key : String) (needs : Bool)
      (h : (key, false, needs) ∈ [("A", false, true), ("B", false, false), ("C", false, false)]) :
      key ∈ sectionKeys .idle program ↔ needs = true ∨ key ∈ referencedPrefixes source := by
    rw [← hcases] at h
    obtain ⟨c, hc, hfields⟩ := List.mem_map.1 h
    obtain ⟨rfl, hdefault, rfl⟩ :
        c.key = key ∧ c.isDefault = false ∧ needsFormat c.commands = needs := by simpa using hfields
    rw [mem_referencedPrefixes]
    exact hresolves c hc hdefault
  have hreferenced : referencedPrefixes source = ["B"] := by decide +kernel
  rw [hreferenced] at hcase
  have hkeys : document.cases.map Case.key = ["A", "B", "C"] := by
    simpa [Function.comp_def] using congrArg (List.map Prod.fst) hcases
  refine ⟨hd, hkeys, hline, (hcase "A" true (by decide)).2 (.inl rfl),
    (hcase "B" false (by decide)).2 (.inr (by decide)), ?_⟩
  rw [hcase "C" false (by decide)]
  decide

/-- A case that only assigns has no format where the source does not compare with its type. -/
theorem assigning_case_unresolved :
    let source := "CASE PREFIX\n(A) \x7b /VAR_A 1 SETVAR \x7d\nENDCASE"
    let document := Document.build "a.dbm" source
    let e : Env := { project := { document } }
    let program := (documentProgram e "2024-01-01" (.initial e)).lines
    (∀ line, Detector.idle.flags line = false) ∧ dispatchLine ∈ texts program ∧
      (∃ c ∈ document.cases, c.key = "A" ∧ c.isDefault = false) ∧
      "A" ∉ sectionKeys .idle program := by
  intro source document e program
  have hkeyed : Keyed document.cases := keyed_build _ _
  have hcases : document.cases.map (fun c => (c.key, c.isDefault, needsFormat c.commands))
      = [("A", false, false)] := by decide +kernel
  have hreferenced : referencedPrefixes source = [] := by decide +kernel
  obtain ⟨c, hc, hfields⟩ := List.mem_map.1 (hcases ▸ List.mem_singleton_self ("A", false, false))
  obtain ⟨hkey, hdefault, hneeds⟩ :
      c.key = "A" ∧ c.isDefault = false ∧ needsFormat c.commands = false := by simpa using hfields
  refine ⟨Detector.flags_idle, dispatchLine_mem_documentProgram e _ _, ⟨c, hc, hkey, hdefault⟩, ?_⟩
  have hd : ∀ key, caseLine key ∈ texts program → Detector.idle.flags (caseLine key) = false :=
    fun key _ => Detector.flags_idle _
  rw [mem_sectionKeys_documentProgram (e := e) _ _ hkeyed hd, ← hkey,
    key_mem_formatCases hkeyed hc hdefault, hneeds, raw_build, ← mem_referencedPrefixes,
    hreferenced]
  simp

end Docdef

end VippDocdef
