import Mathlib.Data.List.Dedup
import VippDocdef.Document.Build
import VippDocdef.Docdef.Program
import VippDocdef.Proofs.Renaming

/-! Font declarations. A program declares one font for each alias in capitals, the last definition
of it. Aliases are told apart by the letters as written, so two definitions whose aliases differ in
the case of letters only share one declaration, and exactly those get lost. -/

set_option autoImplicit false

namespace VippDocdef

namespace Table

variable {α : Type}

theorem mem_entries_insert {t : Table α} {key : String} {value : α} {e : String × α} :
    e ∈ (t.insert key value).entries ↔ e = (key, value) ∨ e.1 ≠ key ∧ e ∈ t.entries := by
  obtain ⟨k, v⟩ := e
  simp only [← get?_eq_some, Prod.mk.injEq]
  by_cases hk : k = key
  · simp [hk, eq_comm]
  · simp [hk, get?_insert_ne t hk]

theorem mem_entries_foldl_insert {entries : List (String × α)} {t : Table α} {e : String × α} :
    e ∈ (entries.foldl (fun t (k, v) => t.insert k v) t).entries
      ↔ (∃ before after, entries = before ++ e :: after ∧ ∀ e' ∈ after, e'.1 ≠ e.1)
        ∨ e ∈ t.entries ∧ ∀ e' ∈ entries, e'.1 ≠ e.1 := by
  induction entries generalizing t with
  | nil => simp
  | cons first rest ih =>
    rw [List.foldl_cons, ih, mem_entries_insert]
    constructor
    · rintro (⟨before, after, rfl, hafter⟩ | ⟨rfl | ⟨hne, hmem⟩, hrest⟩)
      · exact .inl ⟨first :: before, after, rfl, hafter⟩
      · exact .inl ⟨[], rest, rfl, hrest⟩
      · exact .inr ⟨hmem, List.forall_mem_cons.2 ⟨hne.symm, hrest⟩⟩
    · rintro (⟨before, after, hsplit, hafter⟩ | ⟨hmem, hall⟩)
      · rcases List.cons_eq_append_iff.1 hsplit with ⟨rfl, heq⟩ | ⟨before, rfl, heq⟩
        · obtain ⟨rfl, rfl⟩ := List.cons_eq_cons.1 heq
          exact .inr ⟨.inl rfl, hafter⟩
        · exact .inl ⟨before, after, heq, hafter⟩
      · obtain ⟨hfirst, hrest⟩ := List.forall_mem_cons.1 hall
        exact .inr ⟨.inr ⟨hfirst.symm, hmem⟩, hrest⟩

theorem mem_entries_ofList {entries : List (String × α)} {e : String × α} :
    e ∈ (ofList entries).entries
      ↔ ∃ before after, entries = before ++ e :: after ∧ ∀ e' ∈ after, e'.1 ≠ e.1 := by
  simp [ofList, mem_entries_foldl_insert]

end Table

namespace Namespace

theorem toUpper_of_isDigit {c : Char} (h : c.isDigit = true) : c.toUpper = c := by
  simp only [Char.isDigit, Bool.and_eq_true, decide_eq_true_eq] at h
  unfold Char.toUpper
  rw [dif_neg]
  rintro ⟨hlower, -⟩
  have hdigit : c.val ≤ 57 := h.2
  have hletter : 97 ≤ c.val := hlower
  grind

theorem toUpper_numbered (name : String) (n : Nat) :
    (numbered name n).toUpper = numbered name.toUpper n := by
  have hupper (s : String) : s.toUpper = s.map Char.toUpper := rfl
  have hdigits : (Nat.toDigits 10 n).map Char.toUpper = Nat.toDigits 10 n := by
    refine (List.map_congr_left fun c hc => ?_).trans (List.map_id _)
    exact toUpper_of_isDigit (Nat.isDigit_of_mem_toDigits (by decide) (by decide) hc)
  apply String.toList_injective
  simp only [hupper, String.toList_map, toList_numbered, List.map_append, List.map_cons, hdigits]
  rfl

end Namespace

namespace Text

def Unslashed (s : String) : Prop := s.toList.head? ≠ some '/'

theorem dropLeading_of_unslashed {s : String} (h : Unslashed s) : dropLeading '/' s = s := by
  have hlist : s.toList.dropWhile (· == '/') = s.toList := by
    unfold Unslashed at h
    cases hs : s.toList with
    | nil => rfl
    | cons c cs =>
      rw [hs] at h
      exact List.dropWhile_cons_of_neg (by simpa using h)
  rw [dropLeading, hlist, String.ofList_toList]

theorem unslashed_dropLeading (s : String) : Unslashed (dropLeading '/' s) := by
  intro h
  have := List.head?_dropWhile_not (· == '/') s.toList
  simp_all [dropLeading]

theorem unslashed_numbered {name : String} (h : Unslashed name) (n : Nat) :
    Unslashed (Namespace.numbered name n) := by
  unfold Unslashed at *
  rw [Namespace.toList_numbered]
  cases hs : name.toList with
  | nil => simp
  | cons c cs =>
    rw [hs] at h
    simpa using h

end Text

structure FontDef.Declared (name : String) (f : FontDef) : Prop where
  carries : f.aliasName = name
  name : Text.Unslashed name
  face : Text.Unslashed f.face

structure Declarations.Carries (d : Declarations) : Prop where
  fonts : ∀ e ∈ d.fonts.entries, FontDef.Declared e.1 e.2
  colors : ∀ e ∈ d.colors.entries, e.2.aliasName = e.1

theorem Declarations.carries_add {d : Declarations} (h : d.Carries) (c : Command) :
    (d.add c).Carries := by
  unfold Declarations.add
  split
  · refine ⟨fun e he => ?_, h.colors⟩
    rcases Table.mem_insertEntry he with rfl | he
    · exact ⟨rfl, Text.unslashed_dropLeading _, Text.unslashed_dropLeading _⟩
    · exact h.fonts e he
  · refine ⟨h.fonts, fun e he => ?_⟩
    rcases Table.mem_insertEntry he with rfl | he
    · rfl
    · exact h.colors e he
  · exact ⟨h.fonts, h.colors⟩
  · exact ⟨h.fonts, h.colors⟩
  · exact h

theorem Declarations.carries_ofCommands (cs : List Command) :
    (Declarations.ofCommands cs).Carries := by
  have hfold (d : Declarations) (h : d.Carries) (cs : List Command) :
      (cs.foldl Declarations.add d).Carries := by
    induction cs generalizing d with
    | nil => exact h
    | cons c cs ih => exact ih _ (carries_add h c)
  exact hfold {} ⟨List.forall_mem_nil _, List.forall_mem_nil _⟩ _

def Project.ofSources (document : String × String) (forms : List (String × String)) : Project where
  document := .build document.1 document.2
  forms := forms.map fun s => .build s.1 s.2

namespace Project

def fontEntries (p : Project) : List (String × FontDef) :=
  p.document.fonts.entries ++ p.forms.flatMap (·.fonts.entries)

theorem fonts_eq (p : Project) : p.fonts = p.fontEntries.map (·.2) := by
  simp [fonts, fontEntries, Table.values, List.map_flatMap]

theorem declared_fonts {p : Project} (h : ∀ e ∈ p.fontEntries, FontDef.Declared e.1 e.2) :
    ∀ f ∈ p.fonts, FontDef.Declared f.aliasName f := by
  intro f hf
  obtain ⟨e, he, rfl⟩ := List.mem_map.1 (p.fonts_eq ▸ hf)
  exact (h e he).carries ▸ h e he

variable (document : String × String) (forms : List (String × String))

theorem declared_ofSources :
    ∀ e ∈ (ofSources document forms).fontEntries, FontDef.Declared e.1 e.2 := by
  intro e he
  rcases List.mem_append.1 he with he | he
  · exact (Declarations.carries_ofCommands _).fonts e he
  · obtain ⟨f, hf, he⟩ := List.mem_flatMap.1 he
    obtain ⟨s, -, rfl⟩ := List.mem_map.1 hf
    exact (Declarations.carries_ofCommands _).fonts e he

end Project

/-- What a definition says apart from its alias. -/
def FontDef.look (f : FontDef) : String × Float := (f.face, f.size)

section Relabel

variable {α : Type} {setAlias : α → String → α}

theorem forall_relabel {P : String → α → Prop}
    (hnumbered : ∀ name value n, P name value →
      P (Namespace.numbered name n) (setAlias value (Namespace.numbered name n)))
    (ns : Namespace) {entries : List (String × α)} (h : ∀ e ∈ entries, P e.1 e.2) :
    ∀ l ∈ relabel setAlias ns entries, P l.new l.value := by
  induction entries generalizing ns with
  | nil => exact List.forall_mem_nil _
  | cons e rest ih =>
    obtain ⟨hhead, hrest⟩ := List.forall_mem_cons.1 h
    refine List.forall_mem_cons.2 ⟨?_, ih (ns.claim e.1).2 hrest⟩
    by_cases hkeep : ns.pick e.1 = e.1
    · simpa [hkeep] using hhead
    · obtain ⟨n, hn⟩ := (ns.pick_eq e.1).resolve_left hkeep
      dsimp only
      rw [if_neg hkeep, hn]
      exact hnumbered e.1 e.2 n hhead

theorem map_value_relabel {β : Type} {look : α → β}
    (hset : ∀ value name, look (setAlias value name) = look value) (ns : Namespace)
    (entries : List (String × α)) :
    (relabel setAlias ns entries).map (fun l => look l.value) = entries.map fun e => look e.2 := by
  induction entries generalizing ns with
  | nil => rfl
  | cons e rest ih =>
    simp only [relabel, List.map_cons, ih, List.cons.injEq, and_true]
    split
    · rfl
    · exact hset ..

end Relabel

section Forms

variable (fonts colors : Namespace) {forms : List Form}

theorem forall_fonts_resolveForms {P : String → FontDef → Prop}
    (hnumbered : ∀ name f n, P name f →
      P (Namespace.numbered name n) (f.withAlias (Namespace.numbered name n)))
    (h : ∀ f ∈ forms, ∀ e ∈ f.fonts.entries, P e.1 e.2) :
    ∀ f ∈ (resolveForms fonts colors forms).forms, ∀ e ∈ f.fonts.entries, P e.1 e.2 := by
  induction forms generalizing fonts colors with
  | nil => exact List.forall_mem_nil _
  | cons form rest ih =>
    obtain ⟨hform, hrest⟩ := List.forall_mem_cons.1 h
    rw [resolveForms_cons]
    refine List.forall_mem_cons.2 ⟨fun e he => ?_, ih _ _ hrest⟩
    have hmem := (entries_table FontDef.withAlias fonts form.fonts).mem_iff.1 he
    obtain ⟨l, hl, rfl⟩ := List.mem_map.1 hmem
    exact forall_relabel hnumbered fonts hform l hl

theorem looks_resolveForms (forms : List Form) :
    ((resolveForms fonts colors forms).forms.flatMap (·.fonts.values.map FontDef.look)).Perm
      (forms.flatMap (·.fonts.values.map FontDef.look)) := by
  induction forms generalizing fonts colors with
  | nil => exact .nil
  | cons form rest ih =>
    rw [resolveForms_cons]
    refine .append ?_ (ih _ _)
    have hperm := (entries_table FontDef.withAlias fonts form.fonts).map fun e => e.2.look
    have hlook : ∀ (f : FontDef) name, (f.withAlias name).look = f.look := fun _ _ => rfl
    have hvalues := map_value_relabel hlook fonts form.fonts.entries
    simpa [relabelForm, Table.values, Function.comp_def, hvalues] using hperm

end Forms

namespace Project

theorem forall_fontEntries_resolve {p : Project} {P : String → FontDef → Prop}
    (hnumbered : ∀ name f n, P name f →
      P (Namespace.numbered name n) (f.withAlias (Namespace.numbered name n)))
    (h : ∀ e ∈ p.fontEntries, P e.1 e.2) : ∀ e ∈ p.resolve.1.fontEntries, P e.1 e.2 := by
  obtain ⟨hdocument, hforms⟩ := List.forall_mem_append.1 h
  refine List.forall_mem_append.2 ⟨hdocument, List.forall_mem_flatMap.2 ?_⟩
  refine forall_fonts_resolveForms _ _ hnumbered fun f hf e he => ?_
  exact hforms e (List.mem_flatMap_of_mem (List.mem_mergeSort.1 hf) he)

theorem looks_resolve (p : Project) :
    (p.resolve.1.fonts.map FontDef.look).Perm (p.fonts.map FontDef.look) := by
  simp only [fonts, List.map_append, List.map_flatMap]
  refine .append_left _ ((looks_resolveForms _ _ _).trans ?_)
  exact (List.mergeSort_perm _ _).flatMap_right _

theorem nodup_fontEntries_resolve (p : Project) : (p.resolve.1.fontEntries.map (·.1)).Nodup := by
  have hforms :=
    nodup_resolveForms (.ofNames p.document.fonts.keys) (.ofNames p.document.colors.keys)
    (p.forms.mergeSort fun a b => decide (a.file ≤ b.file)) .font
  simp only [fontEntries, List.map_append, List.map_flatMap]
  refine List.nodup_append.2 ⟨p.document.fonts.nodup_keys, hforms.1, ?_⟩
  rintro name hname _ hname' rfl
  exact hforms.2 name hname' hname

end Project

namespace Docdef

/-- The declaration of a definition under its own alias, in capitals, with its own face and size. -/
def ownDeclaration (f : FontDef) : String :=
  "FONT " ++ f.aliasName.toUpper ++ " NOTDEF AS '" ++ fontFace f.face ++ "' DBCS ROTATION 0 HEIGHT "
    ++ millimetres (if 0 < f.size then f.size else fallbackFontSize) ++ ";"

def fontDeclarations (p : Project) : List String := (declaredFonts p).values.map fontLine

theorem aliasName_declaredFont {f : FontDef} (h : FontDef.Declared f.aliasName f) :
    (declaredFont f).aliasName = f.aliasName.toUpper := by
  rw [declaredFont, Text.dropLeading_of_unslashed h.name]

theorem fontLine_declaredFont {f : FontDef} (h : FontDef.Declared f.aliasName f) :
    fontLine (declaredFont f) = ownDeclaration f := by
  rw [fontLine, declaredFont, Text.dropLeading_of_unslashed h.name,
    Text.dropLeading_of_unslashed h.face]
  rfl

section Declarations

variable {p : Project}

theorem mem_values_declaredFonts (h : ∀ f ∈ p.fonts, FontDef.Declared f.aliasName f) {d : FontDef} :
    d ∈ (declaredFonts p).values ↔ ∃ before f after, p.fonts = before ++ f :: after
      ∧ (∀ g ∈ after, g.aliasName.toUpper ≠ f.aliasName.toUpper) ∧ d = declaredFont f := by
  simp only [Table.values, List.mem_map, declaredFonts, Table.mem_entries_ofList]
  constructor
  · rintro ⟨_, ⟨_, _, hsplit, hlast⟩, rfl⟩
    obtain ⟨before, rest, hfonts, rfl, hrest⟩ := List.map_eq_append_iff.1 hsplit
    obtain ⟨f, after, rfl, rfl, rfl⟩ := List.map_eq_cons_iff.1 hrest
    rw [hfonts] at h
    obtain ⟨-, hf, hafter⟩ := List.forall_mem_append.1 h |>.imp_right List.forall_mem_cons.1
    refine ⟨before, f, after, hfonts, fun g hg => ?_, rfl⟩
    have hne := hlast _ (List.mem_map_of_mem hg)
    rwa [aliasName_declaredFont hf, aliasName_declaredFont (hafter g hg)] at hne
  · rintro ⟨before, f, after, hfonts, hlast, rfl⟩
    rw [hfonts] at h ⊢
    obtain ⟨-, hf, hafter⟩ := List.forall_mem_append.1 h |>.imp_right List.forall_mem_cons.1
    refine ⟨(_, declaredFont f), ⟨_, _, by rw [List.map_append, List.map_cons], fun e he => ?_⟩,
      rfl⟩
    obtain ⟨g, hg, rfl⟩ := List.mem_map.1 he
    dsimp only
    rw [aliasName_declaredFont hf, aliasName_declaredFont (hafter g hg)]
    exact hlast g hg

theorem mem_fontDeclarations (h : ∀ f ∈ p.fonts, FontDef.Declared f.aliasName f) {line : String} :
    line ∈ fontDeclarations p ↔ ∃ before f after, p.fonts = before ++ f :: after
      ∧ (∀ g ∈ after, g.aliasName.toUpper ≠ f.aliasName.toUpper) ∧ line = ownDeclaration f := by
  have hline {before after : List FontDef} {f : FontDef} (hfonts : p.fonts = before ++ f :: after) :
      fontLine (declaredFont f) = ownDeclaration f := by
    refine fontLine_declaredFont (h f ?_)
    rw [hfonts]
    exact List.mem_append_right before List.mem_cons_self
  rw [fontDeclarations, List.mem_map]
  constructor
  · rintro ⟨d, hd, rfl⟩
    obtain ⟨before, f, after, hfonts, hlast, rfl⟩ := (mem_values_declaredFonts h).1 hd
    exact ⟨before, f, after, hfonts, hlast, hline hfonts⟩
  · rintro ⟨before, f, after, hfonts, hlast, rfl⟩
    exact ⟨declaredFont f, (mem_values_declaredFonts h).2 ⟨before, f, after, hfonts, hlast, rfl⟩,
      hline hfonts⟩

theorem length_fontDeclarations (h : ∀ f ∈ p.fonts, FontDef.Declared f.aliasName f) :
    (fontDeclarations p).length = (p.fonts.map fun f => f.aliasName.toUpper).dedup.length := by
  have hkeys : (declaredFonts p).keys.Perm (p.fonts.map fun f => f.aliasName.toUpper).dedup := by
    refine (List.perm_ext_iff_of_nodup (declaredFonts p).nodup_keys (List.nodup_dedup _)).2
      fun key => ?_
    have hmap : p.fonts.map (fun f => (declaredFont f).aliasName)
        = p.fonts.map fun f => f.aliasName.toUpper :=
      List.map_congr_left fun f hf => aliasName_declaredFont (h f hf)
    rw [List.mem_dedup, declaredFonts, Table.mem_keys_ofList, ← hmap, List.map_map]
    rfl
  simpa [fontDeclarations, Table.values, Table.keys] using hkeys.length_eq

end Declarations

/-- The font section of a program: the fonts of `p` under the aliases they have in `q`. -/
structure DeclaresFonts (p q : Project) (program : List Line) : Prop where
  /-- The declarations stand at the head of the font section, before the fonts that every program
  has. -/
  placed : ∃ defaults : List FontDef, defaults.Sublist defaultFonts ∧
    flush ("/* Font Definitions */" :: fontDeclarations q ++ defaults.map fontLine ++ [""])
      <:+: program
  /-- No definition has changed but for its alias. -/
  looks : (q.fonts.map FontDef.look).Perm (p.fonts.map FontDef.look)
  /-- Declared is what no later definition replaces, each with its own face and size. -/
  lines : ∀ line, line ∈ fontDeclarations q ↔ ∃ before f after, q.fonts = before ++ f :: after
    ∧ (∀ g ∈ after, g.aliasName.toUpper ≠ f.aliasName.toUpper) ∧ line = ownDeclaration f
  count : (fontDeclarations q).length = (q.fonts.map fun f => f.aliasName.toUpper).dedup.length
  /-- Nothing is lost exactly if the aliases are distinct in capitals. -/
  complete : ((∀ f ∈ q.fonts, ownDeclaration f ∈ fontDeclarations q)
      ∧ (fontDeclarations q).length = p.fonts.length)
    ↔ (q.fonts.map fun f => f.aliasName.toUpper).Nodup
  /-- They are where the sources write them in capitals. -/
  capitals : (∀ f ∈ p.fonts, f.aliasName.toUpper = f.aliasName) →
    (q.fonts.map fun f => f.aliasName.toUpper).Nodup

theorem declared_resolve {p : Project} (h : ∀ e ∈ p.fontEntries, FontDef.Declared e.1 e.2) :
    ∀ e ∈ p.resolve.1.fontEntries, FontDef.Declared e.1 e.2 :=
  Project.forall_fontEntries_resolve
    (fun _ _ n hf => ⟨rfl, Text.unslashed_numbered hf.name n, hf.face⟩) h

theorem nodup_capitals {p : Project} (h : ∀ e ∈ p.fontEntries, FontDef.Declared e.1 e.2)
    (hcapitals : ∀ f ∈ p.fonts, f.aliasName.toUpper = f.aliasName) :
    (p.resolve.1.fonts.map fun f => f.aliasName.toUpper).Nodup := by
  have hkept : ∀ e ∈ p.resolve.1.fontEntries, e.1.toUpper = e.1 := by
    refine Project.forall_fontEntries_resolve (P := fun name _ => name.toUpper
      = name) ?_ fun e he => ?_
    · intro name _ n hname
      rw [Namespace.toUpper_numbered, hname]
    · rw [← (h e he).carries]
      exact hcapitals e.2 (p.fonts_eq ▸ List.mem_map_of_mem he)
  have hnames : p.resolve.1.fonts.map (fun f => f.aliasName.toUpper)
      = p.resolve.1.fontEntries.map (·.1) := by
    rw [Project.fonts_eq, List.map_map]
    refine List.map_congr_left fun e he => ?_
    exact (congrArg String.toUpper (declared_resolve h e he).carries).trans (hkept e he)
  rw [hnames]
  exact p.nodup_fontEntries_resolve

theorem fontDeclarations_placed (e : Env) (date : String) (s : State) :
    ∃ defaults : List FontDef, defaults.Sublist defaultFonts ∧
      flush ("/* Font Definitions */" :: fontDeclarations e.project
        ++ defaults.map fontLine ++ [""])
        <:+: (documentProgram e date s).lines := by
  refine ⟨defaultFonts.filter fun f => !(declaredFonts e.project).contains f.aliasName,
    List.filter_sublist, ?_⟩
  have hsection : flush ("/* Font Definitions */" :: fontDeclarations e.project
      ++ (defaultFonts.filter fun f => !(declaredFonts e.project).contains f.aliasName).map fontLine
      ++ [""]) = fontSection e.project := by
    simp [fontSection, fontDeclarations]
  rw [hsection]
  refine ⟨header e.project.document date ++ dataFormats e.settings.input ++ formatGroup e.project,
    colorSection e.project ++ mainFormat e ++ (caseFormats e s).lines
      ++ (routineFormats e caseOrigin.1 caseOrigin.2 (caseFormats e s).state).lines
      ++ stubs e.project.document (registry e.project.document).keys ++ beforeFirstDocument e
      ++ beforeDocument, ?_⟩
  simp [documentProgram]

theorem fontDeclarations_complete {p : Project}
    (h : ∀ f ∈ p.fonts, FontDef.Declared f.aliasName f) :
    (∀ f ∈ p.fonts, ownDeclaration f ∈ fontDeclarations p)
        ∧ (fontDeclarations p).length = p.fonts.length
      ↔ (p.fonts.map fun f => f.aliasName.toUpper).Nodup := by
  rw [length_fontDeclarations h]
  constructor
  · rintro ⟨-, hlength⟩
    refine List.dedup_eq_self.1 ((List.dedup_sublist _).eq_of_length ?_)
    rw [hlength, List.length_map]
  · intro hnodup
    refine ⟨fun f hf => ?_, by rw [List.dedup_eq_self.2 hnodup, List.length_map]⟩
    obtain ⟨before, after, hsplit⟩ := List.append_of_mem hf
    refine (mem_fontDeclarations h).2 ⟨before, f, after, hsplit, fun g hg heq => ?_, rfl⟩
    rw [hsplit, List.map_append, List.map_cons] at hnodup
    refine (List.nodup_cons.1 (List.nodup_append.1 hnodup).2.1).1 ?_
    exact heq ▸ List.mem_map_of_mem (f := fun f => f.aliasName.toUpper) hg

theorem declaresFonts_resolve {p : Project} (h : ∀ e ∈ p.fontEntries, FontDef.Declared e.1 e.2)
    (settings : Settings) (date : String) (s : State) :
    DeclaresFonts p p.resolve.1
      (documentProgram { settings, project := p.resolve.1 } date s).lines := by
  have hfonts := Project.declared_fonts (declared_resolve h)
  have htotal : p.fonts.length = p.resolve.1.fonts.length := by
    simpa using p.looks_resolve.length_eq.symm
  refine {
    placed := fontDeclarations_placed { settings, project := p.resolve.1 } date s
    looks := p.looks_resolve
    lines := fun _ => mem_fontDeclarations hfonts
    count := length_fontDeclarations hfonts
    complete := ?_
    capitals := nodup_capitals h }
  rw [htotal]
  exact fontDeclarations_complete hfonts

/-- The font section declares the definitions of all sources, each with its own face and size,
except for those that a later one replaces. So none gets lost if and only if the aliases differ in
capitals. -/
theorem fonts_declared_iff_distinct (settings : Settings) (date : String)
    (document : String × String) (forms : List (String × String)) :
    let p := Project.ofSources document forms
    let e : Env := { settings, project := p.resolve.1 }
    DeclaresFonts p p.resolve.1 (documentProgram e date (State.initial e)).lines :=
  declaresFonts_resolve (Project.declared_ofSources document forms) settings date _

/-- The aliases differ in the case of the letter only, and one declaration is left of two. -/
theorem fonts_lost_in_capitals :
    let p :=
      Project.ofSources ("t.dbm", "/F1 /ARIAL 8 INDEXFONT") [("a.frm", "/f1 /COURIER 9 INDEXFONT")]
    p.resolve.1.fonts.map FontDef.aliasName = ["F1", "f1"] ∧
      (fontDeclarations p.resolve.1).length = 1 := by
  intro p
  have hnames : p.resolve.1.fonts.map FontDef.aliasName = ["F1", "f1"] := by decide +kernel
  have hcapitals : p.resolve.1.fonts.map (fun f => f.aliasName.toUpper) = ["F1", "F1"] := by
    have hupper : ["F1", "f1"].map String.toUpper = ["F1", "F1"] := by decide +kernel
    rwa [← hnames, List.map_map] at hupper
  refine ⟨hnames, ?_⟩
  rw [length_fontDeclarations (Project.declared_fonts
    (declared_resolve (Project.declared_ofSources _ _))),
    hcapitals]
  decide

/-- Written in capitals, the second font gets a number and both are declared. -/
theorem fonts_declared_iff_distinct_numbered :
    let p :=
      Project.ofSources ("t.dbm", "/F1 /ARIAL 8 INDEXFONT") [("a.frm", "/F1 /COURIER 9 INDEXFONT")]
    (∀ f ∈ p.fonts, f.aliasName.toUpper = f.aliasName) ∧
      (∀ f ∈ p.resolve.1.fonts, ownDeclaration f ∈ fontDeclarations p.resolve.1) ∧
      p.resolve.1.fonts.map FontDef.aliasName = ["F1", "F1_1"] := by
  intro p
  have hcapitals : ∀ f ∈ p.fonts, f.aliasName.toUpper = f.aliasName := by
    have hnames : p.fonts.map FontDef.aliasName = ["F1", "F1"] := by decide +kernel
    intro f hf
    have hname : f.aliasName ∈ p.fonts.map FontDef.aliasName := List.mem_map_of_mem hf
    have hname : f.aliasName = "F1" := by simpa [hnames] using hname
    rw [hname]
    decide +kernel
  have hdeclares := fonts_declared_iff_distinct {} "" ("t.dbm", "/F1 /ARIAL 8 INDEXFONT")
    [("a.frm", "/F1 /COURIER 9 INDEXFONT")]
  exact ⟨hcapitals, (hdeclares.complete.2 (hdeclares.capitals hcapitals)).1, by decide +kernel⟩

end Docdef

end VippDocdef
