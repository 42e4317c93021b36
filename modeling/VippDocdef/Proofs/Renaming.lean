import Mathlib.Data.List.Forall2
import Mathlib.Data.Set.Function
import VippDocdef.Proofs.Numbering

/-! Aliases after renaming. Every alias of a project ends up with a name of its own, every
definition is found under its new name, and no alias changes that was free when its turn came. -/

set_option autoImplicit false

namespace VippDocdef

structure Relabelled (α : Type) where
  old : String
  new : String
  value : α

def relabel {α : Type} (setAlias : α → String → α) :
    Namespace → List (String × α) → List (Relabelled α)
  | _, [] => []
  | ns, (name, value) :: rest =>
    let new := ns.pick name
    ⟨name, new, if new = name then value else setAlias value new⟩
      :: relabel setAlias (ns.claim name).2 rest

section Relabel

variable {α : Type} (setAlias : α → String → α)

theorem renameEntries_cons (ns : Namespace) (e : String × α) (rest : List (String × α))
    (r : Renamed α) :
    renameEntries setAlias ns (e :: rest) r =
      renameEntries setAlias (ns.claim e.1).2 rest
        { table := r.table.insert (ns.pick e.1) (if ns.pick e.1
          = e.1 then e.2 else setAlias e.2 (ns.pick e.1))
          mapping := r.mapping.insert e.1 (ns.pick e.1) } := rfl

theorem renamed_renameEntries (ns : Namespace) (entries : List (String × α)) (r : Renamed α) :
    (renameEntries setAlias ns entries r).1 =
      ⟨((relabel setAlias ns entries).map fun l => (l.new, l.value)).foldl
          (fun t (k, v) => t.insert k v) r.table,
        ((relabel setAlias ns entries).map fun l => (l.old, l.new)).foldl
          (fun t (k, v) => t.insert k v) r.mapping⟩ := by
  induction entries generalizing ns r with
  | nil => rfl
  | cons e rest ih =>
    rw [renameEntries_cons, ih]
    rfl

theorem used_renameEntries (ns : Namespace) (entries : List (String × α)) (r : Renamed α) :
    (renameEntries setAlias ns entries r).2.used
      = ((relabel setAlias ns entries).map (·.new)).reverse ++ ns.used := by
  induction entries generalizing ns r with
  | nil => rfl
  | cons e rest ih =>
    rw [renameEntries_cons, ih]
    simp [relabel]

theorem map_old_relabel (ns : Namespace) (entries : List (String × α)) :
    (relabel setAlias ns entries).map (·.old) = entries.map (·.1) := by
  induction entries generalizing ns with
  | nil => rfl
  | cons e rest ih => simp [relabel, ih]

theorem nodup_new_relabel (ns : Namespace) (entries : List (String × α)) :
    ((relabel setAlias ns entries).map (·.new)).Nodup
      ∧ ∀ name ∈ (relabel setAlias ns entries).map (·.new), name ∉ ns.used := by
  induction entries generalizing ns with
  | nil => simp [relabel]
  | cons e rest ih =>
    obtain ⟨hnodup, hfree⟩ := ih (ns.claim e.1).2
    rw [Namespace.used_claim] at hfree
    have hpick := ns.pick_not_mem e.1
    simp only [relabel, List.map_cons, List.nodup_cons, List.forall_mem_cons]
    refine ⟨⟨fun hm => ?_, hnodup⟩, hpick, fun name hname => ?_⟩
    · exact hfree _ hm List.mem_cons_self
    · exact fun hu => hfree name hname (List.mem_cons_of_mem _ hu)

/-- An alias changes exactly if its name is taken, by the names before or by an earlier entry. -/
theorem changed_relabel {ns : Namespace} {entries : List (String × α)}
    {earlier later : List (Relabelled α)} {l : Relabelled α}
    (h : relabel setAlias ns entries = earlier ++ l :: later) :
    l.new ≠ l.old ↔ l.old ∈ ns.used ∨ l.old ∈ earlier.map (·.new) := by
  induction entries generalizing ns earlier with
  | nil => simp [relabel] at h
  | cons e rest ih =>
    cases earlier with
    | nil =>
      obtain ⟨rfl, -⟩ := List.cons_eq_cons.1 h
      simpa using ns.pick_ne_iff e.1
    | cons first earlier =>
      obtain ⟨rfl, hrest⟩ := List.cons_eq_cons.1 h
      rw [ih hrest]
      simp only [Namespace.used_claim, List.mem_cons, List.map_cons]
      tauto

theorem mem_relabel (ns : Namespace) {entries : List (String × α)} {e : String × α}
    (h : e ∈ entries) :
    ∃ l ∈ relabel setAlias ns entries, l.old = e.1
      ∧ l.value = if l.new = e.1 then e.2 else setAlias e.2 l.new := by
  induction entries generalizing ns with
  | nil => cases h
  | cons first rest ih =>
    rcases List.mem_cons.1 h with rfl | h
    · exact ⟨_, List.mem_cons_self, rfl, rfl⟩
    · obtain ⟨l, hl, hspec⟩ := ih (ns.claim first.1).2 h
      exact ⟨l, List.mem_cons_of_mem _ hl, hspec⟩

end Relabel

/-- A table under its new names: the mapping leads from the old names one to one to the new ones,
and each definition is found under its new name and carries it. -/
structure Relabels {α : Type} (setAlias : α → String → α) (old new : Table α)
    (mapping : Table String) : Prop where
  domain : mapping.keys = old.keys
  bijective : Set.BijOn (fun name => (mapping.get? name).getD name)
    {name | name ∈ old.keys} {name | name ∈ new.keys}
  definitions : ∀ name value, old.get? name = some value →
    ∃ got, mapping.get? name = some got ∧ new.get? got = some (setAlias value got)

/-- The mapping changes a name exactly if it is taken, from the start or by an entry before it. -/
def ChangesTaken (taken : List String) (mapping : Table String) : Prop :=
  ∀ earlier name got later, mapping.entries = earlier ++ (name, got) :: later →
    (got ≠ name ↔ name ∈ taken ∨ name ∈ earlier.map (·.2))

section Tables

variable {α : Type} (setAlias : α → String → α) (ns : Namespace) (old : Table α)

theorem entries_mapping :
    (renameEntries setAlias ns old.entries {}).1.mapping.entries
      = (relabel setAlias ns old.entries).map fun l => (l.old, l.new) := by
  rw [renamed_renameEntries]
  apply Table.entries_ofList
  have hkeys : ((relabel setAlias ns old.entries).map (·.old)).Pairwise (· < ·) := by
    rw [map_old_relabel, List.pairwise_map]
    exact old.ordered
  simpa [List.pairwise_map] using hkeys

theorem entries_table :
    (renameEntries setAlias ns old.entries {}).1.table.entries.Perm
      ((relabel setAlias ns old.entries).map fun l => (l.new, l.value)) := by
  rw [renamed_renameEntries]
  apply Table.perm_ofList
  simpa [Function.comp_def] using (nodup_new_relabel setAlias ns old.entries).1

theorem mem_keys_table {name : String} :
    name ∈ (renameEntries setAlias ns old.entries {}).1.table.keys
      ↔ name ∈ (relabel setAlias ns old.entries).map (·.new) := by
  simpa [Table.keys, Function.comp_def] using ((entries_table setAlias ns old).map (·.1)).mem_iff

theorem get?_mapping {l : Relabelled α} (h : l ∈ relabel setAlias ns old.entries) :
    (renameEntries setAlias ns old.entries {}).1.mapping.get? l.old = some l.new := by
  rw [Table.get?_eq_some, entries_mapping]
  exact List.mem_map_of_mem h

theorem keys_mapping : (renameEntries setAlias ns old.entries {}).1.mapping.keys = old.keys := by
  simp [Table.keys, entries_mapping, Function.comp_def, map_old_relabel]

theorem bijOn_mapping :
    Set.BijOn
      (fun name => ((renameEntries setAlias ns old.entries {}).1.mapping.get? name).getD name)
      {name | name ∈ old.keys}
      {name | name ∈ (renameEntries setAlias ns old.entries {}).1.table.keys} := by
  have hold {name : String} (h : name ∈ old.keys) :
      ∃ l ∈ relabel setAlias ns old.entries, l.old = name := by
    simpa [Table.keys, ← map_old_relabel setAlias ns] using h
  refine ⟨?_, ?_, ?_⟩
  · intro name hname
    obtain ⟨l, hl, rfl⟩ := hold hname
    simpa [get?_mapping setAlias ns old hl, mem_keys_table] using ⟨l, hl, rfl⟩
  · intro name hname name' hname' heq
    obtain ⟨l, hl, rfl⟩ := hold hname
    obtain ⟨l', hl', rfl⟩ := hold hname'
    have hnew : l.new = l'.new := by
      simpa [get?_mapping setAlias ns old hl, get?_mapping setAlias ns old hl'] using heq
    rw [List.inj_on_of_nodup_map (nodup_new_relabel setAlias ns old.entries).1 hl hl' hnew]
  · intro got hgot
    obtain ⟨l, hl, rfl⟩ := List.mem_map.1 ((mem_keys_table setAlias ns old).1 hgot)
    refine ⟨l.old, ?_, by simp [get?_mapping setAlias ns old hl]⟩
    show l.old ∈ old.entries.map (·.1)
    rw [← map_old_relabel setAlias ns]
    exact List.mem_map_of_mem hl

theorem changesTaken_mapping :
    ChangesTaken ns.used (renameEntries setAlias ns old.entries {}).1.mapping := by
  intro earlier name got later h
  rw [entries_mapping, List.map_eq_append_iff] at h
  obtain ⟨before, rest, hsplit, rfl, hrest⟩ := h
  obtain ⟨l, after, rfl, hl, -⟩ := List.map_eq_cons_iff.1 hrest
  obtain ⟨rfl, rfl⟩ := Prod.mk.injEq .. ▸ hl
  simpa [Function.comp_def] using changed_relabel setAlias hsplit

theorem mem_used {name : String} :
    name ∈ (renameEntries setAlias ns old.entries {}).2.used
      ↔ name ∈ ns.used ∨ name ∈ (renameEntries setAlias ns old.entries {}).1.table.keys := by
  rw [mem_keys_table, used_renameEntries]
  simp [or_comm]

variable {setAlias old}

theorem relabels_renameEntries (h : ∀ e ∈ old.entries, setAlias e.2 e.1 = e.2) :
    Relabels setAlias old (renameEntries setAlias ns old.entries {}).1.table
      (renameEntries setAlias ns old.entries {}).1.mapping where
  domain := keys_mapping setAlias ns old
  bijective := bijOn_mapping setAlias ns old
  definitions := by
    intro name value hget
    have hmem := Table.get?_eq_some.1 hget
    obtain ⟨l, hl, rfl, hvalue⟩ := mem_relabel setAlias ns hmem
    refine ⟨l.new, get?_mapping setAlias ns old hl, ?_⟩
    have hset : l.value = setAlias value l.new := by
      rw [hvalue]
      split
      · next heq => rw [heq, h _ hmem]
      · rfl
    rw [Table.get?_eq_some, (entries_table setAlias ns old).mem_iff, ← hset]
    exact List.mem_map.2 ⟨l, hl, rfl⟩

end Tables

def Document.aliases (d : Document) : AliasKind → List String
  | .font => d.fonts.keys
  | .color => d.colors.keys

def Form.aliases (f : Form) : AliasKind → List String
  | .font => f.fonts.keys
  | .color => f.colors.keys

def Form.mapping (f : Form) : AliasKind → Table String
  | .font => f.renames.fonts
  | .color => f.renames.colors

def FontDef.withAlias (f : FontDef) (name : String) : FontDef := { f with aliasName := name }

def ColorDef.withAlias (c : ColorDef) (name : String) : ColorDef := { c with aliasName := name }

def Form.CarriesAliases (f : Form) : Prop :=
  (∀ e ∈ f.fonts.entries, e.2.aliasName = e.1) ∧ ∀ e ∈ f.colors.entries, e.2.aliasName = e.1

structure Form.Relabels (old new : Form) : Prop where
  fonts : VippDocdef.Relabels FontDef.withAlias old.fonts new.fonts new.renames.fonts
  colors : VippDocdef.Relabels ColorDef.withAlias old.colors new.colors new.renames.colors
  unchanged : new = { old with fonts := new.fonts, colors := new.colors, renames := new.renames }

def taken (fonts colors : Namespace) : AliasKind → List String
  | .font => fonts.used
  | .color => colors.used

def relabelForm (fonts colors : Namespace) (form : Form) : Form × Namespace × Namespace :=
  let newFonts := renameEntries FontDef.withAlias fonts form.fonts.entries {}
  let newColors := renameEntries ColorDef.withAlias colors form.colors.entries {}
  ({ form with
      fonts := newFonts.1.table, colors := newColors.1.table
      renames := ⟨newFonts.1.mapping, newColors.1.mapping⟩ }, newFonts.2, newColors.2)

def Form.changes (f : Form) : List Rename :=
  VippDocdef.changes f.file .font f.renames.fonts ++ VippDocdef.changes f.file .color
    f.renames.colors

theorem resolveForms_cons (fonts colors : Namespace) (form : Form) (rest : List Form) :
    resolveForms fonts colors (form :: rest) =
      let step := relabelForm fonts colors form
      let others := resolveForms step.2.1 step.2.2 rest
      ⟨step.1 :: others.forms, step.1.changes ++ others.renames⟩ := rfl

section Step

variable (fonts colors : Namespace) (form : Form)

theorem relabels_relabelForm (h : form.CarriesAliases) :
    form.Relabels (relabelForm fonts colors form).1 where
  fonts := by
    refine relabels_renameEntries fonts fun e he => ?_
    rw [FontDef.withAlias, ← h.1 e he]
  colors := by
    refine relabels_renameEntries colors fun e he => ?_
    rw [ColorDef.withAlias, ← h.2 e he]
  unchanged := rfl

theorem nodup_aliases (kind : AliasKind) : (form.aliases kind).Nodup := by
  cases kind
  · exact form.fonts.nodup_keys
  · exact form.colors.nodup_keys

theorem mem_taken_relabelForm (kind : AliasKind) (name : String) :
    name ∈ taken (relabelForm fonts colors form).2.1 (relabelForm fonts colors form).2.2 kind
      ↔ name ∈ taken fonts colors kind ∨ name ∈ (relabelForm fonts colors form).1.aliases kind := by
  cases kind
  · exact mem_used FontDef.withAlias fonts form.fonts
  · exact mem_used ColorDef.withAlias colors form.colors

theorem fresh_relabelForm {kind : AliasKind} {name : String}
    (h : name ∈ (relabelForm fonts colors form).1.aliases kind) :
    name ∉ taken fonts colors kind := by
  cases kind
  · exact (nodup_new_relabel _ fonts _).2 name ((mem_keys_table _ fonts form.fonts).1 h)
  · exact (nodup_new_relabel _ colors _).2 name ((mem_keys_table _ colors form.colors).1 h)

theorem changesTaken_relabelForm (kind : AliasKind) :
    ChangesTaken (taken fonts colors kind) ((relabelForm fonts colors form).1.mapping kind) := by
  cases kind
  · exact changesTaken_mapping FontDef.withAlias fonts form.fonts
  · exact changesTaken_mapping ColorDef.withAlias colors form.colors

end Step

theorem Relabels.mem_keys {α : Type} {setAlias : α → String → α} {old new : Table α}
    {mapping : Table String} (h : Relabels setAlias old new mapping) {name got : String}
    (hget : mapping.get? name = some got) : got ∈ new.keys := by
  have hname : name ∈ old.keys := by
    rw [← h.domain]
    exact List.mem_map.2 ⟨_, Table.get?_eq_some.1 hget, rfl⟩
  simpa [hget] using h.bijective.mapsTo hname

theorem Form.Relabels.mem_aliases {old new : Form} (h : old.Relabels new) {kind : AliasKind}
    {name got : String} (hget : (new.mapping kind).get? name = some got) :
    got ∈ new.aliases kind := by
  cases kind
  · exact h.fonts.mem_keys hget
  · exact h.colors.mem_keys hget

theorem mem_changes_of {file : String} {kind : AliasKind} {mapping : Table String} {r : Rename} :
    r ∈ changes file kind mapping
      ↔ r.old ≠ r.new ∧ r.form = file ∧ r.kind = kind ∧ mapping.get? r.old = some r.new := by
  obtain ⟨form, k, old, new⟩ := r
  simp only [changes, List.mem_filterMap, Table.get?_eq_some, Prod.exists]
  constructor
  · rintro ⟨a, b, hmem, heq⟩
    split at heq
    · cases heq
    · next hne =>
      cases heq
      exact ⟨hne, rfl, rfl, hmem⟩
  · rintro ⟨hne, rfl, rfl, hmem⟩
    exact ⟨old, new, hmem, if_neg hne⟩

theorem Form.mem_changes {f : Form} {r : Rename} :
    r ∈ f.changes ↔ r.old ≠ r.new ∧ f.file = r.form ∧
      (f.mapping r.kind).get? r.old = some r.new := by
  simp only [Form.changes, List.mem_append, mem_changes_of, Form.mapping]
  cases hk : r.kind <;> simp [eq_comm]

theorem nodup_changes (file : String) (kind : AliasKind) (mapping : Table String) :
    (changes file kind mapping).Nodup := by
  refine List.Nodup.filterMap ?_ (List.Nodup.of_map _ mapping.nodup_keys)
  intro a a' r ha ha'
  grind

theorem Form.nodup_changes (f : Form) : f.changes.Nodup := by
  refine List.nodup_append.2 ⟨VippDocdef.nodup_changes .., VippDocdef.nodup_changes .., ?_⟩
  rintro r hr _ hr' rfl
  have hfont := (mem_changes_of.1 hr).2.2.1
  have hcolor := (mem_changes_of.1 hr').2.2.1
  exact absurd (hfont.symm.trans hcolor) (by decide)

theorem ChangesTaken.congr {names names' : List String} {mapping : Table String}
    (h : ChangesTaken names mapping) (heq : ∀ name, name ∈ names ↔ name ∈ names') :
    ChangesTaken names' mapping := by
  intro earlier name got later hsplit
  rw [h earlier name got later hsplit, heq]

theorem exists_relabels {old new : List Form} (h : List.Forall₂ Form.Relabels old new) :
    ∀ f ∈ new, ∃ o : Form, o.Relabels f := by
  induction h with
  | nil => simp
  | cons hhead htail ih => exact List.forall_mem_cons.2 ⟨⟨_, hhead⟩, ih⟩

section Run

variable (fonts colors : Namespace) (forms : List Form)

theorem relabels_resolveForms (h : ∀ f ∈ forms, f.CarriesAliases) :
    List.Forall₂ Form.Relabels forms (resolveForms fonts colors forms).forms := by
  induction forms generalizing fonts colors with
  | nil => exact .nil
  | cons form rest ih =>
    obtain ⟨hform, hrest⟩ := List.forall_mem_cons.1 h
    exact .cons (relabels_relabelForm fonts colors form hform) (ih _ _ hrest)

theorem nodup_resolveForms (kind : AliasKind) :
    ((resolveForms fonts colors forms).forms.flatMap (·.aliases kind)).Nodup
      ∧ ∀ name ∈ (resolveForms fonts colors forms).forms.flatMap (·.aliases kind),
        name ∉ taken fonts colors kind := by
  induction forms generalizing fonts colors with
  | nil => simp [resolveForms]
  | cons form rest ih =>
    rw [resolveForms_cons]
    dsimp only
    obtain ⟨hnodup, hfree⟩ :=
      ih (relabelForm fonts colors form).2.1 (relabelForm fonts colors form).2.2
    simp only [mem_taken_relabelForm, not_or] at hfree
    simp only [List.flatMap_cons, List.nodup_append, List.forall_mem_append]
    refine ⟨⟨nodup_aliases _ kind, hnodup, ?_⟩, fun name hname => ?_, fun name hname => ?_⟩
    · rintro name hname _ hname' rfl
      exact (hfree name hname').2 hname
    · exact fresh_relabelForm fonts colors form hname
    · exact (hfree name hname).1

theorem changesTaken_resolveForms (kind : AliasKind) {before after : List Form} {f : Form}
    (h : (resolveForms fonts colors forms).forms = before ++ f :: after) :
    ChangesTaken (taken fonts colors kind ++ before.flatMap (·.aliases kind)) (f.mapping kind) := by
  induction forms generalizing fonts colors before with
  | nil => simp [resolveForms] at h
  | cons form rest ih =>
    rw [resolveForms_cons] at h
    cases before with
    | nil =>
      obtain ⟨rfl, -⟩ := List.cons_eq_cons.1 h
      simpa using changesTaken_relabelForm fonts colors form kind
    | cons first before =>
      obtain ⟨rfl, hrest⟩ := List.cons_eq_cons.1 h
      refine (ih _ _ hrest).congr fun name => ?_
      simp [mem_taken_relabelForm, or_assoc]

theorem renames_resolveForms :
    (resolveForms fonts colors forms).renames
      = (resolveForms fonts colors forms).forms.flatMap Form.changes := by
  induction forms generalizing fonts colors with
  | nil => rfl
  | cons form rest ih =>
    rw [resolveForms_cons]
    simp [ih]

theorem nodup_renames (h : ∀ f ∈ forms, f.CarriesAliases) :
    (resolveForms fonts colors forms).renames.Nodup := by
  have hrel := exists_relabels (relabels_resolveForms fonts colors forms h)
  have hdisjoint (kind : AliasKind) :=
    (List.nodup_flatMap.1 (nodup_resolveForms fonts colors forms kind).1).2
  rw [renames_resolveForms, List.nodup_flatMap]
  refine ⟨fun f _ => f.nodup_changes, ?_⟩
  -- a rename tells its form by the name it gives
  refine ((hdisjoint .font).and (hdisjoint .color)).imp_of_mem ?_
  intro f f' hf hf' hne r hr hr'
  obtain ⟨old, hold⟩ := hrel f hf
  obtain ⟨old', hold'⟩ := hrel f' hf'
  have hnew := hold.mem_aliases (Form.mem_changes.1 hr).2.2
  have hnew' := hold'.mem_aliases (Form.mem_changes.1 hr').2.2
  cases hk : r.kind with
  | font => exact hne.1 (hk ▸ hnew) (hk ▸ hnew')
  | color => exact hne.2 (hk ▸ hnew) (hk ▸ hnew')

end Run

/-- What resolving makes of a project, and the renames it reports. -/
structure Project.Separates (p q : Project) (renames : List Rename) : Prop where
  document : q.document = p.document
  distinct : ∀ kind, (q.document.aliases kind ++ q.forms.flatMap (·.aliases kind)).Nodup
  /-- The forms are those of the project in the order of their names, under new aliases. -/
  relabels : ∃ sorted : List Form, sorted.Perm p.forms ∧
    sorted.Pairwise (fun a b => a.file ≤ b.file) ∧
    List.Forall₂ Form.Relabels sorted q.forms
  /-- An alias changes exactly if it is one of the document or a name given before its turn. -/
  changed : ∀ kind before f after, q.forms = before ++ f :: after →
    ChangesTaken (q.document.aliases kind ++ before.flatMap (·.aliases kind)) (f.mapping kind)
  nodup_renames : renames.Nodup
  mem_renames : ∀ r, r ∈ renames ↔ r.old ≠ r.new ∧
    ∃ f ∈ q.forms, f.file = r.form ∧ (f.mapping r.kind).get? r.old = some r.new

/-- Resolving leaves the document as it is and makes all aliases of one kind distinct. Each form is
renamed one to one and keeps its definitions, an alias changes only if its name is taken, and the
renames are reported each once. -/
theorem resolve_separates (p : Project) (h : ∀ f ∈ p.forms, f.CarriesAliases) :
    p.Separates p.resolve.1 p.resolve.2 := by
  let le (a b : Form) : Bool := decide (a.file ≤ b.file)
  let fonts : Namespace := .ofNames p.document.fonts.keys
  let colors : Namespace := .ofNames p.document.colors.keys
  have hperm : (p.forms.mergeSort le).Perm p.forms := List.mergeSort_perm p.forms le
  have hcarry : ∀ f ∈ p.forms.mergeSort le, f.CarriesAliases := fun f hf => h f (hperm.mem_iff.1 hf)
  have hsorted : (p.forms.mergeSort le).Pairwise (fun a b => a.file ≤ b.file) := by
    have hle := @List.pairwise_mergeSort _ le (by grind) (by grind) p.forms
    simpa [le] using hle
  have htaken : taken fonts colors = p.document.aliases := by
    funext kind
    cases kind <;> rfl
  have hnodup (kind : AliasKind) := nodup_resolveForms fonts colors (p.forms.mergeSort le) kind
  refine {
    document := rfl
    distinct := fun kind => ?_
    relabels := ⟨_, hperm, hsorted, relabels_resolveForms fonts colors _ hcarry⟩
    changed := fun kind before f after hsplit => ?_
    nodup_renames := nodup_renames fonts colors _ hcarry
    mem_renames := fun r => ?_ }
  · have hdoc : (p.document.aliases kind).Nodup := by
      cases kind
      · exact p.document.fonts.nodup_keys
      · exact p.document.colors.nodup_keys
    refine List.nodup_append.2 ⟨hdoc, (hnodup kind).1, ?_⟩
    rintro name hname _ hname' rfl
    exact (hnodup kind).2 name hname' (htaken ▸ hname)
  · show ChangesTaken (p.document.aliases kind ++ _) _
    rw [← htaken]
    exact changesTaken_resolveForms fonts colors _ kind hsplit
  · show r ∈ (resolveForms fonts colors (p.forms.mergeSort le)).renames ↔ _
    rw [renames_resolveForms]
    simp only [List.mem_flatMap, Form.mem_changes]
    constructor
    · rintro ⟨f, hf, hne, hfile, hget⟩
      exact ⟨hne, f, hf, hfile, hget⟩
    · rintro ⟨hne, f, hf, hfile, hget⟩
      exact ⟨f, hf, hne, hfile, hget⟩

/-- The document has `F1`, and the form has both `F1` and the name that `F1` gets. -/
theorem resolve_separates_numbered :
    let font (name : String) : String × FontDef := (name, ⟨name, "ARIAL", 8⟩)
    let form : Form := { file := "a.frm", fonts := .ofList [font "F1", font "F1_1"] }
    let p : Project := { document := { fonts := .ofList [font "F1"] }, forms := [form] }
    (∀ f ∈ p.forms, f.CarriesAliases) ∧ p.Separates p.resolve.1 p.resolve.2 ∧
      p.resolve.2 = [⟨"a.frm", .font, "F1", "F1_1"⟩, ⟨"a.frm", .font, "F1_1", "F1_1_1"⟩] := by
  intro font form p
  have hfonts : form.fonts.entries = [font "F1", font "F1_1"] := Table.entries_ofList (by decide)
  have hcarry : ∀ f ∈ p.forms, f.CarriesAliases := by
    intro f hf
    obtain rfl := List.mem_singleton.1 hf
    refine ⟨?_, fun e he => nomatch he⟩
    rw [hfonts]
    simp [font]
  exact ⟨hcarry, resolve_separates p hcarry, by decide +kernel⟩

end VippDocdef
