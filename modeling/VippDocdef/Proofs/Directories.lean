import Mathlib.Data.List.Induction
import Mathlib.Data.List.Lex
import Mathlib.Data.List.Pairwise
import Mathlib.Data.Prod.Lex
import Mathlib.Data.String.Basic
import VippDocdef.Batch.Sources

/-! How sources are grouped. Paths are compared part by part, groups are kept in the order of their
directories, and each source goes into the group of its directory. -/

set_option autoImplicit false

namespace VippDocdef

namespace Path

/-- A part as it is compared: a name by its text, and behind all other parts. -/
def Part.key (a : Part) : Nat ×ₗ String :=
  toLex (a.rank, match a with
    | .name text => text
    | _ => "")

theorem Part.key_injective : Function.Injective key := by
  intro a b h
  cases a <;> cases b <;> simp_all [key, rank]

theorem Part.lt_iff (a b : Part) : a.lt b = true ↔ a.key < b.key := by
  cases a <;> cases b <;> simp [lt, key, rank, Prod.Lex.toLex_lt_toLex]

theorem partsLt_iff (as bs : List Part) :
    partsLt as bs = true ↔ as.map Part.key < bs.map Part.key := by
  fun_induction partsLt as bs with
  | case1 as => simp
  | case2 b bs => simp
  | case3 a as b bs hlt => simp [List.cons_lt_cons_iff, (Part.lt_iff a b).1 hlt]
  | case4 a as b bs hlt hgt =>
    have hkey := (Part.lt_iff b a).1 hgt
    simp [List.cons_lt_cons_iff, hkey.not_gt, hkey.ne']
  | case5 a as b bs hlt hgt ih =>
    rw [Part.lt_iff] at hlt hgt
    have hkey : a.key = b.key := le_antisymm (not_lt.1 hgt) (not_lt.1 hlt)
    rw [ih, List.map_cons, List.map_cons, List.cons_lt_cons_iff, hkey]
    simp

theorem partsLt_trans {as bs cs : List Part} (h : partsLt as bs = true)
    (h' : partsLt bs cs = true) :
    partsLt as cs = true := by
  rw [partsLt_iff] at h h' ⊢
  exact h.trans h'

theorem partsLt_irrefl (as : List Part) : partsLt as as = false := by
  rw [← Bool.not_eq_true, partsLt_iff]
  exact lt_irrefl _

theorem partsLt_of_ne {as bs : List Part} (hne : as ≠ bs) (h : partsLt bs as = false) :
    partsLt as bs = true := by
  rw [← Bool.not_eq_true, partsLt_iff] at h
  rw [partsLt_iff]
  exact lt_of_le_of_ne (not_lt.1 h) fun heq => hne (List.map_injective_iff.2 Part.key_injective heq)

theorem same_iff {p q : Path} : p.same q = true ↔ p.parts = q.parts := decide_eq_true_iff

theorem same_congr {p q : Path} (h : p.same q = true) (r : Path) : p.same r = q.same r := by
  unfold same
  rw [same_iff.1 h]

theorem same_comm (p q : Path) : p.same q = q.same p := by
  rw [Bool.eq_iff_iff, same_iff, same_iff, eq_comm]

theorem not_same_of_partsLt {p q : Path} (h : partsLt p.parts q.parts = true) :
    p.same q = false := by
  rw [← Bool.not_eq_true, same_iff]
  intro heq
  rw [heq, partsLt_irrefl] at h
  cases h

end Path

def sourceDir (p : Path) : Path := p.parent?.getD ⟨""⟩

namespace SourceGroup

def sources (g : SourceGroup) : UnitKind → List Path
  | .document => g.documents
  | .form => g.forms

theorem sources_add (g : SourceGroup) (p : Path) (kind k : UnitKind) :
    (g.add p kind).sources k = g.sources k ++ if kind = k then [p] else [] := by
  cases kind <;> cases k <;> simp [add, sources]

theorem dir_add (g : SourceGroup) (p : Path) (kind : UnitKind) : (g.add p kind).dir = g.dir := by
  cases kind <;> rfl

theorem mem_sources {g : SourceGroup} {p : Path} :
    (∃ k, p ∈ g.sources k) ↔ p ∈ g.documents ∨ p ∈ g.forms := by
  constructor
  · rintro ⟨k, hp⟩
    cases k with
    | document => exact .inl hp
    | form => exact .inr hp
  · rintro (hp | hp)
    · exact ⟨.document, hp⟩
    · exact ⟨.form, hp⟩

theorem sources_empty (dir : Path) (k : UnitKind) : ({ dir } : SourceGroup).sources k = [] := by
  cases k <;> rfl

def Sorted (groups : List SourceGroup) : Prop :=
  groups.Pairwise fun g h => Path.partsLt g.dir.parts h.dir.parts = true

def sourcesIn (d : Path) (k : UnitKind) : List SourceGroup → List Path
  | [] => []
  | g :: rest => if g.dir.same d then g.sources k else sourcesIn d k rest

theorem sourcesIn_of_forall {d : Path} {k : UnitKind} {groups : List SourceGroup}
    (h : ∀ g ∈ groups, g.dir.same d = false) : sourcesIn d k groups = [] := by
  induction groups with
  | nil => rfl
  | cons first rest ih =>
    obtain ⟨hfirst, hrest⟩ := List.forall_mem_cons.1 h
    rw [sourcesIn, hfirst]
    exact ih hrest

end SourceGroup

open SourceGroup

theorem dir_of_mem_addToGroups {dir p : Path} {kind : UnitKind} {groups : List SourceGroup}
    {g : SourceGroup}
    (h : g ∈ addToGroups dir p kind groups) : g.dir = dir ∨ ∃ k ∈ groups, g.dir = k.dir := by
  induction groups with
  | nil =>
    rw [List.mem_singleton.1 h, dir_add]
    exact .inl rfl
  | cons first rest ih =>
    unfold addToGroups at h
    split at h
    · rcases List.mem_cons.1 h with rfl | h
      · exact .inr ⟨first, List.mem_cons_self, dir_add ..⟩
      · exact .inr ⟨g, List.mem_cons_of_mem _ h, rfl⟩
    split at h
    · rcases List.mem_cons.1 h with rfl | h
      · exact .inr ⟨g, List.mem_cons_self, rfl⟩
      · rcases ih h with hdir | ⟨k, hk, hdir⟩
        · exact .inl hdir
        · exact .inr ⟨k, List.mem_cons_of_mem _ hk, hdir⟩
    · rcases List.mem_cons.1 h with rfl | h
      · exact .inl (dir_add ..)
      · exact .inr ⟨g, h, rfl⟩

theorem sorted_addToGroups {groups : List SourceGroup} (h : Sorted groups) (dir p : Path)
    (kind : UnitKind) :
    Sorted (addToGroups dir p kind groups) := by
  induction groups with
  | nil => exact List.pairwise_singleton _ _
  | cons first rest ih =>
    obtain ⟨hfirst, hrest⟩ := List.pairwise_cons.1 h
    unfold addToGroups
    split
    · refine List.pairwise_cons.2 ⟨fun g hg => ?_, hrest⟩
      rw [dir_add]
      exact hfirst g hg
    split
    · next hne hle =>
      have hdir : Path.partsLt first.dir.parts dir.parts = true :=
        Path.partsLt_of_ne (fun heq => hne (Path.same_iff.2 heq)) (by simpa [Path.le] using hle)
      refine List.pairwise_cons.2 ⟨fun g hg => ?_, ih hrest⟩
      rcases dir_of_mem_addToGroups hg with hg | ⟨k, hk, hg⟩
      · rw [hg]
        exact hdir
      · rw [hg]
        exact hfirst k hk
    · next hne hle =>
      have hdir : Path.partsLt dir.parts first.dir.parts = true := by simpa [Path.le] using hle
      refine List.pairwise_cons.2 ⟨fun g hg => ?_, h⟩
      rw [dir_add]
      rcases List.mem_cons.1 hg with rfl | hg
      · exact hdir
      · exact Path.partsLt_trans hdir (hfirst g hg)

/-- Adding a source changes the sources of its own directory only, where it comes last. -/
theorem sourcesIn_addToGroups {groups : List SourceGroup} (h : Sorted groups) (dir p : Path)
    (kind : UnitKind) (d : Path) (k : UnitKind) :
    sourcesIn d k (addToGroups dir p kind groups) =
      sourcesIn d k groups ++ if dir.same d = true ∧ kind = k then [p] else [] := by
  have hnew : ({ dir } : SourceGroup).dir = dir := rfl
  induction groups with
  | nil =>
    simp only [addToGroups, sourcesIn, dir_add, sources_add, sources_empty]
    cases dir.same d <;> simp
  | cons first rest ih =>
    obtain ⟨hfirst, hrest⟩ := List.pairwise_cons.1 h
    unfold addToGroups
    split
    · next hsame =>
      rw [sourcesIn, sourcesIn, dir_add, sources_add, Path.same_congr hsame]
      cases dir.same d <;> simp
    split
    · next hne hle =>
      rw [sourcesIn, sourcesIn, ih hrest]
      cases hd : first.dir.same d with
      | false => rfl
      | true =>
        have hdir : dir.same d = false := by
          rw [Path.same_comm, ← Path.same_congr hd, ← Bool.not_eq_true]
          exact hne
        simp [hdir]
    · next hne hle =>
      have hdir : Path.partsLt dir.parts first.dir.parts = true := by simpa [Path.le] using hle
      rw [sourcesIn, dir_add, sources_add, sources_empty, hnew]
      cases hd : dir.same d with
      | false => simp
      | true =>
        -- every group behind has a later directory
        have hnone : sourcesIn d k (first :: rest) = [] := by
          refine sourcesIn_of_forall fun g hg => ?_
          have hlater : Path.partsLt dir.parts g.dir.parts = true := by
            rcases List.mem_cons.1 hg with rfl | hg
            · exact hdir
            · exact Path.partsLt_trans hdir (hfirst g hg)
          rw [Path.same_comm, ← Path.same_congr hd]
          exact Path.not_same_of_partsLt hlater
        simp [hnone]

theorem groupByDirectory_append (paths : List Path) (p : Path) :
    groupByDirectory (paths ++ [p]) =
      match sourceKind? p with
      | some kind => addToGroups (sourceDir p) p kind (groupByDirectory paths)
      | none => groupByDirectory paths := by
  unfold groupByDirectory
  rw [List.foldl_append]
  rfl

theorem sorted_groupByDirectory (paths : List Path) : Sorted (groupByDirectory paths) := by
  induction paths using List.reverseRecOn with
  | nil => exact List.Pairwise.nil
  | append_singleton rest p ih =>
    rw [groupByDirectory_append]
    split
    · exact sorted_addToGroups ih _ _ _
    · exact ih

theorem sourcesIn_groupByDirectory (paths : List Path) (d : Path) (k : UnitKind) :
    sourcesIn d k (groupByDirectory paths) =
      paths.filter fun p => sourceKind? p = some k && (sourceDir p).same d := by
  induction paths using List.reverseRecOn with
  | nil => rfl
  | append_singleton rest p ih =>
    rw [groupByDirectory_append, List.filter_append, ← ih]
    cases hkind : sourceKind? p with
    | none => simp [hkind]
    | some kind =>
      dsimp only
      rw [sourcesIn_addToGroups (sorted_groupByDirectory rest)]
      cases hd : (sourceDir p).same d <;> by_cases hk : kind = k <;> simp [hkind, hd, hk]

theorem sources_eq_sourcesIn {groups : List SourceGroup} (h : Sorted groups) {g : SourceGroup}
    (hg : g ∈ groups) (k : UnitKind) : g.sources k = sourcesIn g.dir k groups := by
  induction groups with
  | nil => cases hg
  | cons first rest ih =>
    obtain ⟨hfirst, hrest⟩ := List.pairwise_cons.1 h
    rw [sourcesIn]
    rcases List.mem_cons.1 hg with rfl | hg
    · rw [if_pos (Path.same_iff.2 rfl)]
    · rw [Path.not_same_of_partsLt (hfirst g hg)]
      exact ih hrest hg

theorem exists_of_mem_sourcesIn {groups : List SourceGroup} {d p : Path} {k : UnitKind}
    (h : p ∈ sourcesIn d k groups) : ∃ g ∈ groups, p ∈ g.sources k := by
  induction groups with
  | nil => cases h
  | cons first rest ih =>
    rw [sourcesIn] at h
    split at h
    · exact ⟨first, List.mem_cons_self, h⟩
    · obtain ⟨g, hg, hp⟩ := ih h
      exact ⟨g, List.mem_cons_of_mem _ hg, hp⟩

/-- How paths are grouped: one group a directory, each with the sources of the directory in their
order. -/
structure Grouped (paths : List Path) (groups : List SourceGroup) : Prop where
  distinct : groups.Pairwise fun g h => g.dir.same h.dir = false
  sources : ∀ g ∈ groups, ∀ k,
    g.sources k = paths.filter fun p => sourceKind? p = some k && (sourceDir p).same g.dir
  once : ∀ p ∈ paths, ∀ k, sourceKind? p = some k →
    ∃! g, g ∈ groups ∧ (p ∈ g.documents ∨ p ∈ g.forms)

theorem grouped_groupByDirectory (paths : List Path) : Grouped paths (groupByDirectory paths) := by
  have hsorted := sorted_groupByDirectory paths
  have hsources : ∀ g ∈ groupByDirectory paths, ∀ k,
      g.sources k = paths.filter fun p => sourceKind? p = some k && (sourceDir p).same g.dir := by
    intro g hg k
    rw [sources_eq_sourcesIn hsorted hg, sourcesIn_groupByDirectory]
  have hdistinct : (groupByDirectory paths).Pairwise fun g h => g.dir.same h.dir = false :=
    hsorted.imp Path.not_same_of_partsLt
  have hdir {g : SourceGroup} (hg : g ∈ groupByDirectory paths) {p : Path} {k : UnitKind}
      (hp : p ∈ g.sources k) :
      (sourceDir p).same g.dir = true := by
    rw [hsources g hg, List.mem_filter, Bool.and_eq_true] at hp
    exact hp.2.2
  refine ⟨hdistinct, hsources, fun p hp k hk => ?_⟩
  have hmem : p ∈ sourcesIn (sourceDir p) k (groupByDirectory paths) := by
    rw [sourcesIn_groupByDirectory]
    exact List.mem_filter.2 ⟨hp, by simp [hk, Path.same_iff]⟩
  obtain ⟨g, hg, hpg⟩ := exists_of_mem_sourcesIn hmem
  refine ⟨g, ⟨hg, mem_sources.1 ⟨k, hpg⟩⟩, ?_⟩
  rintro h ⟨hh, hph⟩
  obtain ⟨k', hph⟩ := mem_sources.2 hph
  by_contra hne
  have hsymm : Std.Symm fun g h : SourceGroup => g.dir.same h.dir = false :=
    ⟨fun g h hgh => (Path.same_comm h.dir g.dir).trans hgh⟩
  have hother : h.dir.same g.dir = false := hdistinct.forall hh hg hne
  rw [← Path.same_congr (hdir hh hph), hdir hg hpg] at hother
  cases hother

theorem mem_groupByDirectory {paths : List Path} {g : SourceGroup} (hg : g ∈ groupByDirectory paths)
    {p : Path} (hp : p ∈ g.documents ++ g.forms) : p ∈ paths := by
  obtain ⟨k, hk⟩ := mem_sources.2 (List.mem_append.1 hp)
  rw [(grouped_groupByDirectory paths).sources g hg] at hk
  exact (List.mem_filter.1 hk).1

theorem perm_documents_addToGroups (dir p : Path) (kind : UnitKind) (groups : List SourceGroup) :
    ((addToGroups dir p kind groups).flatMap (·.documents)).Perm
      (groups.flatMap (·.documents) ++ if kind = .document then [p] else []) := by
  have hadd (g : SourceGroup) :
      (g.add p kind).documents = g.documents ++ if kind = .document then [p] else [] :=
    sources_add g p kind .document
  have hmove (a b c : List Path) : ((a ++ b) ++ c).Perm ((a ++ c) ++ b) := by
    rw [List.append_assoc, List.append_assoc]
    exact List.perm_append_comm.append_left a
  induction groups with
  | nil => simp [addToGroups, hadd]
  | cons first rest ih =>
    unfold addToGroups
    split
    · rw [List.flatMap_cons, List.flatMap_cons, hadd]
      exact hmove _ _ _
    split
    · rw [List.flatMap_cons, List.flatMap_cons, List.append_assoc]
      exact ih.append_left _
    · rw [List.flatMap_cons, hadd]
      exact List.perm_append_comm

theorem perm_documents_groupByDirectory (paths : List Path) :
    ((groupByDirectory paths).flatMap (·.documents)).Perm (paths.filter fun p => sourceKind? p
      = some .document) := by
  induction paths using List.reverseRecOn with
  | nil => exact .nil
  | append_singleton rest p ih =>
    rw [groupByDirectory_append, List.filter_append]
    cases hkind : sourceKind? p with
    | none => simpa [hkind] using ih
    | some kind =>
      have hlast : ([p].filter fun p => sourceKind? p = some .document) = if kind
          = .document then [p] else [] := by
        simp [List.filter_cons, hkind]
      rw [hlast]
      exact (perm_documents_addToGroups _ p kind _).trans (ih.append_right _)

end VippDocdef
