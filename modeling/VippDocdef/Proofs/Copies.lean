import VippDocdef.Proofs.Fonts
import VippDocdef.Proofs.Reporting

/-! Files that are copied. A copy is made only where nothing stands, so whatever was there before
stays as it was, the files that are still to be copied among it. Nothing is made but copies, and
only a link that leads nowhere can lead one out of the target directory. -/

set_option autoImplicit false

namespace VippDocdef

namespace FileSystem

/-- What a file system is taken to be. A path leads to a place, through links where there are some,
and what is asked of the path is what is there. A file that is written where nothing is comes into
being where the path leads, and all else stays. A name in a directory leads right into it, unless it
is a link. -/
structure Places (σ : Type) [FileSystem σ] where
  get? : σ → Location → Option Entry
  Leads : σ → Path → Location → Prop
  /-- Where the names behind a path are looked for. -/
  Opens : σ → Path → Location → Prop
  IsLink : σ → Location → Prop
  leads_unique : ∀ {s : σ} {p : Path} {l m : Location}, Leads s p l → Leads s p m → l = m
  isFile_iff : ∀ {s : σ} {p : Path}, isFile s p = true ↔ ∃ l, Leads s p l ∧
    ((∃ content, get? s l = some (.file content)) ∨ get? s l = some .locked)
  contains_iff : ∀ {s : σ} {p : Path},
    contains s p = true ↔ ∃ l e, Leads s p l ∧ get? s l = some e
  read_iff : ∀ {s : σ} {p : Path} {content : ByteArray},
    read s p = .ok content ↔ ∃ l, Leads s p l ∧ get? s l = some (.file content)
  write_new : ∀ {s t : σ} {p : Path} {content : ByteArray}, contains s p = false →
    write s p content = .ok t → ∃ l, Leads s p l ∧ get? t l = some (.file content) ∧
      (∀ m, m ≠ l → get? t m = get? s m) ∧ (∀ q m, Leads t q m ↔ Leads s q m)
  leads_join : ∀ {s : σ} {dir : Path} {name : String} {l : Location}, Path.IsName name →
    Leads s (dir.join ⟨name⟩) l → ∃ d, Opens s dir d ∧ (l = d ++ [name] ∨ IsLink s (d ++ [name]))

variable {σ : Type} [FileSystem σ] {places : Places σ} {s t : σ} {target p : Path}

namespace Places

/-- All that `s` has is in `t` too, what else `t` has are files that were `made`, and paths lead
where they led. -/
structure Extends (places : Places σ) (made : Location → ByteArray → Prop) (s t : σ) : Prop where
  kept : ∀ l e, places.get? s l = some e → places.get? t l = some e
  new : ∀ l e, places.get? t l = some e → places.get? s l = some e ∨
    ∃ content, e = .file content ∧ made l content
  leads : ∀ p l, places.Leads t p l ↔ places.Leads s p l

namespace Extends

variable {made : Location → ByteArray → Prop} {u : σ}

theorem refl (made : Location → ByteArray → Prop) (s : σ) : places.Extends made s s :=
  ⟨fun _ _ h => h, fun _ _ h => .inl h, fun _ _ => .rfl⟩

theorem trans (h : places.Extends made s t) (h' : places.Extends made t u) :
    places.Extends made s u where
  kept l e hl := h'.kept l e (h.kept l e hl)
  new l e hl := (h'.new l e hl).elim (h.new l e) .inr
  leads p l := (h'.leads p l).trans (h.leads p l)

theorem read_eq (h : places.Extends made s t) {content : ByteArray} (hp : read s p = .ok content) :
    read t p = .ok content := by
  obtain ⟨l, hleads, hl⟩ := places.read_iff.1 hp
  exact places.read_iff.2 ⟨l, (h.leads p l).2 hleads, h.kept l _ hl⟩

theorem write {content : ByteArray} (habsent : contains s p = false)
    (hwrite : write s p content = .ok t) (hmade : ∀ l, places.Leads s p l → made l content) :
    places.Extends made s t := by
  obtain ⟨l, hleads, hl, hothers, hpaths⟩ := places.write_new habsent hwrite
  refine ⟨fun m e hm => ?_, fun m e hm => ?_, hpaths⟩
  · have hne : m ≠ l := by
      rintro rfl
      rw [places.contains_iff.2 ⟨m, e, hleads, hm⟩] at habsent
      cases habsent
    rw [hothers m hne, hm]
  · by_cases hml : m = l
    · subst hml
      exact .inr ⟨content, Option.some.inj (hm.symm.trans hl), hmade m hleads⟩
    · exact .inl (hothers m hml ▸ hm)

end Extends

end Places

end FileSystem

open FileSystem

section Resources

variable {σ : Type} [FileSystem σ] {s : σ} {root p : Path} {sources : List String} {name : String}

end Resources

def Store.places : Places Store where
  get? := Store.get?
  Leads s p l := s.locate p = .ok l
  Opens := Store.Opens
  IsLink _ _ := False
  leads_unique h h' := Except.ok.inj (h.symm.trans h')
  isFile_iff := Store.isFile_iff
  contains_iff := Store.contains_iff
  read_iff := Store.read_eq_ok
  write_new := Store.write_new
  leads_join hname h := by
    obtain ⟨d, hopens, hl⟩ := (Store.locate_join hname).1 h
    exact ⟨d, hopens, .inl hl⟩

/-- A store with links at some locations, each to a path. -/
structure LinkedStore where
  store : Store
  links : List (Location × Path)

namespace LinkedStore

def link? (s : LinkedStore) (p : Path) : Option Path :=
  (s.store.locate p).toOption.bind fun l => s.links.lookup l

def resolved (s : LinkedStore) (p : Path) : Path := (s.link? p).getD p

instance instFileSystemLinkedStore : FileSystem LinkedStore where
  find? s := Glob.find? s.store
  isFile s p := s.store.isFile (s.resolved p)
  contains s p := s.store.contains (s.resolved p)
  read s p := s.store.read (s.resolved p)
  write s p content := (s.store.write (s.resolved p) content).map fun t => { s with store := t }

theorem resolved_congr {s t : Store} (h : ∀ p l, t.locate p = .ok l ↔ s.locate p = .ok l)
    (links : List (Location × Path)) (p : Path) :
    resolved ⟨t, links⟩ p = resolved ⟨s, links⟩ p := by
  have hlocate : (t.locate p).toOption = (s.locate p).toOption := by
    cases hs : s.locate p with
    | ok l => rw [(h p l).2 hs]
    | error reason =>
      cases ht : t.locate p with
      | ok l => exact absurd ((h p l).1 ht) (by simp [hs])
      | error reason => rfl
  rw [resolved, resolved, link?, link?, hlocate]

def places : Places LinkedStore where
  get? s := s.store.get?
  Leads s p l := s.store.locate (s.resolved p) = .ok l
  Opens s := s.store.Opens
  IsLink s l := (s.links.lookup l).isSome = true
  leads_unique h h' := Except.ok.inj (h.symm.trans h')
  isFile_iff := Store.isFile_iff
  contains_iff := Store.contains_iff
  read_iff := Store.read_eq_ok
  write_new {s t p content} habsent h := by
    change (s.store.write (s.resolved p) content).map _ = .ok t at h
    cases hwrite : s.store.write (s.resolved p) content with
    | error reason =>
      rw [hwrite] at h
      cases h
    | ok store =>
      rw [hwrite] at h
      obtain rfl := Except.ok.inj h
      obtain ⟨l, hleads, hl, hothers, hpaths⟩ := Store.write_new habsent hwrite
      refine ⟨l, hleads, hl, hothers, fun q m => ?_⟩
      rw [resolved_congr hpaths]
      exact hpaths _ m
  leads_join {s dir name l} hname h := by
    cases hlocate : s.store.locate (dir.join ⟨name⟩) with
    | error reason =>
      simp only [resolved, link?, hlocate, Except.toOption, Option.bind_none, Option.getD_none] at h
      cases h
    | ok m =>
      obtain ⟨d, hopens, rfl⟩ := (Store.locate_join hname).1 hlocate
      refine ⟨d, hopens, ?_⟩
      cases hlink : s.links.lookup (d ++ [name]) with
      | some aim => exact .inr (by simp)
      | none =>
        simp only [resolved, link?, hlocate, Except.toOption, Option.bind_some, hlink,
          Option.getD_none] at h
        exact .inl (Except.ok.inj h).symm

end LinkedStore

end VippDocdef
