import Mathlib.Data.List.Nodup
import Mathlib.Data.List.Perm.Subperm
import Mathlib.Order.Bounds.Defs
import VippDocdef.Aliases

/-! Names with numbers. A claim for a name that is taken goes on from the last number tried behind
it. It comes to an end, for only so many names are taken and no two numbers give the same name. It
misses no smaller number, for whatever the counter has passed is taken, be it by claims of the name
or of others that look like it with a number. -/

set_option autoImplicit false

namespace VippDocdef

namespace Namespace

theorem numbered_injective (name : String) {i j : Nat} (h : numbered name i = numbered name j) :
    i = j := by
  rw [← numberBehind_numbered name i, h, numberBehind_numbered]

theorem numbered_ne (name : String) (n : Nat) : numbered name n ≠ name := by
  intro h
  have hlength := congrArg (fun s => s.toList.length) h
  simp only [toList_numbered, List.length_append, List.length_cons] at hlength
  omega

/-- The search as it goes, with no bound set to it: `Tries name k ns r` says that try number `k` is
its last one and `r` its result. -/
inductive Tries (name : String) : Nat → Namespace → String × Namespace → Prop
  | free {ns : Namespace} (h : ns.candidate name ∉ ns.used) :
    Tries name 1 ns (ns.candidate name, (ns.advance name).take (ns.candidate name))
  | taken {ns : Namespace} {k : Nat} {r : String × Namespace} (h : ns.candidate name ∈ ns.used)
    (later : Tries name k (ns.advance name) r) : Tries name (k + 1) ns r

theorem exists_tries (ns : Namespace) (name : String) :
    ∃ k, Tries name k ns (ns.claimNumbered name) := by
  fun_induction claimNumbered ns name with
  | case1 ns h ih =>
    obtain ⟨k, hk⟩ := ih
    exact ⟨k + 1, .taken (List.contains_iff_mem.1 h) hk⟩
  | case2 ns h => exact ⟨1, .free (by simpa using h)⟩

/-- What `k` tries have come to: a name that is free, with all the numbers between it and the
counter taken. -/
structure Found (name : String) (k : Nat) (ns : Namespace) (r : String × Namespace) : Prop where
  pos : 1 ≤ k
  got : r.1 = numbered name (ns.counter name + k)
  fresh : r.1 ∉ ns.used
  passed : ∀ n, ns.counter name < n → n < ns.counter name + k → numbered name n ∈ ns.used
  used : r.2.used = r.1 :: ns.used
  counter : r.2.counter name = ns.counter name + k
  others : ∀ other, other ≠ name → r.2.counter other = ns.counter other

theorem Tries.found {name : String} {k : Nat} {ns : Namespace} {r : String × Namespace}
    (h : Tries name k ns r) : Found name k ns r := by
  induction h with
  | free h =>
    refine ⟨Nat.le_refl 1, rfl, h, fun n hlow hhigh => ?_, rfl, by simp, fun other hother => ?_⟩
    · omega
    · simp [counter_advance_ne _ hother]
  | @taken ns k r h later ih =>
    have hcounter : (ns.advance name).counter name + k = ns.counter name + (k + 1) := by
      rw [counter_advance_self]
      omega
    refine ⟨by omega, hcounter ▸ ih.got, ih.fresh, fun n hlow hhigh => ?_, ih.used,
      hcounter ▸ ih.counter, fun other hother => ?_⟩
    · -- the number just tried, or one that a later try passes
      rcases Nat.eq_or_lt_of_le hlow with rfl | hlow
      · exact h
      · exact ih.passed n (by simpa using hlow) (by omega)
    · rw [ih.others other hother, counter_advance_ne _ hother]

theorem claim_cases (ns : Namespace) (name : String) :
    (name ∉ ns.used ∧ ns.claim name = (name, ns.take name)) ∨
      (name ∈ ns.used ∧ ∃ k, Tries name k ns (ns.claim name)) := by
  by_cases h : name ∈ ns.used
  · have hclaim : ns.claim name = ns.claimNumbered name := if_pos (List.contains_iff_mem.2 h)
    rw [hclaim]
    exact .inr ⟨h, ns.exists_tries name⟩
  · exact .inl ⟨h, if_neg (by simpa using h)⟩

def pick (ns : Namespace) (name : String) : String := (ns.claim name).1

theorem pick_not_mem (ns : Namespace) (name : String) : ns.pick name ∉ ns.used := by
  rcases ns.claim_cases name with ⟨hfree, heq⟩ | ⟨-, k, htries⟩
  · simpa [pick, heq] using hfree
  · exact htries.found.fresh

@[simp] theorem used_claim (ns : Namespace) (name : String) :
    (ns.claim name).2.used = ns.pick name :: ns.used := by
  rcases ns.claim_cases name with ⟨-, heq⟩ | ⟨-, k, htries⟩
  · simp [pick, heq]
  · exact htries.found.used

theorem pick_eq (ns : Namespace) (name : String) :
    ns.pick name = name ∨ ∃ n, ns.pick name = numbered name n := by
  rcases ns.claim_cases name with ⟨-, heq⟩ | ⟨-, k, htries⟩
  · exact .inl (by rw [pick, heq])
  · exact .inr ⟨_, htries.found.got⟩

theorem pick_ne_iff (ns : Namespace) (name : String) : ns.pick name ≠ name ↔ name ∈ ns.used := by
  rcases ns.claim_cases name with ⟨hfree, heq⟩ | ⟨htaken, k, htries⟩
  · simp [pick, heq, hfree]
  · refine iff_of_true ?_ htaken
    rw [pick, htries.found.got]
    exact numbered_ne name _

/-- The namespaces that claims lead to. -/
inductive Reachable : Namespace → Prop
  | ofNames (names : List String) : Reachable (ofNames names)
  | claim {ns : Namespace} (h : Reachable ns) (name : String) : Reachable (ns.claim name).2

/-- No number up to the counter of a name gives a name that is free. -/
def Filled (ns : Namespace) : Prop :=
  ∀ name n, 1 ≤ n → n ≤ ns.counter name → numbered name n ∈ ns.used

theorem filled_ofNames (names : List String) : (ofNames names).Filled := by
  intro name n hpos hle
  rw [counter_ofNames] at hle
  omega

theorem Filled.claim {ns : Namespace} (h : ns.Filled) (name : String) :
    (ns.claim name).2.Filled := by
  intro other n hpos hle
  have hkept {x : String} (hx : x ∈ ns.used) : x ∈ (ns.claim name).2.used := by
    rw [used_claim]
    exact List.mem_cons_of_mem _ hx
  rcases ns.claim_cases name with ⟨-, heq⟩ | ⟨-, k, htries⟩
  · rw [heq, counter_take] at hle
    exact hkept (h other n hpos hle)
  · have hfound := htries.found
    by_cases hother : other = name
    · subst hother
      rw [hfound.counter] at hle
      -- a number that was passed before, one that was passed now, or the one that was given
      rcases Nat.lt_or_ge (ns.counter other) n with hlow | hlow
      · rcases Nat.eq_or_lt_of_le hle with rfl | hhigh
        · rw [used_claim, ← hfound.got]
          exact List.mem_cons_self
        · exact hkept (hfound.passed n hlow hhigh)
      · exact hkept (h other n hpos hlow)
    · rw [hfound.others other hother] at hle
      exact hkept (h other n hpos hle)

theorem Reachable.filled {ns : Namespace} (h : ns.Reachable) : ns.Filled := by
  induction h with
  | ofNames names => exact filled_ofNames names
  | claim _ name ih => exact ih.claim name

/-- The numbers from one on that make a free name of a name. -/
def freeNumbers (ns : Namespace) (name : String) : Set Nat :=
  {n | 1 ≤ n ∧ numbered name n ∉ ns.used}

theorem Found.isLeast {name : String} {k : Nat} {ns : Namespace} {r : String × Namespace}
    (h : Found name k ns r) (hfilled : ns.Filled) :
    IsLeast (ns.freeNumbers name) (ns.counter name + k) := by
  refine ⟨⟨Nat.le_add_left_of_le h.pos, h.got ▸ h.fresh⟩, fun n hn => ?_⟩
  by_contra hsmall
  rcases Nat.lt_or_ge (ns.counter name) n with hlow | hlow
  · exact hn.2 (h.passed n hlow (Nat.lt_of_not_le hsmall))
  · exact hn.2 (hfilled name n hn.1 hlow)

theorem exists_free (used : List String) (name : String) :
    ∃ n ∈ List.range (used.length + 1), numbered name (n + 1) ∉ used := by
  by_contra hall
  push Not at hall
  have hinj : Function.Injective fun n => numbered name (n + 1) := by
    intro i j hij
    have := numbered_injective name hij
    omega
  have hnodup := List.nodup_range (n := used.length + 1) |>.map hinj
  have hsub : (List.range (used.length + 1)).map (fun n => numbered name (n + 1)) ⊆ used := by
    intro x hx
    obtain ⟨n, hn, rfl⟩ := List.mem_map.1 hx
    exact hall n hn
  have hlen := (List.subperm_of_subset hnodup hsub).length_le
  simp only [List.length_map, List.length_range] at hlen
  omega

theorem le_length_of_isLeast {ns : Namespace} {name : String} {n : Nat}
    (h : IsLeast (ns.freeNumbers name) n) (htaken : name ∈ ns.used) : n ≤ ns.used.length := by
  obtain ⟨m, hm, hfree⟩ := exists_free (ns.used.erase name) name
  rw [List.mem_range, List.length_erase_of_mem htaken] at hm
  rw [List.mem_erase_of_ne (numbered_ne name _)] at hfree
  have hle : n ≤ m + 1 := h.2 ⟨Nat.le_add_left 1 m, hfree⟩
  have hpos := List.length_pos_of_mem htaken
  omega

/-- What a claim does, whatever claims came before it. A name that is free is given as it is. Else
the search ends, with the least number from one on that makes a free name of it, and this number is
at most the number of names taken. What is given was free, and it alone is taken in addition. -/
theorem claim_gives_least {ns : Namespace} (h : ns.Reachable) (name : String) :
    (name ∉ ns.used → (ns.claim name).1 = name) ∧
    (name ∈ ns.used → ∃ n, IsLeast (ns.freeNumbers name) n ∧ (ns.claim name).1 = numbered name n ∧
      n ≤ ns.used.length ∧
      ∃ tries, ns.counter name + tries = n ∧ Tries name tries ns (ns.claim name)) ∧
    (ns.claim name).1 ∉ ns.used ∧
    ∀ other, other ∈ (ns.claim name).2.used ↔ other = (ns.claim name).1 ∨ other ∈ ns.used := by
  refine ⟨fun hfree => ?_, fun htaken => ?_, ns.pick_not_mem name, fun other => ?_⟩
  · by_contra hne
    exact hfree ((ns.pick_ne_iff name).1 hne)
  · rcases ns.claim_cases name with ⟨hfree, -⟩ | ⟨-, k, htries⟩
    · exact absurd htaken hfree
    · have hleast := htries.found.isLeast h.filled
      exact ⟨_, hleast, htries.found.got, le_length_of_isLeast hleast htaken, k, rfl, htries⟩
  · rw [used_claim, List.mem_cons, pick]

/-- `F1` has got the number 1, and 2 and 3 are taken by names that only look like it. -/
theorem claim_gives_least_passing :
    let ns : Namespace := (((ofNames ["F1", "F1_2"]).claim "F1").2.claim "F1_3").2
    ns.Reachable ∧ ns.used = ["F1_3", "F1_1", "F1", "F1_2"] ∧ ns.counter "F1" = 1 ∧
      (ns.claim "F1").1 = "F1_4" ∧ IsLeast (ns.freeNumbers "F1") 4 ∧
      Tries "F1" 3 ns (ns.claim "F1") := by
  intro ns
  have hreachable : ns.Reachable := .claim (.claim (.ofNames _) _) _
  have hused : ns.used = ["F1_3", "F1_1", "F1", "F1_2"] := by decide +kernel
  have hcounter : ns.counter "F1" = 1 := by decide +kernel
  have hgot : (ns.claim "F1").1 = numbered "F1" 4 := by decide +kernel
  obtain ⟨-, htaken, -, -⟩ := claim_gives_least hreachable "F1"
  obtain ⟨n, hleast, hn, -, tries, htries, hrun⟩ := htaken (by rw [hused]; decide)
  obtain rfl : n = 4 := numbered_injective "F1" (hn.symm.trans hgot)
  obtain rfl : tries = 3 := by omega
  exact ⟨hreachable, hused, hcounter, hgot, hleast, hrun⟩

end Namespace

end VippDocdef
