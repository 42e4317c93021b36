/-! Cutting texts at markers and searching in them. -/

set_option autoImplicit false

namespace VippDocdef.Text

def after? : (mark s : List Char) → Option (List Char)
  | [], s => some s
  | _ :: _, [] => none
  | m :: ms, c :: cs => if m = c then after? ms cs else none

def stripPrefix? (mark s : String) : Option String := (after? mark.toList s.toList).map .ofList

def stripSuffix? (mark s : String) : Option String :=
  (after? mark.toList.reverse s.toList.reverse).map fun r => .ofList r.reverse

def splitFirst? (mark : List Char) : List Char → Option (List Char × List Char)
  | [] => if mark.isEmpty then some ([], []) else none
  | c :: cs =>
    match after? mark (c :: cs) with
    | some rest => some ([], rest)
    | none => (splitFirst? mark cs).map fun (before, rest) => (c :: before, rest)

theorem append_of_after? {mark s rest : List Char} (h : after? mark s = some rest) :
    s = mark ++ rest := by
  induction mark generalizing s with
  | nil => simpa [after?] using h
  | cons m ms ih =>
    cases s with
    | nil => simp [after?] at h
    | cons c cs =>
      simp only [after?] at h
      split at h
      · next hm => rw [ih h, hm]; rfl
      · cases h

theorem after?_append (mark rest : List Char) : after? mark (mark ++ rest) = some rest := by
  induction mark with
  | nil => rfl
  | cons m ms ih => simp [after?, ih]

theorem eq_of_stripPrefix? {mark word rest : String} (h : stripPrefix? mark word = some rest) :
    word = mark ++ rest := by
  obtain ⟨cs, hcs, rfl⟩ := Option.map_eq_some_iff.1 h
  rw [← String.toList_inj, String.toList_append, String.toList_ofList]
  exact append_of_after? hcs

theorem eq_of_stripSuffix? {mark word rest : String} (h : stripSuffix? mark word = some rest) :
    word = rest ++ mark := by
  obtain ⟨cs, hcs, rfl⟩ := Option.map_eq_some_iff.1 h
  have hword := congrArg List.reverse (append_of_after? hcs)
  rw [List.reverse_reverse, List.reverse_append, List.reverse_reverse] at hword
  rw [← String.toList_inj, String.toList_append, String.toList_ofList, hword]

theorem stripPrefix?_eq_none {mark word : String} {c : Char} (hc : c ∈ mark.toList)
    (h : c ∉ word.toList) :
    stripPrefix? mark word = none := by
  rw [stripPrefix?, Option.map_eq_none_iff, Option.eq_none_iff_forall_ne_some]
  intro rest hrest
  apply h
  rw [append_of_after? hrest]
  exact List.mem_append_left _ hc

theorem splitFirst?_append {mark s before rest : List Char}
    (h : splitFirst? mark s = some (before, rest)) : s = before ++ mark ++ rest := by
  induction s generalizing before with
  | nil =>
    simp only [splitFirst?] at h
    split at h
    · next hm => simp_all
    · cases h
  | cons c cs ih =>
    simp only [splitFirst?] at h
    split at h
    · next r hr =>
      simp only [Option.some.injEq, Prod.mk.injEq] at h
      obtain ⟨rfl, rfl⟩ := h
      simpa using append_of_after? hr
    · obtain ⟨⟨b, r⟩, hb, heq⟩ := Option.map_eq_some_iff.1 h
      simp only [Prod.mk.injEq] at heq
      obtain ⟨rfl, rfl⟩ := heq
      simp [ih hb]

def splitLast? (c : Char) (s : String) : Option (String × String) :=
  let back := s.toList.reverse
  match back.dropWhile (· != c) with
  | [] => none
  | _ :: before => some (.ofList before.reverse, .ofList (back.takeWhile (· != c)).reverse)

theorem mem_of_splitLast? {c : Char} {text before behind : String}
    (h : splitLast? c text = some (before, behind)) {x : Char} (hx : x ∈ before.toList) :
    x ∈ text.toList := by
  unfold splitLast? at h
  dsimp only at h
  split at h
  · cases h
  · next d front hfront =>
    obtain ⟨rfl, -⟩ := Prod.mk.inj (Option.some.inj h)
    have hmem : x ∈ front := by simpa using hx
    have hdrop := (List.dropWhile_suffix (· != c)).subset (hfront ▸ List.mem_cons_of_mem d hmem)
    simpa using hdrop

def occurs (mark : List Char) (s : List Char) : Bool := (splitFirst? mark s).isSome

theorem occurs_iff {mark s : List Char} : occurs mark s = true ↔ mark <:+: s := by
  constructor
  · intro h
    obtain ⟨⟨before, rest⟩, hsplit⟩ := Option.isSome_iff_exists.1 h
    exact ⟨before, rest, (splitFirst?_append hsplit).symm⟩
  · rintro ⟨before, rest, rfl⟩
    unfold occurs
    induction before with
    | nil =>
      rw [List.nil_append]
      cases hs : mark ++ rest with
      | nil => simp [splitFirst?, (List.append_eq_nil_iff.1 hs).1]
      | cons c cs => simp [splitFirst?, ← hs, after?_append]
    | cons c before ih =>
      simp only [List.cons_append, splitFirst?]
      split
      · rfl
      · rw [Option.isSome_map]
        exact ih

def contains (s mark : String) : Bool := occurs mark.toList s.toList

def startsWith (s mark : String) : Bool := mark.toList.isPrefixOf s.toList

def endsWith (s mark : String) : Bool := mark.toList.isSuffixOf s.toList

end VippDocdef.Text
