/-! Tables: associations from names to values, in the order of the names. -/

set_option autoImplicit false

namespace VippDocdef

/-- Entries in ascending order of their keys, each key once. -/
@[ext] structure Table (α : Type) where
  entries : List (String × α)
  ordered : entries.Pairwise (fun a b => a.1 < b.1)
  deriving Repr

namespace Table

variable {α β : Type}

instance : EmptyCollection (Table α) := ⟨⟨[], .nil⟩⟩

@[simp] theorem entries_empty : ({} : Table α).entries = [] := rfl

def insertEntry (key : String) (value : α) : List (String × α) → List (String × α)
  | [] => [(key, value)]
  | (k, v) :: rest =>
    if key < k then (key, value) :: (k, v) :: rest
    else if key = k then (key, value) :: rest
    else (k, v) :: insertEntry key value rest

theorem mem_insertEntry {key : String} {value : α} {e : String × α} {entries : List (String × α)}
    (h : e ∈ insertEntry key value entries) : e = (key, value) ∨ e ∈ entries := by
  induction entries with
  | nil => simpa [insertEntry] using h
  | cons e' rest ih =>
    simp only [insertEntry] at h
    grind

theorem ordered_insertEntry (key : String) (value : α) {entries : List (String × α)}
    (h : entries.Pairwise (fun a b => a.1 < b.1)) :
    (insertEntry key value entries).Pairwise (fun a b => a.1 < b.1) := by
  induction entries with
  | nil => simp [insertEntry]
  | cons e rest ih =>
    obtain ⟨hhead, htail⟩ := List.pairwise_cons.1 h
    simp only [insertEntry]
    split
    · next hk =>
      refine List.pairwise_cons.2 ⟨fun x hx => ?_, h⟩
      rcases List.mem_cons.1 hx with rfl | hx
      · exact hk
      · exact String.lt_trans hk (hhead x hx)
    · split
      · next hk => exact List.pairwise_cons.2 ⟨fun x hx => by rw [hk]; exact hhead x hx, htail⟩
      · refine List.pairwise_cons.2 ⟨fun x hx => ?_, ih htail⟩
        rcases mem_insertEntry hx with rfl | hx
        · grind
        · exact hhead x hx

def insert (t : Table α) (key : String) (value : α) : Table α :=
  ⟨insertEntry key value t.entries, ordered_insertEntry key value t.ordered⟩

def findEntry (key : String) : List (String × α) → Option α
  | [] => none
  | (k, v) :: rest => if key = k then some v else findEntry key rest

def get? (t : Table α) (key : String) : Option α := findEntry key t.entries

def keys (t : Table α) : List String := t.entries.map (·.1)

def values (t : Table α) : List α := t.entries.map (·.2)

def contains (t : Table α) (key : String) : Bool := (t.get? key).isSome

/-- Inserts entries from left to right, so that the last one for a key stays. -/
def ofList (entries : List (String × α)) : Table α :=
  entries.foldl (fun t (k, v) => t.insert k v) {}

theorem findEntry_insertEntry_self (key : String) (value : α) (entries : List (String × α)) :
    findEntry key (insertEntry key value entries) = some value := by
  induction entries with
  | nil => simp [insertEntry, findEntry]
  | cons e rest ih =>
    simp only [insertEntry]
    split
    · simp [findEntry]
    · split
      · simp [findEntry]
      · next h => simp [findEntry, h, ih]

@[simp] theorem get?_insert_self (t : Table α) (key : String) (value : α) :
    (t.insert key value).get? key = some value :=
  findEntry_insertEntry_self key value t.entries

theorem findEntry_insertEntry_ne {key other : String} (h : other ≠ key) (value : α)
    (entries : List (String × α)) :
    findEntry other (insertEntry key value entries) = findEntry other entries := by
  induction entries with
  | nil => simp [insertEntry, findEntry, h]
  | cons e rest ih =>
    simp only [insertEntry]
    split
    · simp [findEntry, h]
    · split
      · next hk => simp [findEntry, ← hk, h]
      · simp [findEntry, ih]

theorem get?_insert_ne (t : Table α) {key other : String} (h : other ≠ key) (value : α) :
    (t.insert key value).get? other = t.get? other :=
  findEntry_insertEntry_ne h value t.entries

theorem nodup_keys (t : Table α) : t.keys.Nodup := by
  refine List.pairwise_map.2 (t.ordered.imp ?_)
  intro a b hlt heq
  exact String.lt_irrefl b.1 (heq ▸ hlt)

theorem findEntry_eq_some {key : String} {value : α} {entries : List (String × α)}
    (h : (entries.map (·.1)).Nodup) :
    findEntry key entries = some value ↔ (key, value) ∈ entries := by
  induction entries with
  | nil => simp [findEntry]
  | cons e rest ih =>
    obtain ⟨k, v⟩ := e
    obtain ⟨hk, hrest⟩ := List.nodup_cons.1 h
    by_cases hkey : key = k
    · have hnot : (key, value) ∉ rest := fun hm => hk (List.mem_map.2 ⟨_, hm, hkey⟩)
      simp [findEntry, hkey, hkey ▸ hnot, eq_comm]
    · simp [findEntry, hkey, ih hrest]

theorem get?_eq_some {t : Table α} {key : String} {value : α} :
    t.get? key = some value ↔ (key, value) ∈ t.entries :=
  findEntry_eq_some t.nodup_keys

theorem perm_insertEntry {key : String} (value : α) {entries : List (String × α)}
    (h : key ∉ entries.map (·.1)) :
    (insertEntry key value entries).Perm ((key, value) :: entries) := by
  induction entries with
  | nil => exact .refl _
  | cons e rest ih =>
    simp only [List.map_cons, List.mem_cons, not_or] at h
    simp only [insertEntry, if_neg h.1]
    split
    · exact .refl _
    · exact ((ih h.2).cons e).trans (.swap _ _ rest)

theorem perm_foldl_insert {entries : List (String × α)} {t : Table α}
    (h : (t.keys ++ entries.map (·.1)).Nodup) :
    (entries.foldl (fun t (k, v) => t.insert k v) t).entries.Perm (t.entries ++ entries) := by
  induction entries generalizing t with
  | nil => simp
  | cons e rest ih =>
    have hperm : (t.insert e.1 e.2).entries.Perm (e :: t.entries) := by
      refine perm_insertEntry e.2 fun hk => ?_
      exact (List.nodup_append.1 h).2.2 e.1 hk e.1 (by simp) rfl
    have hkeys :
        ((t.insert e.1 e.2).keys ++ rest.map (·.1)).Perm (t.keys ++ (e :: rest).map (·.1)) :=
      ((hperm.map (·.1)).append_right _).trans List.perm_middle.symm
    exact (ih (hkeys.nodup_iff.2 h)).trans ((hperm.append_right rest).trans List.perm_middle.symm)

theorem perm_ofList {entries : List (String × α)} (h : (entries.map (·.1)).Nodup) :
    (ofList entries).entries.Perm entries :=
  perm_foldl_insert (t := {}) (by simpa [keys] using h)

theorem mem_keys_insert {key other : String} {value : α} {t : Table α} :
    other ∈ (t.insert key value).keys ↔ other = key ∨ other ∈ t.keys := by
  obtain ⟨entries, hordered⟩ := t
  simp only [keys, insert]
  clear hordered
  induction entries with
  | nil => simp [insertEntry]
  | cons e rest ih =>
    simp only [insertEntry]
    split
    · simp
    · split
      · next hk => simp [hk]
      · rw [List.map_cons, List.map_cons, List.mem_cons, List.mem_cons, ih]
        exact or_left_comm

theorem mem_keys_ofList {key : String} {entries : List (String × α)} :
    key ∈ (ofList entries).keys ↔ key ∈ entries.map (·.1) := by
  have hfold (t : Table α) : key ∈ (entries.foldl (fun t (k, v) => t.insert k v) t).keys
      ↔ key ∈ t.keys ∨ key ∈ entries.map (·.1) := by
    induction entries generalizing t with
    | nil => simp
    | cons e rest ih =>
      rw [List.foldl_cons, ih, mem_keys_insert, List.map_cons, List.mem_cons, or_assoc,
        or_left_comm]
  have hempty : key ∉ ({} : Table α).keys := List.not_mem_nil
  rw [ofList, hfold, or_iff_right hempty]

theorem entries_ofList {entries : List (String × α)}
    (h : entries.Pairwise (fun a b => a.1 < b.1)) : (ofList entries).entries = entries := by
  have hnodup : (entries.map (·.1)).Nodup := nodup_keys ⟨entries, h⟩
  refine (perm_ofList hnodup).eq_of_pairwise ?_ (ofList entries).ordered h
  intro a b _ _ hab hba
  exact absurd hba (String.lt_asymm hab)

end Table

end VippDocdef
