import VippDocdef.Document

/-! Aliases of fonts and colors across a project. The document keeps its aliases; a form's alias
that is taken already gets a number behind it. -/

set_option autoImplicit false

namespace VippDocdef

/-- The names taken so far, and the last number tried behind each name that was asked for while it
was taken. -/
structure Namespace where
  used : List String
  counters : Table Nat
  deriving Repr

namespace Namespace

def ofNames (names : List String) : Namespace := ⟨names, {}⟩

def numbered (name : String) (n : Nat) : String := s!"{name}_{n}"

theorem toList_numbered (name : String) (n : Nat) :
    (numbered name n).toList = name.toList ++ '_' :: Nat.toDigits 10 n := by
  simp [numbered, toString, Nat.repr_eq_ofList_toDigits]

def numberBehind (name text : String) : Nat :=
  Nat.ofDigitChars 10 (text.toList.drop (name.toList.length + 1)) 0

@[simp] theorem numberBehind_numbered (name : String) (n : Nat) :
    numberBehind name (numbered name n) = n := by
  rw [numberBehind, toList_numbered, List.append_cons, List.drop_left' (by simp),
    Nat.ofDigitChars_ten_toDigits]

def counter (ns : Namespace) (name : String) : Nat := (ns.counters.get? name).getD 0

def candidate (ns : Namespace) (name : String) : String := numbered name (ns.counter name + 1)

def advance (ns : Namespace) (name : String) : Namespace :=
  { ns with counters := ns.counters.insert name (ns.counter name + 1) }

def take (ns : Namespace) (name : String) : Namespace := { ns with used := name :: ns.used }

@[simp] theorem used_advance (ns : Namespace) (name : String) :
    (ns.advance name).used = ns.used := rfl

@[simp] theorem used_take (ns : Namespace) (name : String) :
    (ns.take name).used = name :: ns.used := rfl

@[simp] theorem counter_ofNames (names : List String) (name : String) :
    (ofNames names).counter name = 0 := rfl

@[simp] theorem counter_take (ns : Namespace) (got name : String) :
    (ns.take got).counter name = ns.counter name := rfl

@[simp] theorem counter_advance_self (ns : Namespace) (name : String) :
    (ns.advance name).counter name = ns.counter name + 1 := by
  simp [advance, counter]

theorem counter_advance_ne (ns : Namespace) {name other : String} (h : other ≠ name) :
    (ns.advance name).counter other = ns.counter other := by
  simp [advance, counter, Table.get?_insert_ne _ h]

def ahead (ns : Namespace) (name : String) : List String :=
  ns.used.filter (ns.counter name < numberBehind name ·)

theorem length_ahead_advance {ns : Namespace} {name : String} (h : ns.candidate name ∈ ns.used) :
    ((ns.advance name).ahead name).length < (ns.ahead name).length := by
  have hnumber : numberBehind name (ns.candidate name) = ns.counter name + 1 :=
    numberBehind_numbered ..
  have hfewer : (ns.advance name).ahead name
      = (ns.ahead name).filter (ns.counter name + 1 < numberBehind name ·) := by
    simp only [ahead, List.filter_filter, counter_advance_self, used_advance]
    refine List.filter_congr fun text _ => ?_
    grind
  rw [hfewer, List.length_filter_lt_length_iff_exists]
  exact ⟨ns.candidate name, List.mem_filter.2 ⟨h, by simp [hnumber]⟩, by simp [hnumber]⟩

def claimNumbered (ns : Namespace) (name : String) : String × Namespace :=
  if ns.used.contains (ns.candidate name) then (ns.advance name).claimNumbered name
  else (ns.candidate name, (ns.advance name).take (ns.candidate name))
termination_by (ns.ahead name).length
decreasing_by exact length_ahead_advance (List.contains_iff_mem.1 ‹_›)

/-- Takes a name, or one with a number behind it if it is taken already, and tells which one it
got. -/
def claim (ns : Namespace) (name : String) : String × Namespace :=
  if ns.used.contains name then ns.claimNumbered name else (name, ns.take name)

end Namespace

inductive AliasKind where
  | font
  | color
  deriving DecidableEq, Repr

structure Rename where
  form : String
  kind : AliasKind
  old : String
  new : String
  deriving DecidableEq, Repr

structure Renamed (α : Type) where
  table : Table α := {}
  mapping : Table String := {}

def renameEntries {α : Type} (setAlias : α → String → α) :
    Namespace → List (String × α) → Renamed α → Renamed α × Namespace
  | ns, [], r => (r, ns)
  | ns, (name, value) :: rest, r =>
    let (got, ns) := ns.claim name
    let value := if got = name then value else setAlias value got
    renameEntries setAlias ns rest
      { table := r.table.insert got value, mapping := r.mapping.insert name got }

def changes (form : String) (kind : AliasKind) (mapping : Table String) : List Rename :=
  mapping.entries.filterMap fun (old, new) =>
    if old = new then none else some ⟨form, kind, old, new⟩

structure Resolved where
  forms : List Form := []
  renames : List Rename := []

def resolveForms : (fonts colors : Namespace) → List Form → Resolved
  | _, _, [] => {}
  | fonts, colors, form :: rest =>
    let (newFonts, fonts) :=
      renameEntries (fun (f : FontDef) a => { f with aliasName := a }) fonts form.fonts.entries {}
    let (newColors, colors) :=
      renameEntries (fun (c : ColorDef) a => { c with aliasName := a }) colors
        form.colors.entries {}
    let renamed := { form with
      fonts := newFonts.table, colors := newColors.table
      renames := ⟨newFonts.mapping, newColors.mapping⟩ }
    let others := resolveForms fonts colors rest
    { forms := renamed :: others.forms
      renames := changes form.file .font newFonts.mapping
        ++ changes form.file .color newColors.mapping ++ others.renames }

/-- Makes the aliases of a project distinct; the forms are taken in the order of their names. -/
def Project.resolve (p : Project) : Project × List Rename :=
  let sorted := p.forms.mergeSort fun a b => decide (a.file ≤ b.file)
  let r := resolveForms (.ofNames p.document.fonts.keys) (.ofNames p.document.colors.keys) sorted
  ({ p with forms := r.forms }, r.renames)

end VippDocdef
