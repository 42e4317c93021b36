import VippDocdef.Proofs.Fonts
import VippDocdef.Proofs.Independence

/-! Whose font a command selects. A program looks every alias up among the new names of its own
unit, also where the command comes out of a subroutine of another one. So a unit's own font is
selected in its own program, and elsewhere only where its alias was not renamed and the other unit
does not use it too. -/

set_option autoImplicit false

namespace VippDocdef

inductive Origin where
  | document
  | form (index : Nat)
  deriving DecidableEq, Repr

namespace Table

variable {α : Type}

theorem mem_keys_of_get? {t : Table α} {key : String} {value : α} (h : t.get? key = some value) :
    key ∈ t.keys :=
  List.mem_map.2 ⟨_, get?_eq_some.1 h, rfl⟩

theorem get?_eq_none {t : Table α} {key : String} : t.get? key = none ↔ key ∉ t.keys := by
  constructor
  · intro h hkey
    obtain ⟨⟨_, value⟩, hmem, rfl⟩ := List.mem_map.1 hkey
    rw [get?_eq_some.2 hmem] at h
    cases h
  · intro h
    cases hget : t.get? key with
    | none => rfl
    | some value => exact absurd (mem_keys_of_get? hget) h

end Table

namespace Project

def sorted (p : Project) : Project :=
  { p with forms := p.forms.mergeSort fun a b => decide (a.file ≤ b.file) }

def fontsOf (p : Project) : Origin → Table FontDef
  | .document => p.document.fonts
  | .form i => (p.forms[i]?.map (·.fonts)).getD {}

def subroutinesOf (p : Project) : Origin → Table (List Command)
  | .document => p.document.subroutines
  | .form i => (p.forms[i]?.map (·.subroutines)).getD {}

def renamesOf (p : Project) : Origin → Option RenameTable
  | .document => none
  | .form i => p.forms[i]?.map (·.renames)

/-- The alias that a unit's font has in the project. -/
def fontAliasOf (p : Project) (unit : Origin) (name : String) : String :=
  match p.renamesOf unit with
  | some table => table.font name
  | none => name

def owner (p : Project) (name : String) : Origin :=
  if p.document.subroutines.contains name then .document
  else .form (p.forms.findIdx (·.subroutines.contains name))

/-- Each font carries the alias it is stored under, and so does each color of a form. -/
def CarriesAliases (p : Project) : Prop :=
  (∀ e ∈ p.document.fonts.entries, e.2.aliasName = e.1) ∧ ∀ f ∈ p.forms, f.CarriesAliases

theorem carriesAliases_ofSources (document : String × String) (forms : List (String × String)) :
    (ofSources document forms).CarriesAliases := by
  refine ⟨fun e he => ((Declarations.carries_ofCommands _).fonts e he).carries, fun f hf => ?_⟩
  obtain ⟨s, -, rfl⟩ := List.mem_map.1 hf
  have h := Declarations.carries_ofCommands
    (commandsOf (significant s.2) ++ (Form.build s.1 s.2).commands)
  exact ⟨fun e he => (h.fonts e he).carries, h.colors⟩

theorem findSome?_subroutines (forms : List Form) (name : String) :
    forms.findSome? (·.subroutines.get? name)
      = (forms[forms.findIdx (·.subroutines.contains name)]?).bind (·.subroutines.get? name) := by
  induction forms with
  | nil => rfl
  | cons f rest ih =>
    cases hf : f.subroutines.get? name with
    | none => simp [hf, List.findIdx_cons, Table.contains, ih]
    | some body => simp [hf, List.findIdx_cons, Table.contains]

theorem get?_subroutinesOf_owner {p : Project} {name : String} {body : List Command}
    (h : p.subroutine? name = some body) :
    (p.subroutinesOf (p.owner name)).get? name = some body := by
  unfold subroutine? at h
  unfold owner
  split
  · next hdocument =>
    obtain ⟨found, hfound⟩ := Option.isSome_iff_exists.1 hdocument
    rw [hfound, Option.some_or] at h
    exact hfound.trans h
  · next hdocument =>
    rw [Option.not_isSome_iff_eq_none.1 hdocument, Option.none_or, findSome?_subroutines] at h
    obtain ⟨f, hf, hbody⟩ := Option.bind_eq_some_iff.1 h
    simpa [subroutinesOf, hf] using hbody

end Project

def Numbers (old new : String) : Prop := new = old ∨ ∃ n, new = Namespace.numbered old n

theorem Numbers.eq_of_toUpper {name x y : String} (hx : Numbers name x) (hy : Numbers name y)
    (h : x.toUpper = y.toUpper) : x = y := by
  rcases hx with rfl | ⟨i, rfl⟩ <;> rcases hy with rfl | ⟨j, rfl⟩
  · rfl
  · rw [Namespace.toUpper_numbered] at h
    exact absurd h.symm (Namespace.numbered_ne _ j)
  · rw [Namespace.toUpper_numbered] at h
    exact absurd h (Namespace.numbered_ne _ i)
  · rw [Namespace.toUpper_numbered, Namespace.toUpper_numbered] at h
    rw [Namespace.numbered_injective _ h]

theorem numbers_relabel {α : Type} (setAlias : α → String → α) (ns : Namespace)
    (entries : List (String × α)) : ∀ l ∈ relabel setAlias ns entries, Numbers l.old l.new := by
  induction entries generalizing ns with
  | nil => exact List.forall_mem_nil _
  | cons e rest ih => exact List.forall_mem_cons.2 ⟨ns.pick_eq e.1, ih (ns.claim e.1).2⟩

theorem numbers_resolveForms (fonts colors : Namespace) (forms : List Form) :
    ∀ f ∈ (resolveForms fonts colors forms).forms, ∀ e ∈ f.renames.fonts.entries,
      Numbers e.1 e.2 := by
  induction forms generalizing fonts colors with
  | nil => exact List.forall_mem_nil _
  | cons form rest ih =>
    rw [resolveForms_cons]
    refine List.forall_mem_cons.2 ⟨fun e he => ?_, ih _ _⟩
    obtain ⟨l, hl, rfl⟩ := List.mem_map.1 (entries_mapping FontDef.withAlias fonts form.fonts ▸ he)
    exact numbers_relabel _ fonts _ l hl

namespace Project

variable {p : Project}

theorem fontsOf_form {i : Nat} {f : Form} (h : p.forms[i]? = some f) :
    p.fontsOf (.form i) = f.fonts := by
  simp [fontsOf, h]

theorem fontsOf_of_none {i : Nat} (h : p.forms[i]? = none) : p.fontsOf (.form i) = {} := by
  simp [fontsOf, h]

theorem fontAliasOf_form {i : Nat} {f : Form} (h : p.forms[i]? = some f) (name : String) :
    p.fontAliasOf (.form i) name = (f.renames.fonts.get? name).getD name := by
  simp [fontAliasOf, renamesOf, h, RenameTable.font]

theorem fontAliasOf_of_none {i : Nat} (h : p.forms[i]? = none) (name : String) :
    p.fontAliasOf (.form i) name = name := by
  simp [fontAliasOf, renamesOf, h]

theorem numbers_fontAliasOf (unit : Origin) (name : String) :
    Numbers name (p.resolve.1.fontAliasOf unit name) := by
  cases unit with
  | document => exact .inl rfl
  | form i =>
    cases hf : p.resolve.1.forms[i]? with
    | none => exact .inl (fontAliasOf_of_none hf name)
    | some f =>
      rw [fontAliasOf_form hf]
      cases hget : f.renames.fonts.get? name with
      | none => exact .inl rfl
      | some got =>
        exact numbers_resolveForms _ _ _ f (List.mem_of_getElem? hf) _ (Table.get?_eq_some.1 hget)

theorem relabels_resolve (h : p.CarriesAliases) (i : Nat) :
    (p.sorted.forms[i]? = none ∧ p.resolve.1.forms[i]? = none) ∨
      ∃ old new, p.sorted.forms[i]? = some old ∧ p.resolve.1.forms[i]? = some new ∧
      old.Relabels new := by
  have hcarries : ∀ f ∈ p.sorted.forms, f.CarriesAliases :=
    fun f hf => h.2 f (List.mem_mergeSort.1 hf)
  have hforms : List.Forall₂ Form.Relabels p.sorted.forms p.resolve.1.forms :=
    relabels_resolveForms _ _ _ hcarries
  generalize p.sorted.forms = olds, p.resolve.1.forms = news at hforms
  induction hforms generalizing i with
  | nil => exact .inl ⟨rfl, rfl⟩
  | cons hhead htail ih =>
    cases i with
    | zero => exact .inr ⟨_, _, rfl, rfl, hhead⟩
    | succ i => exact ih i

theorem get?_fontsOf_resolve (h : p.CarriesAliases) {unit : Origin} {name : String} {f : FontDef}
    (hf : (p.sorted.fontsOf unit).get? name = some f) :
    (p.resolve.1.fontsOf unit).get? (p.resolve.1.fontAliasOf unit name)
      = some (f.withAlias (p.resolve.1.fontAliasOf unit name)) := by
  cases unit with
  | document =>
    have halias : f.aliasName = name := h.1 _ (Table.get?_eq_some.1 hf)
    have hsame : f.withAlias name = f := by rw [FontDef.withAlias, ← halias]
    show p.document.fonts.get? name = some (f.withAlias name)
    rw [hsame]
    exact hf
  | form i =>
    rcases relabels_resolve h i with ⟨hnone, -⟩ | ⟨old, new, hold, hnew, hrelabels⟩
    · rw [fontsOf_of_none hnone] at hf
      cases hf
    · rw [fontsOf_form hold] at hf
      obtain ⟨got, hgot, hvalue⟩ := hrelabels.fonts.definitions name f hf
      rw [fontsOf_form hnew, fontAliasOf_form hnew, hgot]
      exact hvalue

theorem fontAliasOf_of_get?_eq_none (h : p.CarriesAliases) {unit : Origin} {name : String}
    (hf : (p.sorted.fontsOf unit).get? name = none) : p.resolve.1.fontAliasOf unit name = name := by
  cases unit with
  | document => rfl
  | form i =>
    rcases relabels_resolve h i with ⟨-, hnone⟩ | ⟨old, new, hold, hnew, hrelabels⟩
    · exact fontAliasOf_of_none hnone name
    · rw [fontsOf_form hold, Table.get?_eq_none, ← hrelabels.fonts.domain, ← Table.get?_eq_none]
        at hf
      rw [fontAliasOf_form hnew, hf, Option.getD_none]

theorem mem_fontsOf_form {i : Nat} {name : String} (h : name ∈ (p.fontsOf (.form i)).keys) :
    ∃ f, p.forms[i]? = some f ∧ name ∈ f.fonts.keys := by
  cases hf : p.forms[i]? with
  | none =>
    rw [fontsOf_of_none hf] at h
    cases h
  | some f => exact ⟨f, rfl, fontsOf_form hf ▸ h⟩

theorem eq_of_mem_fontsOf_resolve {unit unit' : Origin} {name : String}
    (h : name ∈ (p.resolve.1.fontsOf unit).keys) (h' : name ∈ (p.resolve.1.fontsOf unit').keys) :
    unit = unit' := by
  have hnodup := p.nodup_fontEntries_resolve
  simp only [fontEntries, List.map_append, List.map_flatMap] at hnodup
  obtain ⟨-, hforms, hapart⟩ := List.nodup_append.1 hnodup
  have hdocument {i : Nat} (hdoc : name ∈ (p.resolve.1.fontsOf .document).keys)
      (hform : name ∈ (p.resolve.1.fontsOf (.form i)).keys) : False := by
    obtain ⟨f, hf, hname⟩ := mem_fontsOf_form hform
    exact hapart name hdoc name (List.mem_flatMap.2 ⟨f, List.mem_of_getElem? hf, hname⟩) rfl
  cases unit with
  | document =>
    cases unit' with
    | document => rfl
    | form j => exact (hdocument h h').elim
  | form i =>
    cases unit' with
    | document => exact (hdocument h' h).elim
    | form j =>
      have hless {i j : Nat} (hi : name ∈ (p.resolve.1.fontsOf (.form i)).keys)
          (hj : name ∈ (p.resolve.1.fontsOf (.form j)).keys) : ¬ i < j := by
        intro hlt
        obtain ⟨f, hf, hname⟩ := mem_fontsOf_form hi
        obtain ⟨g, hg, hname'⟩ := mem_fontsOf_form hj
        obtain ⟨hilt, rfl⟩ := List.getElem?_eq_some_iff.1 hf
        obtain ⟨hjlt, rfl⟩ := List.getElem?_eq_some_iff.1 hg
        have hdisjoint :=
          List.pairwise_iff_getElem.1 (List.nodup_flatMap.1 hforms).2 i j hilt hjlt hlt
        exact hdisjoint hname hname'
      have hle := hless h h'
      have hge := hless h' h
      rw [show i = j by omega]

theorem fontAliasOf_eq_iff (h : p.CarriesAliases) {unit program : Origin} {name : String}
    {f : FontDef} (hf : (p.sorted.fontsOf unit).get? name = some f) :
    p.resolve.1.fontAliasOf program name = p.resolve.1.fontAliasOf unit name ↔ program = unit ∨
      (p.sorted.fontsOf program).get? name = none ∧ p.resolve.1.fontAliasOf unit name = name := by
  constructor
  · intro heq
    cases hprogram : (p.sorted.fontsOf program).get? name with
    | none => exact .inr ⟨rfl, heq ▸ fontAliasOf_of_get?_eq_none h hprogram⟩
    | some f' =>
      have hkey := Table.mem_keys_of_get? (get?_fontsOf_resolve h hprogram)
      exact .inl (eq_of_mem_fontsOf_resolve hkey
        (heq ▸ Table.mem_keys_of_get? (get?_fontsOf_resolve h hf)))
  · rintro (rfl | ⟨hnone, hkept⟩)
    · rfl
    · rw [hkept, fontAliasOf_of_get?_eq_none h hnone]

end Project

/-- `p.Writes unit cs`: the commands `cs` stand in the source of the unit. -/
inductive Project.Writes (p : Project) : Origin → List Command → Prop where
  | case {c : Case} (mem : c ∈ p.document.cases) : p.Writes .document c.commands
  | form {i : Nat} {f : Form} (mem : p.forms[i]? = some f) : p.Writes (.form i) f.commands
  | subroutine {unit : Origin} {name : String} {body : List Command}
      (defined : (p.subroutinesOf unit).get? name = some body) : p.Writes unit body

namespace Docdef

def programEnv (settings : Settings) (p : Project) (program : Origin) : Env :=
  { settings, project := p, renames := p.renamesOf program }

def formStart (e : Env) (s : State) : State :=
  let start := s.beginSection e 0 0
  { start with sec := { start.sec with outlineOpen := true } }

/-- `Walked settings p program unit cs s`: the program of one unit walks commands `cs` of a unit,
starting in the state `s`. Subroutines may have a format of their own, or are expanded inside
another walk. -/
inductive Walked (settings : Settings) (p : Project) :
    (program unit : Origin) → List Command → State → Prop where
  | case {c : Case} {s : State} (formatted : c ∈ formatCases p.document)
      (fresh : s.expanding = []) :
      Walked settings p .document .document c.commands
        (s.beginSection (programEnv settings p .document) caseOrigin.1 caseOrigin.2)
  | form {i : Nat} {f : Form} {s : State} (mem : p.forms[i]? = some f) (fresh : s.expanding = []) :
      Walked settings p (.form i) (.form i) f.commands
        (formStart (programEnv settings p (.form i)) s)
  | format {program : Origin} {name : String} {body : List Command} {x y : Float} {s : State}
      (defined : p.subroutine? name = some body) (fresh : s.expanding = []) :
      Walked settings p program (p.owner name) body
        (s.inFormat (programEnv settings p program) x y name)
  | expansion {program unit : Origin} {cs body : List Command} {s t : State} {a : Action}
      {name : String}
      (outer : Walked settings p program unit cs s)
      (handed : (a, t) ∈ (Flow.ofCommands cs).handed (programEnv settings p program).walker s)
      (expands : t.expands? (programEnv settings p program) a = some (name, body)) :
      Walked settings p program (p.owner name) body (t.within name)

section Walks

variable {settings : Settings} {p : Project} {program unit : Origin} {cs : List Command} {s : State}

theorem Walked.nested (h : Walked settings p program unit cs s) :
    s.Nested (programEnv settings p program) := by
  induction h with
  | case formatted fresh => exact nested_of_nil fresh
  | form mem fresh => exact nested_of_nil fresh
  | @format program name body x y s defined fresh =>
    have hstart := State.expanding_inFormat (programEnv settings p program) x y fresh name
    exact ⟨by simp [hstart], by simpa [hstart] using ⟨body, defined⟩⟩
  | expansion outer handed expands ih =>
    exact (ih.of_eq (Flow.expanding_handed (Env.expanding_walker _) handed)).within expands

theorem Walked.writes (h : Walked settings p program unit cs s) : p.Writes unit cs := by
  cases h with
  | case formatted fresh => exact .case (List.mem_filter.1 formatted).1
  | form mem fresh => exact .form mem
  | format defined fresh => exact .subroutine (Project.get?_subroutinesOf_owner defined)
  | expansion outer handed expands =>
    exact .subroutine (Project.get?_subroutinesOf_owner (State.subroutine?_of_expands? expands))

end Walks

def programBodies (settings : Settings) (p : Project) (program : Origin) : List (String × Block) :=
  let e := programEnv settings p program
  match program with
  | .document =>
    let cases := caseBodies e (formatCases p.document) (.initial e)
    cases.bodies ++ (allRoutineBodies e caseOrigin.1 caseOrigin.2 cases.state).bodies
  | .form i =>
    match p.forms[i]? with
    | some f =>
      let body := formBody e f (.initial e)
      (f.formatName, body.block) :: (allRoutineBodies e 0 0 body.state).bodies
    | none => []

theorem defined_routineBodies (e : Env) (x y : Float) (most : Nat) (s : State) :
    ∀ name ∈ (routineBodies e x y most s).names, ∃ body, e.project.subroutine? name
      = some body := by
  induction most generalizing s with
  | zero => exact List.forall_mem_nil _
  | succ most ih =>
    unfold routineBodies
    split
    · exact List.forall_mem_nil _
    · split
      · exact ih _
      · next body hbody => exact List.forall_mem_cons.2 ⟨⟨body, hbody⟩, ih _⟩

section Coverage

variable (settings : Settings) (p : Project)

theorem walked_routineBodies (program : Origin) (x y : Float) {s : State} (hs : s.expanding = []) :
    ∀ b ∈ (allRoutineBodies (programEnv settings p program) x y s).bodies, ∃ unit cs t,
      Walked settings p program unit cs t ∧
      b.2 = (t.emit (programEnv settings p program) cs).block := by
  intro b hb
  have hbodies : (allRoutineBodies (programEnv settings p program) x y s).bodies = _ :=
    bodies_routineBodies _ x y hs
  rw [hbodies] at hb
  obtain ⟨name, hname, rfl⟩ := List.mem_map.1 hb
  obtain ⟨body, hbody⟩ := defined_routineBodies _ x y _ s name hname
  refine ⟨_, body, (State.initial (programEnv settings p program)).inFormat _ x y name,
    .format hbody rfl, ?_⟩
  show routineBlock _ x y name = _
  unfold routineBlock
  rw [hbody]
  rfl

theorem walked_programBodies (program : Origin) :
    ∀ b ∈ programBodies settings p program, ∃ unit cs s,
      Walked settings p program unit cs s ∧
      b.2 = (s.emit (programEnv settings p program) cs).block := by
  cases program with
  | document =>
    refine List.forall_mem_append.2 ⟨fun b hb => ?_, ?_⟩
    · rw [bodies_caseBodies _ rfl] at hb
      obtain ⟨c, hc, rfl⟩ := List.mem_map.1 hb
      exact ⟨_, _, (State.initial (programEnv settings p .document)).beginSection _ _ _,
        .case hc rfl, rfl⟩
    · exact walked_routineBodies settings p .document _ _ (expanding_caseFormats _)
  | form i =>
    unfold programBodies
    dsimp only
    split
    · next f hf =>
      let start := State.initial (programEnv settings p (.form i))
      refine List.forall_mem_cons.2 ⟨⟨_, _, formStart _ start, .form hf rfl, rfl⟩, ?_⟩
      exact walked_routineBodies settings p (.form i) 0 0 (expanding_emitNested _ _ f.commands _)
    · exact List.forall_mem_nil _

end Coverage

/-- Fonts on the walk of some commands of a unit, in the program of a unit; `p` is the project
before its aliases are resolved, and `q` behind. -/
structure SelectsFonts (settings : Settings) (p q : Project) (program unit : Origin)
    (cs : List Command) (s : State) : Prop where
  writes : q.Writes unit cs
  /-- The walk hands on the actions of its flow. -/
  unfolds : s.emit (programEnv settings q program) cs
    = (Flow.ofCommands cs).emit (programEnv settings q program).walker s
  /-- What the unit declares is registered under the alias it has in the project. -/
  registered : ∀ name f, (p.sorted.fontsOf unit).get? name = some f →
    (q.fontsOf unit).get? (q.fontAliasOf unit name) = some (f.withAlias (q.fontAliasOf unit name))
  /-- A selection of a font that the unit declares takes the one of the program. -/
  selects : ∀ name f t, (p.sorted.fontsOf unit).get? name = some f →
    (.font name, t) ∈ (Flow.ofCommands cs).handed (programEnv settings q program).walker s →
    (((programEnv settings q program).walker (.font name) t).state.sec.font
        = (q.fontAliasOf unit name).toUpper
      ↔ program = unit ∨ (p.sorted.fontsOf program).get? name = none ∧
      q.fontAliasOf unit name = name)

theorem fontAlias_programEnv (settings : Settings) (p : Project) (program : Origin)
    (name : String) :
    (programEnv settings p program).fontAlias name = (p.fontAliasOf program name).toUpper := by
  unfold Env.fontAlias Project.fontAliasOf programEnv
  cases p.renamesOf program <;> rfl

/-- Every body of a program is walked with the commands of one unit, and a font that this unit
declares is registered under an alias of its own. A selection takes that font if and only if the
program is that of the unit, or the program's unit has no font of the name and the unit's alias was
not changed. -/
theorem own_font_selected_iff (settings : Settings) (p : Project) (h : p.CarriesAliases)
    (program : Origin) :
    (∀ b ∈ programBodies settings p.resolve.1 program, ∃ unit cs s,
      Walked settings p.resolve.1 program unit cs s ∧
        b.2 = (s.emit (programEnv settings p.resolve.1 program) cs).block) ∧
    ∀ unit cs s, Walked settings p.resolve.1 program unit cs s →
      SelectsFonts settings p p.resolve.1 program unit cs s := by
  refine ⟨walked_programBodies settings p.resolve.1 program, fun unit cs s hwalked => ?_⟩
  refine ⟨hwalked.writes, emit_eq_walker hwalked.nested cs,
    fun name f hf => Project.get?_fontsOf_resolve h hf, fun name f t hf _ => ?_⟩
  show (programEnv settings p.resolve.1 program).fontAlias name = _ ↔ _
  rw [fontAlias_programEnv, ← Project.fontAliasOf_eq_iff h hf]
  refine ⟨fun heq => ?_, congrArg _⟩
  exact (Project.numbers_fontAliasOf program name).eq_of_toUpper
    (Project.numbers_fontAliasOf unit name) heq

/-- The document expands a subroutine of the form, which selects its own `F1`; the document's is
taken. -/
theorem expanded_font_of_caller :
    let p := Project.ofSources
      ("t.dbm", "/F1 /ARIAL 8 INDEXFONT\nCASE PREFIX\n(A) \x7b (S) SCALL \x7d\nENDCASE")
      [("a.frm", "/F1 /COURIER 9 INDEXFONT\n/S \x7b F1 (x) SH \x7d XGFRESDEF")]
    let q := p.resolve.1
    let lines := (programBodies {} q .document).flatMap fun b => b.2.lines.map (·.text)
    p.CarriesAliases ∧ q.owner "S" = .form 0 ∧ q.fontAliasOf (.form 0) "F1" = "F1_1" ∧
      lines.filter (Text.startsWith · "FONT") = ["FONT F1 NORMAL"] := by
  intro p q lines
  exact ⟨Project.carriesAliases_ofSources _ _, by decide +kernel +revert⟩

/-- The same selection in the program of the form and in that of the document. -/
theorem own_font_selected_iff_renamed :
    let font (face : String) : Table FontDef := .ofList [("F1", ⟨"F1", face, 8⟩)]
    let body : List Command :=
      [.act {} (.font "F1"), .act {} (.text { keyword := "SH", source := "(x)" })]
    let form : Form :=
      { file := "a.frm", fonts := font "COURIER", subroutines := .ofList [("S", body)] }
    let p : Project := { document := { fonts := font "ARIAL" }, forms := [form] }
    let e (program : Origin) : Env := programEnv {} p.resolve.1 program
    let start (program : Origin) : State := (State.initial (e program)).inFormat (e program) 0 0 "S"
    p.CarriesAliases ∧ (∀ program, Walked {} p.resolve.1 program (.form 0) body (start program)) ∧
      ((e (.form 0)).walker (.font "F1") (start (.form 0))).state.sec.font
        = (p.resolve.1.fontAliasOf (.form 0) "F1").toUpper ∧
      ((e .document).walker (.font "F1") (start .document)).state.sec.font
        ≠ (p.resolve.1.fontAliasOf (.form 0) "F1").toUpper := by
  intro font body form p e start
  have hcarries : p.CarriesAliases := by
    have hfont (face : String) : ∀ entry ∈ (font face).entries, entry.2.aliasName = entry.1 := by
      have hentries : (font face).entries = [("F1", ⟨"F1", face, 8⟩)] :=
        Table.entries_ofList (by simp)
      rw [hentries]
      simp
    refine ⟨hfont "ARIAL", fun f hf => ?_⟩
    obtain rfl := List.mem_singleton.1 hf
    exact ⟨hfont "COURIER", List.forall_mem_nil _⟩
  have howner : p.resolve.1.owner "S" = .form 0 := by decide +kernel
  have hwalked (program : Origin) :
      Walked {} p.resolve.1 program (.form 0) body (start program) := by
    rw [← howner]
    refine .format ?_ rfl
    simp only [p, Project.resolve, List.mergeSort_singleton]
    rfl
  have hdeclared : (p.sorted.fontsOf (.form 0)).get? "F1" = some ⟨"F1", "COURIER", 8⟩ := by
    have hsorted : p.sorted = p := by simp [Project.sorted, p]
    rw [hsorted]
    rfl
  have hhanded (program : Origin) :
      (.font "F1", start program) ∈ (Flow.ofCommands body).handed (e program).walker
        (start program) := by
    simp [body, Flow.ofCommands, Flow.handed, State.opensOutline, Action.isOutput]
  have hselects (program : Origin) :=
    ((own_font_selected_iff {} p hcarries program).2 _ _ _ (hwalked program)).selects "F1" _ _
      hdeclared (hhanded program)
  refine ⟨hcarries, hwalked, (hselects (.form 0)).2 (.inl rfl), fun heq => ?_⟩
  have hnot := (hselects .document).1 heq
  have hdocument : (p.sorted.fontsOf .document).get? "F1" = some ⟨"F1", "ARIAL", 8⟩ := by rfl
  rw [hdocument] at hnot
  simp at hnot

end Docdef

end VippDocdef
