import VippDocdef.CommandLine
import VippDocdef.Proofs.Reporting

/-! Every document is accounted for. A directory run reports on each document that it has found,
whatever fails on the way, and the exit code tells whether one of them has failed. -/

set_option autoImplicit false

namespace VippDocdef

namespace Record

def isForm (r : Record) : Bool := r = .ofForm r.source r.output

/-- The record of a document: its program is written, or something failed. -/
def IsDocument (r : Record) : Prop :=
  (∃ output, r = .ofDocument r.source output) ∨ ∃ message, r = .failed r.source message

theorem IsDocument.not_isForm {r : Record} (h : r.IsDocument) : r.isForm = false := by
  obtain ⟨source, output, outcome, message⟩ := r
  rcases h with ⟨output', h⟩ | ⟨message', h⟩
  · simp_all [ofDocument, isForm, ofForm]
  · simp_all [failed, isForm, ofForm]

theorem success_of_isForm {r : Record} (h : r.isForm = true) : r.outcome = .success := by
  rw [of_decide_eq_true h]
  rfl

end Record

/-- The records tell of some documents, one record each, and of forms whose program is written. -/
structure Tells (documents : List Path) (records : List Record) : Prop where
  sources : (records.filter fun r => !r.isForm).map (·.source) = documents.map Path.text
  others : ∀ r ∈ records, r.isForm = false → r.IsDocument

theorem Tells.append {a b : List Path} {r r' : List Record} (h : Tells a r) (h' : Tells b r') :
    Tells (a ++ b) (r ++ r') where
  sources := by rw [List.filter_append, List.map_append, List.map_append, h.sources, h'.sources]
  others := List.forall_mem_append.2 ⟨h.others, h'.others⟩

theorem tells_of_forms {records : List Record} (h : ∀ r ∈ records, r.isForm = true) :
    Tells [] records where
  sources := by
    rw [List.filter_eq_nil_iff.2 fun r hr => by simp [h r hr]]
    rfl
  others := fun r hr hnot => absurd (h r hr) (by simp [hnot])

theorem tells_of_isDocument {p : Path} {r : Record} (h : r.IsDocument)
    (hsource : r.source = p.text) :
    Tells [p] [r] where
  sources := by simp [h.not_isForm, hsource]
  others := fun r' hr' _ => List.mem_singleton.1 hr' ▸ h

namespace Converter

variable {c : Converter} {s : Store}

-- What a write does is known from the lemmas on files.
seal Store.write

theorem isForm_writeForms (project : Project) (paths : Table Path) (forms : List Form) :
    ∀ r ∈ (c.writeForms project paths forms s).1, r.isForm = true := by
  induction forms generalizing s with
  | nil => exact List.forall_mem_nil _
  | cons form rest ih =>
    rw [writeForms_cons]
    split
    · exact List.forall_mem_append.2 ⟨List.forall_mem_singleton.2 (decide_eq_true rfl), ih⟩
    · exact ih

theorem isDocument_writeDocument (project : Project) (p : Path) :
    (c.writeDocument project p s).1.IsDocument ∧ (c.writeDocument project p s).1.source
      = p.text := by
  unfold writeDocument
  dsimp only
  split
  · exact ⟨.inl ⟨_, rfl⟩, rfl⟩
  · exact ⟨.inr ⟨_, rfl⟩, rfl⟩

theorem tells_convertDocument (loaded : LoadedForms) (root p : Path) :
    Tells [p] (c.convertDocument loaded root p s).1 := by
  unfold convertDocument
  cases readSource s p with
  | error reason => exact tells_of_isDocument (.inr ⟨_, rfl⟩) rfl
  | ok text =>
    obtain ⟨hdocument, hsource⟩ := isDocument_writeDocument (c := c)
      (s := (c.writeForms (projectOf p.fileName text loaded.forms) loaded.paths
        (projectOf p.fileName text loaded.forms).forms s).2) (projectOf p.fileName text
          loaded.forms) p
    exact (tells_of_forms (isForm_writeForms _ _ _)).append (tells_of_isDocument hdocument hsource)

theorem tells_convertDocuments (loaded : LoadedForms) (root : Path) (paths : List Path) :
    Tells paths (c.convertDocuments loaded root paths s).1 := by
  induction paths generalizing s with
  | nil => exact tells_of_forms (List.forall_mem_nil _)
  | cons p rest ih => exact (tells_convertDocument loaded root p).append ih

theorem tells_convertGroup (root : Path) (g : SourceGroup) :
    Tells g.documents (c.convertGroup root g s).1 := by
  unfold convertGroup
  split
  · next hempty =>
    rw [List.isEmpty_iff.1 hempty]
    exact tells_of_forms (List.forall_mem_nil _)
  · exact tells_convertDocuments _ root g.documents

theorem tells_convertGroups (root : Path) (groups : List SourceGroup) :
    Tells (groups.flatMap (·.documents)) (c.convertGroups root groups s).1 := by
  induction groups generalizing s with
  | nil => exact tells_of_forms (List.forall_mem_nil _)
  | cons g rest ih => exact (tells_convertGroup root g).append ih

theorem tells_runDirectory {root : Path} {records : List Record} {t : Store}
    (h : c.runDirectory root s = (.ok records, t)) :
    ∃ sources, discoverSources? (c.start s) root = some sources ∧
      Tells ((groupByDirectory sources).flatMap (·.documents)) records := by
  unfold runDirectory at h
  split at h
  · cases (Prod.mk.inj h).1
  split at h
  · cases (Prod.mk.inj h).1
  · next start hstart =>
    obtain rfl : c.start s = start := congrArg Prod.snd hstart
    split at h
    · cases (Prod.mk.inj h).1
    · next sources hsources =>
      obtain ⟨rfl, -⟩ := finish_eq_ok h
      exact ⟨sources, hsources, tells_convertGroups root _⟩

theorem isDirectory_of_runDirectory {root : Path} {records : List Record} {t : Store}
    (h : c.runDirectory root s = (.ok records, t)) : s.isDirectory root = true := by
  unfold runDirectory at h
  split at h
  · cases (Prod.mk.inj h).1
  · next hdir => simpa using hdir

end Converter

theorem failureCount_eq_zero_iff (records : List Record) :
    failureCount records = 0 ↔ ∀ r ∈ records, r.isForm = false → r.outcome = .success := by
  rw [failureCount, List.countP_eq_zero]
  refine forall₂_congr fun r _ => ?_
  constructor
  · intro h _
    cases hr : r.outcome with
    | success => rfl
    | error => exact absurd (decide_eq_true hr) h
  · intro h herror
    have hsuccess : r.outcome = .success := by
      cases hform : r.isForm with
      | true => exact Record.success_of_isForm hform
      | false => exact h hform
    rw [of_decide_eq_true herror] at hsuccess
    cases hsuccess

namespace CommandLine

theorem inputFault?_of_isDirectory {s : Store} {input : Path} (h : s.isDirectory input = true) :
    inputFault? s false input = none := by
  have hcontains : s.contains input = true := by
    unfold Store.isDirectory at h
    split at h
    · next hentry => rw [Store.contains, hentry, Option.isSome_some]
    · cases h
  simp [inputFault?, hcontains, h]

theorem exitCodeOf_ne_zero (reason : RunError) : exitCodeOf reason ≠ 0 := by
  unfold exitCodeOf
  split <;> decide

theorem exitCode_start_iff (s : Store) (around : Surroundings) (date : Dating) (a : Arguments)
    (input : Path) (hsingle : a.has .singleFile = false) :
    (start s around date a input).exitCode = 0 ↔
      ∃ settings records t, loadSettings s around (a.config.map Path.mk) = .ok settings ∧
        (Converter.mk (settings.override a.overrides) date).runDirectory input s
          = (.ok records, t) ∧
        ∀ r ∈ records, r.isForm = false → r.outcome = .success := by
  unfold start
  rw [hsingle]
  split
  · next fault hfault =>
    refine iff_of_false (show exitUsage ≠ 0 by decide) ?_
    rintro ⟨settings, records, t, -, hrun, -⟩
    rw [inputFault?_of_isDirectory (Converter.isDirectory_of_runDirectory hrun)] at hfault
    cases hfault
  split
  · next reason hload =>
    refine iff_of_false (show exitError ≠ 0 by decide) ?_
    rintro ⟨settings, records, t, hsettings, -⟩
    cases hload.symm.trans hsettings
  · next settings hload =>
    unfold convert
    rw [if_neg (by decide)]
    split
    · next reason t hrun =>
      refine iff_of_false (exitCodeOf_ne_zero reason) ?_
      rintro ⟨settings', records, t', hsettings, hrun', -⟩
      obtain rfl := Except.ok.inj (hload.symm.trans hsettings)
      cases hrun.symm.trans hrun'
    · next records t hrun =>
      have hcode :
          (if failureCount records = 0 then 0 else exitError) = 0 ↔ failureCount records = 0 := by
        split
        · next hzero => simp [hzero]
        · next hsome => simp [hsome, exitError]
      refine hcode.trans ((failureCount_eq_zero_iff records).trans ⟨fun hgood => ?_, ?_⟩)
      · exact ⟨settings, records, t, hload, hrun, hgood⟩
      · rintro ⟨settings', records', t', hsettings, hrun', hgood⟩
        obtain rfl := Except.ok.inj (hload.symm.trans hsettings)
        obtain rfl := Except.ok.inj (Prod.mk.inj (hrun.symm.trans hrun')).1
        exact hgood

end CommandLine

/-- Grouping keeps every source, in one group and in order. A directory run reports once on each
document that it has found, all its other records are of forms whose program is written, and it ends
well if and only if no document has failed. -/
theorem no_document_lost :
    (∀ paths, Grouped paths (groupByDirectory paths)) ∧
    (∀ (c : Converter) (root : Path) (s t : Store) (records : List Record),
      c.runDirectory root s = (.ok records, t) →
      ∃ sources, discoverSources? (c.start s) root = some sources ∧
        ((records.filter fun r => !r.isForm).map (·.source)).Perm
          ((sources.filter fun p => sourceKind? p = some .document).map Path.text) ∧
        ∀ r ∈ records, r.isForm = false → r.IsDocument) ∧
    ∀ (s : Store) (around : Surroundings) (date : Dating) (a : CommandLine.Arguments)
      (input : Path), a.has .singleFile = false →
      ((CommandLine.start s around date a input).exitCode = 0 ↔
        ∃ settings records t, loadSettings s around (a.config.map Path.mk) = .ok settings ∧
          (Converter.mk (settings.override a.overrides) date).runDirectory input s
            = (.ok records, t) ∧
          ∀ r ∈ records, r.isForm = false → r.outcome = .success) := by
  refine ⟨grouped_groupByDirectory, fun c root s t records hrun => ?_,
    CommandLine.exitCode_start_iff⟩
  obtain ⟨sources, hsources, htells⟩ := Converter.tells_runDirectory hrun
  refine ⟨sources, hsources, ?_, htells.others⟩
  rw [htells.sources]
  exact (perm_documents_groupByDirectory sources).map _

/-- A document below a directory that cannot be read. -/
def lockedDocument : Store :=
  { entries := [(["in"], .directory), (["in", "x.dbm"], .locked), (["output"], .directory)] }

/-- The failure is reported, and the run does not end well. -/
theorem no_document_lost_lockedDocument :
    let c : Converter := { date := "" }
    let failed : Record :=
      .failed "in/x.dbm" "Failed to read in/x.dbm: Permission denied (os error 13)"
    (∃ t, c.runDirectory ⟨"in"⟩ lockedDocument = (.ok [failed], t)) ∧
      (([failed].filter fun r => !r.isForm).map (·.source)).Perm ["in/x.dbm"] ∧
      (CommandLine.start lockedDocument {} "" { input := some "in" } ⟨"in"⟩).exitCode ≠ 0 := by
  intro c failed
  obtain ⟨t, hrun⟩ : ∃ t, c.runDirectory ⟨"in"⟩ lockedDocument = (.ok [failed], t) := by
    have hoption : (c.runDirectory ⟨"in"⟩ lockedDocument).1.toOption = some [failed] := by
      decide +kernel
    refine ⟨(c.runDirectory ⟨"in"⟩ lockedDocument).2, Prod.ext ?_ rfl⟩
    cases hresult : (c.runDirectory ⟨"in"⟩ lockedDocument).1 with
    | error reason => simp [hresult, Except.toOption] at hoption
    | ok records => simpa [hresult, Except.toOption] using hoption
  obtain ⟨-, hruns, hexit⟩ := no_document_lost
  refine ⟨⟨t, hrun⟩, ?_, ?_⟩
  · obtain ⟨sources, hsources, hperm, -⟩ := hruns c ⟨"in"⟩ lockedDocument t [failed] hrun
    have hfound : discoverSources? (c.start lockedDocument) ⟨"in"⟩ = some [⟨"in/x.dbm"⟩] := by
      decide +kernel
    obtain rfl := Option.some.inj (hfound.symm.trans hsources)
    have hdocuments : ([⟨"in/x.dbm"⟩].filter fun p => sourceKind? p = some .document).map Path.text
        = ["in/x.dbm"] := by
      decide +kernel
    exact hdocuments ▸ hperm
  · rw [ne_eq, hexit lockedDocument {} "" { input := some "in" } ⟨"in"⟩ rfl]
    rintro ⟨settings, records, t', hsettings, hrun', hgood⟩
    have hdefault : loadSettings lockedDocument {} none = .ok {} := by
      unfold loadSettings
      rw [show (none : Option Path).or (findSettings lockedDocument {}) = none by decide +kernel]
    obtain rfl := Except.ok.inj (hdefault.symm.trans hsettings)
    obtain rfl := Except.ok.inj (Prod.mk.inj (hrun.symm.trans hrun')).1
    cases hgood failed List.mem_cons_self (by decide +kernel)

end VippDocdef
