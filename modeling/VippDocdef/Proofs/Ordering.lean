import VippDocdef.Proofs.Renaming
import VippDocdef.Proofs.Reporting

/-! What does not depend on an order. The forms of a project are taken by name, so it does not
matter how they are listed. Groups that write no file in common may be converted in any order: each
group reports what it would report alone, and the same files are left. -/

set_option autoImplicit false

namespace VippDocdef

theorem files_resolveForms (fonts colors : Namespace) (forms : List Form) :
    (resolveForms fonts colors forms).forms.map (·.file) = forms.map (·.file) := by
  induction forms generalizing fonts colors with
  | nil => rfl
  | cons form rest ih =>
    rw [resolveForms_cons]
    exact congrArg (form.file :: ·) (ih _ _)

theorem files_resolve (p : Project) :
    (p.resolve.1.forms.map (·.file)).Perm (p.forms.map (·.file)) := by
  have hfiles :=
    files_resolveForms (.ofNames p.document.fonts.keys) (.ofNames p.document.colors.keys)
    (p.forms.mergeSort fun a b => decide (a.file ≤ b.file))
  exact (List.Perm.of_eq hfiles).trans ((List.mergeSort_perm _ _).map _)

theorem sorted_forms_eq {forms others : List Form} (hperm : others.Perm forms)
    (hnodup : (forms.map (·.file)).Nodup) :
    (others.mergeSort fun a b => decide (a.file ≤ b.file)) = forms.mergeSort fun a b =>
      decide (a.file ≤ b.file) := by
  let le (a b : Form) : Bool := decide (a.file ≤ b.file)
  have hsorted (l : List Form) : (l.mergeSort le).Pairwise (fun a b => le a b = true) :=
    List.pairwise_mergeSort (by grind) (by grind) l
  have hsame : (others.mergeSort le).Perm (forms.mergeSort le) :=
    (List.mergeSort_perm others le).trans (hperm.trans (List.mergeSort_perm forms le).symm)
  refine hsame.eq_of_pairwise (fun a b ha hb hab hba => ?_) (hsorted others) (hsorted forms)
  have hfile : a.file = b.file := String.le_antisymm (of_decide_eq_true hab) (of_decide_eq_true hba)
  have ha' : a ∈ forms := hperm.mem_iff.1 (List.mem_mergeSort.1 ha)
  have hb' : b ∈ forms := List.mem_mergeSort.1 hb
  exact List.inj_on_of_nodup_map hnodup ha' hb' hfile

/-- The order in which the forms of a project are listed does not matter: they get the same aliases,
definitions and programs. A form of each name is there. -/
theorem resolve_form_order (settings : Settings) (date : String) (p q : Project)
    (hnodup : (p.forms.map (·.file)).Nodup) (hdocument : q.document = p.document)
    (hforms : q.forms.Perm p.forms) :
    q.resolve.2 = p.resolve.2 ∧ q.resolve.1.forms = p.resolve.1.forms ∧
      (∀ form ∈ p.forms, ∃! f, f ∈ p.resolve.1.forms ∧ f.file = form.file) ∧
      Docdef.Program.ofDocument settings date q.resolve.1
        = Docdef.Program.ofDocument settings date p.resolve.1 ∧
      ∀ f ∈ p.resolve.1.forms,
        Docdef.Program.ofForm settings q.resolve.1 f
          = Docdef.Program.ofForm settings p.resolve.1 f := by
  have hresolve : q.resolve = p.resolve := by
    unfold Project.resolve
    rw [sorted_forms_eq hforms hnodup, hdocument]
  have hfiles := files_resolve p
  have hdistinct : (p.resolve.1.forms.map (·.file)).Nodup := hfiles.nodup_iff.2 hnodup
  rw [hresolve]
  refine ⟨rfl, rfl, fun form hform => ?_, rfl, fun _ _ => rfl⟩
  obtain ⟨f, hf, hfile⟩ := List.mem_map.1 (hfiles.mem_iff.2 (List.mem_map_of_mem hform))
  refine ⟨f, ⟨hf, hfile⟩, fun g hg => ?_⟩
  exact List.inj_on_of_nodup_map hdistinct hg.1 hf (hg.2.trans hfile.symm)

/-- Both forms define `F1`, and the one that is listed first gets another name. -/
theorem resolve_form_order_swapped :
    let form (file : String) : Form := { file, fonts := .ofList [("F1", ⟨"F1", "ARIAL", 8⟩)] }
    let p : Project := { document := {}, forms := [form "a.frm", form "b.frm"] }
    let q : Project := { document := {}, forms := [form "b.frm", form "a.frm"] }
    (p.forms.map (·.file)).Nodup ∧ q.forms.Perm p.forms ∧
      q.resolve.2 = [⟨"b.frm", .font, "F1", "F1_1"⟩] ∧
      Docdef.Program.ofDocument {} "" q.resolve.1
        = Docdef.Program.ofDocument {} "" p.resolve.1 := by
  intro form p q
  have hnodup : (p.forms.map (·.file)).Nodup := by decide
  have hperm : q.forms.Perm p.forms := List.Perm.swap _ _ _
  obtain ⟨hrenames, -, -, hdocument, -⟩ := resolve_form_order {} "" p q hnodup rfl hperm
  refine ⟨hnodup, hperm, ?_, hdocument⟩
  have hsorted : (p.forms.mergeSort fun a b => decide (a.file ≤ b.file)) = p.forms :=
    List.mergeSort_of_pairwise (by simp [p, form])
  rw [hrenames, Project.resolve, hsorted]
  decide +kernel

/-- The bare names of what a group writes. Without a document nothing is written. -/
def SourceGroup.outputStems (g : SourceGroup) : List String :=
  if g.documents.isEmpty then [] else (g.documents ++ g.forms).map fun p => Path.stem ⟨p.fileName⟩

theorem filter_flatMap_perm {α β : Type} {f : α → List β} {P : β → Bool} {xs ys : List α}
    (hperm : ys.Perm xs) (h : xs.Pairwise fun a b => (f a).filter P = [] ∨ (f b).filter P = []) :
    (ys.flatMap f).filter P = (xs.flatMap f).filter P := by
  induction hperm with
  | nil => rfl
  | cons x _ ih =>
    rw [List.flatMap_cons, List.flatMap_cons, List.filter_append, List.filter_append,
      ih (List.pairwise_cons.1 h).2]
  | swap x y rest =>
    simp only [List.flatMap_cons, List.filter_append]
    have hxy := (List.pairwise_cons.1 h).1 y List.mem_cons_self
    rcases hxy with hx | hy
    · simp [hx]
    · simp [hy]
  | trans hfirst hsecond ih ih' =>
    have hsymm {a b : α} (hab : (f a).filter P = [] ∨ (f b).filter P = []) :
        (f b).filter P = [] ∨ (f a).filter P = [] := hab.symm
    exact (ih ((hsecond.pairwise_iff hsymm).2 h)).trans (ih' h)

namespace Converter

variable {c : Converter} {start s : Store}

/-- What is reported of a job that may be refused. A form that cannot be written is passed over. -/
def jobRecords (c : Converter) (j : Job) : Option FileError → List Record
  | none => [c.record j]
  | some reason =>
    match j.kind with
    | .form => []
    | .document =>
      [.failed j.source s!"Failed to write {(c.outputPath j.fileName).text}: {reason.message}"]

def reports (c : Converter) (start : Store) (j : Job) : List Record :=
  c.jobRecords j (start.refusal? (c.outputPath j.fileName))

def documentRecords (c : Converter) (start : Store) (loaded : LoadedForms) (p : Path) :
    List Record :=
  match readSource start p with
  | .error reason => [.failed p.text reason.message]
  | .ok _ => (c.documentJobs start loaded p).flatMap (c.reports start)

def groupRecords (c : Converter) (start : Store) (g : SourceGroup) : List Record :=
  g.documents.flatMap (c.documentRecords start (loadForms start g.forms {}))

/-- Since the start some programs have been written. -/
def Since (c : Converter) (start s : Store) : Prop :=
  ∃ jobs : List Job, s = start.saveAll c.target (jobs.map Job.file)

theorem Since.refl (c : Converter) (start : Store) : c.Since start start := ⟨[], rfl⟩

theorem Since.did (h : c.Since start s) {jobs : List Job} {r : List Record × Store}
    (hdid : c.Did start s jobs r) : c.Since start r.2 := by
  obtain ⟨before, rfl⟩ := h
  refine ⟨before ++ jobs, ?_⟩
  rw [hdid.store, List.map_append, Store.saveAll_append]

theorem Since.frame (h : c.Since start s) : start.Frame IsProgramPlace s := by
  obtain ⟨jobs, rfl⟩ := h
  exact frame_saveAll jobs

theorem isName_file {jobs : List Job} : ∀ file ∈ jobs.map Job.file, Path.IsName file.1 :=
  List.forall_mem_map.2 fun j _ => isName_programName j.fileName

theorem Since.refusal?_eq (h : c.Since start s) (fileName : String) :
    s.refusal? (c.outputPath fileName) = start.refusal? (c.outputPath fileName) := by
  obtain ⟨jobs, rfl⟩ := h
  exact Store.refusal?_saveAll isName_file (isName_programName fileName)

-- What a write does is known from the lemmas on files.
seal Store.write Store.refusal?

theorem reports_of_write (h : c.Since start s) {j : Job} {t : Store}
    (hwrite : s.write (c.outputPath j.fileName) j.program.toUTF8 = .ok t) :
    c.reports start j = [c.record j] := by
  unfold reports
  rw [← h.refusal?_eq, Store.refusal?_of_ok hwrite]
  rfl

theorem reports_of_not_write (h : c.Since start s) {j : Job} {reason : FileError}
    (hwrite : s.write (c.outputPath j.fileName) j.program.toUTF8 = .error reason) :
    c.reports start j = c.jobRecords j (some reason) := by
  unfold reports
  rw [← h.refusal?_eq, Store.refusal?_of_error hwrite]

theorem records_writeForms (h : c.Since start s) (project : Project) (paths : Table Path)
    (forms : List Form) :
    (c.writeForms project paths forms s).1 =
      (forms.map (c.formJob project paths)).flatMap (c.reports start) := by
  induction forms generalizing s with
  | nil => rfl
  | cons form rest ih =>
    rw [writeForms_cons, List.map_cons, List.flatMap_cons]
    split
    · next t hwrite =>
      have hfirst := did_of_write h.frame (c.formJob project paths form) hwrite
      rw [reports_of_write (j := c.formJob project paths form) h hwrite, ih (h.did hfirst)]
    · next reason hwrite =>
      rw [reports_of_not_write (j := c.formJob project paths form) h hwrite, ih h]
      rfl

theorem records_writeDocument (h : c.Since start s) (project : Project) (p : Path) :
    [(c.writeDocument project p s).1] = c.reports start (c.documentJob project p) := by
  unfold writeDocument
  dsimp only
  split
  · next t hwrite => exact (reports_of_write (j := c.documentJob project p) h hwrite).symm
  · next reason hwrite => exact (reports_of_not_write (j := c.documentJob project p) h hwrite).symm

theorem records_convertDocument (h : c.Since start s) (loaded : LoadedForms) (root : Path)
    {p : Path} (hp : Steady start p) :
    (c.convertDocument loaded root p s).1 = c.documentRecords start loaded p := by
  unfold convertDocument documentRecords documentJobs
  rw [hp s h.frame]
  cases readSource start p with
  | error reason => rfl
  | ok text =>
    let project := projectOf p.fileName text loaded.forms
    have hforms := did_writeForms (c := c) h.frame project loaded.paths project.forms
    have hrecords := records_writeForms h project loaded.paths project.forms
    have hdocument := records_writeDocument (h.did hforms) project p
    rw [List.flatMap_append, List.flatMap_singleton, ← hrecords, ← hdocument]

theorem records_convertDocuments (hcopy : c.settings.output.copyResources = false)
    (h : c.Since start s) (loaded : LoadedForms) (root : Path) {paths : List Path}
    (hpaths : ∀ p ∈ paths, Steady start p) :
    (c.convertDocuments loaded root paths s).1
      = paths.flatMap (c.documentRecords start loaded) := by
  induction paths generalizing s with
  | nil => rfl
  | cons p rest ih =>
    obtain ⟨hp, hrest⟩ := List.forall_mem_cons.1 hpaths
    have hfirst := did_convertDocument hcopy h.frame loaded root (hp s h.frame)
    rw [List.flatMap_cons, ← records_convertDocument h loaded root hp, ← ih (h.did hfirst) hrest]
    rfl

/-- What a group reports does not depend on the programs that others have written. -/
theorem records_convertGroup (hcopy : c.settings.output.copyResources = false) (h : c.Since start s)
    (root : Path) {g : SourceGroup} (hg : SteadyGroup start g) :
    (c.convertGroup root g s).1 = c.groupRecords start g := by
  obtain ⟨hdocuments, hforms⟩ := List.forall_mem_append.1 hg
  unfold convertGroup groupRecords
  split
  · next hempty =>
    rw [List.isEmpty_iff.1 hempty]
    rfl
  · rw [loadForms_eq h.frame hforms]
    exact records_convertDocuments hcopy h _ root hdocuments

theorem file_of_mem_loadForms {paths : List Path} {loaded : LoadedForms} {f : Form}
    (h : f ∈ (loadForms s paths loaded).forms) :
    f ∈ loaded.forms ∨ ∃ p ∈ paths, f.file = p.fileName := by
  induction paths generalizing loaded with
  | nil => exact .inl h
  | cons p rest ih =>
    unfold loadForms at h
    split at h
    · rcases ih h with hmem | ⟨q, hq, hfile⟩
      · rcases List.mem_append.1 hmem with hmem | hmem
        · exact .inl hmem
        · rw [List.mem_singleton.1 hmem]
          exact .inr ⟨p, List.mem_cons_self, rfl⟩
      · exact .inr ⟨q, List.mem_cons_of_mem p hq, hfile⟩
    · rcases ih h with hmem | ⟨q, hq, hfile⟩
      · exact .inl hmem
      · exact .inr ⟨q, List.mem_cons_of_mem p hq, hfile⟩

theorem fileName_of_mem_documentJobs {loaded : LoadedForms} {p : Path} {j : Job}
    (h : j ∈ c.documentJobs s loaded p) :
    j.fileName = p.fileName ∨ ∃ f ∈ loaded.forms, j.fileName = f.file := by
  unfold documentJobs at h
  split at h
  · cases h
  · next text _ =>
    rcases List.mem_append.1 h with hform | hdocument
    · obtain ⟨form, hmem, rfl⟩ := List.mem_map.1 hform
      have hfiles := files_resolve ⟨.build p.fileName text, loaded.forms⟩
      obtain ⟨f, hf, hfile⟩ := List.mem_map.1 (hfiles.mem_iff.1 (List.mem_map_of_mem hmem))
      exact .inr ⟨f, hf, hfile.symm⟩
    · rw [List.mem_singleton.1 hdocument]
      exact .inl rfl

theorem stem_of_mem_groupJobs {g : SourceGroup} {j : Job} (h : j ∈ c.groupJobs s g) :
    Path.stem ⟨j.fileName⟩ ∈ g.outputStems := by
  obtain ⟨p, hp, hj⟩ := List.mem_flatMap.1 h
  have hsome : g.documents.isEmpty = false := by simpa using List.ne_nil_of_mem hp
  have hsource : ∃ q ∈ g.documents ++ g.forms, j.fileName = q.fileName := by
    rcases fileName_of_mem_documentJobs hj with hfile | ⟨f, hf, hfile⟩
    · exact ⟨p, List.mem_append_left _ hp, hfile⟩
    · obtain ⟨q, hq, hfile'⟩ := (file_of_mem_loadForms hf).resolve_left List.not_mem_nil
      exact ⟨q, List.mem_append_right _ hq, hfile.trans hfile'⟩
  obtain ⟨q, hq, hfile⟩ := hsource
  rw [SourceGroup.outputStems, hsome, hfile]
  exact List.mem_map_of_mem hq

theorem filter_groupJobs {g h : SourceGroup} (hstems : g.outputStems.Disjoint h.outputStems)
    (name : String) :
    ((c.groupJobs s g).map Job.file).filter (·.1 = name) = [] ∨
      ((c.groupJobs s h).map Job.file).filter (·.1 = name) = [] := by
  by_contra hboth
  obtain ⟨hg, hh⟩ := not_or.1 hboth
  obtain ⟨file, hfile⟩ := List.exists_mem_of_ne_nil _ hg
  obtain ⟨other, hother⟩ := List.exists_mem_of_ne_nil _ hh
  obtain ⟨⟨j, hj, rfl⟩, hname⟩ := (List.mem_filter.1 hfile).imp_left List.mem_map.1
  obtain ⟨⟨k, hk, rfl⟩, hname'⟩ := (List.mem_filter.1 hother).imp_left List.mem_map.1
  have hsame : j.name = k.name := (of_decide_eq_true hname).trans (of_decide_eq_true hname').symm
  have hstem : Path.stem ⟨j.fileName⟩ = Path.stem ⟨k.fileName⟩ := (String.append_left_inj _).1 hsame
  exact hstems (stem_of_mem_groupJobs hj) (hstem ▸ stem_of_mem_groupJobs hk)

theorem filter_groupsJobs {groups order : List SourceGroup} (horder : order.Perm groups)
    (hstems : groups.Pairwise fun g h => g.outputStems.Disjoint h.outputStems) (name : String) :
    ((order.flatMap (c.groupJobs s)).map Job.file).filter (·.1 = name) =
      ((groups.flatMap (c.groupJobs s)).map Job.file).filter (·.1 = name) := by
  rw [List.map_flatMap, List.map_flatMap]
  exact filter_flatMap_perm horder (hstems.imp fun h => filter_groupJobs h name)

theorem reports_program (start : Store) (j : Job) (program : String) :
    c.reports start { j with program } = c.reports start j := rfl

theorem groupRecords_date (c : Converter) (date : Dating) (start : Store) (g : SourceGroup) :
    groupRecords ⟨c.settings, date⟩ start g = c.groupRecords start g := by
  have hform : formJob ⟨c.settings, date⟩ = c.formJob := rfl
  have hreports : reports ⟨c.settings, date⟩ start = c.reports start := rfl
  unfold groupRecords
  refine congrArg (g.documents.flatMap ·) (funext fun p => ?_)
  unfold documentRecords documentJobs
  cases readSource start p with
  | error reason => rfl
  | ok text =>
    simp only [hform, hreports, List.flatMap_append, List.flatMap_singleton]
    exact congrArg (_ ++ ·) (reports_program start (c.documentJob _ p) _)

theorem groupJobs_date {date : Dating} {g : SourceGroup}
    (h : ∀ p ∈ g.documents, date.of p = c.date.of p) :
    groupJobs ⟨c.settings, date⟩ s g = c.groupJobs s g := by
  refine List.flatMap_congr fun p hp => ?_
  unfold documentJobs documentJob
  rw [h p hp]
  rfl

theorem isName_reportFiles (records : List Record) :
    ∀ file ∈ c.reportFiles records, Path.IsName file.1 := by
  intro file hfile
  rw [name_of_mem_reportFiles hfile]
  exact isName_reportFile

theorem store_finish (records : List Record) :
    (c.finish records s).2 = s.saveAll c.target (c.reportFiles records) := by
  unfold finish reportFiles
  split
  · rw [Store.saveAll_singleton]
    split
    · next t hwrite => exact (Store.save_of_write hwrite).symm
    · next reason hwrite => exact (Store.save_of_not_write hwrite).symm
  · rfl

theorem result_finish_congr {t : Store}
    (h : s.refusal? (c.target.join ⟨reportFile⟩) = t.refusal? (c.target.join ⟨reportFile⟩))
    (records : List Record) :
    (c.finish records s).1 = (c.finish records t).1 := by
  unfold finish
  split
  · split
    · next u hs =>
      rw [Store.refusal?_of_ok hs] at h
      split
      · rfl
      · next reason ht =>
        rw [Store.refusal?_of_error ht] at h
        cases h
    · next reason hs =>
      rw [Store.refusal?_of_error hs] at h
      split
      · next u ht =>
        rw [Store.refusal?_of_ok ht] at h
        cases h
      · next reason' ht =>
        rw [Store.refusal?_of_error ht] at h
        rw [Option.some.inj h]
  · rfl

/-- Groups that have no output in common may be converted in any order, at other times. Each group
reports what it would report if it were the only one. The same files are left, also when the records
are reported, if every document gets the same date: one is set, or its day is the same in both runs.
Sources have to be somewhere, readable or not, as those that a run finds are: a path through an
unwritten program may end elsewhere once the program is there. -/
theorem convertGroups_any_order (c : Converter) (date : Dating) (root : Path) (s : Store)
    (groups order : List SourceGroup) (hcopy : c.settings.output.copyResources = false)
    (hsources : ∀ g ∈ groups, ∀ p ∈ g.documents ++ g.forms,
      (sourceKind? p).isSome = true ∧ (s.locate p).isOk = true)
    (hstems : groups.Pairwise fun g h => g.outputStems.Disjoint h.outputStems)
    (horder : order.Perm groups) :
    let again : Converter := ⟨c.settings, date⟩
    (∀ before g after, order = before ++ g :: after →
      (again.convertGroup root g (again.convertGroups root before s).2).1 =
        (c.convertGroup root g s).1) ∧
    ((∀ g ∈ groups, ∀ p ∈ g.documents, date.of p = c.date.of p) →
      (again.convertGroups root order s).2.Same (c.convertGroups root groups s).2 ∧
      ∀ records,
        (again.finish records (again.convertGroups root order s).2).1 =
          (c.finish records (c.convertGroups root groups s).2).1 ∧
        (again.finish records (again.convertGroups root order s).2).2.Same
          (c.finish records (c.convertGroups root groups s).2).2) := by
  intro again
  have hsteady : ∀ g ∈ order, SteadyGroup s g := by
    intro g hg p hp
    obtain ⟨hkind, hlocate⟩ := hsources g (horder.mem_iff.1 hg) p hp
    exact steady_of_locate hkind hlocate
  have hsince {c : Converter} (hcopy : c.settings.output.copyResources = false)
      {groups : List SourceGroup} (h : ∀ g ∈ groups, SteadyGroup s g) :
      (c.convertGroups root groups s).2 =
        s.saveAll c.target ((groups.flatMap (c.groupJobs s)).map Job.file) :=
    (did_convertGroups hcopy (.refl _ s) root h).store
  refine ⟨fun before g after hsplit => ?_, fun hdates => ?_⟩
  · have hmem : ∀ h ∈ before ++ [g], SteadyGroup s h := fun h hh => hsteady h (by grind)
    obtain ⟨hbefore, hg⟩ := List.forall_mem_append.1 hmem
    have hg := hg g List.mem_cons_self
    have hagain :=
      records_convertGroup (c := again) hcopy ⟨_, hsince (c := again) hcopy hbefore⟩ root hg
    rw [hagain, records_convertGroup hcopy (.refl c s) root hg]
    exact groupRecords_date c date s g
  · have hjobs : order.flatMap (again.groupJobs s) = order.flatMap (c.groupJobs s) :=
      List.flatMap_congr fun g hg => groupJobs_date (hdates g (horder.mem_iff.1 hg))
    have hgroups := hsince hcopy fun g hg => hsteady g (horder.mem_iff.2 hg)
    have hagain := hsince (c := again) hcopy hsteady
    rw [hjobs] at hagain
    change (again.convertGroups root order s).2 = s.saveAll c.target _ at hagain
    rw [hagain, hgroups]
    refine ⟨?_, fun records => ⟨?_, ?_⟩⟩
    · exact Store.same_saveAll isName_file isName_file (filter_groupsJobs horder hstems)
    · refine result_finish_congr (c := c) ?_ records
      rw [Store.refusal?_saveAll isName_file isName_reportFile,
        Store.refusal?_saveAll isName_file isName_reportFile]
    · rw [store_finish, store_finish]
      change (Store.saveAll c.target (c.reportFiles records) _).Same _
      rw [← Store.saveAll_append, ← Store.saveAll_append]
      refine Store.same_saveAll (List.forall_mem_append.2 ⟨isName_file, isName_reportFiles records⟩)
        (List.forall_mem_append.2 ⟨isName_file, isName_reportFiles records⟩) fun name => ?_
      rw [List.filter_append, List.filter_append, filter_groupsJobs horder hstems]

def twoGroups : Store :=
  { entries := [(["a"], .directory), (["a", "x.dbm"], .file .empty), (["a", "z.frm"], .file .empty),
      (["out"], .directory), (["out", "y.dbm"], .file .empty), (["out", "y.dfa"], .directory)] }

theorem convertGroups_any_order_twoGroups :
    let a : SourceGroup := ⟨⟨"a"⟩, [⟨"a/x.dbm"⟩], [⟨"a/z.frm"⟩]⟩
    let b : SourceGroup := ⟨⟨"out"⟩, [⟨"out/y.dbm"⟩], []⟩
    let again : Converter := ⟨intoOut.settings, .clock fun _ => ""⟩
    a.outputStems = ["x", "z"] ∧ b.outputStems = ["y"] ∧
      (again.convertGroups ⟨"."⟩ [b, a] twoGroups).2.Same
        (intoOut.convertGroups ⟨"."⟩ [a, b] twoGroups).2 ∧
      (again.convertGroup ⟨"."⟩ a (again.convertGroups ⟨"."⟩ [b] twoGroups).2).1 =
        [.ofForm "a/z.frm" "out/z.dfa", .ofDocument "a/x.dbm" "out/x.dfa"] ∧
      (intoOut.convertGroup ⟨"."⟩ b twoGroups).1 =
        [.failed "out/y.dbm" "Failed to write out/y.dfa: Is a directory (os error 21)"] := by
  intro a b again
  have ha : a.outputStems = ["x", "z"] := by decide +kernel
  have hb : b.outputStems = ["y"] := by decide +kernel
  have hstems : [a, b].Pairwise fun g h => g.outputStems.Disjoint h.outputStems := by
    simp [ha, hb]
  obtain ⟨hrecords, hstores⟩ := convertGroups_any_order intoOut (.clock fun _ => "") ⟨"."⟩ twoGroups
    [a, b] [b, a] rfl (by decide +kernel) hstems (.swap a b [])
  have hsame := (hstores fun _ _ _ _ => rfl).1
  refine ⟨ha, hb, hsame, (hrecords [b] a [] rfl).trans ?_, ?_⟩
  · decide +kernel
  · decide +kernel

end Converter

end VippDocdef
