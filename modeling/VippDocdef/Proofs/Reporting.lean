import VippDocdef.Batch.Run
import VippDocdef.Proofs.Directories
import VippDocdef.Proofs.Filing

/-! What the records of a run say. Every program of a run goes into one directory, under the bare
name of its source. Where two sources have the same bare name, both are reported and the later
program stays. -/

set_option autoImplicit false

namespace VippDocdef

theorem not_mem_of_mem_splitOn {a : Char} {text part : List Char} (h : part ∈ text.splitOn a) :
    a ∉ part := by
  induction text generalizing part with
  | nil =>
    rw [List.splitOn_nil, List.mem_singleton] at h
    simp [h]
  | cons c text ih =>
    rw [List.splitOn_cons_eq_if_modifyHead] at h
    split at h
    · rcases List.mem_cons.1 h with rfl | h
      · exact List.not_mem_nil
      · exact ih h
    · next hc =>
      cases hparts : text.splitOn a with
      | nil => exact absurd hparts (List.splitOn_ne_nil a text)
      | cons first rest =>
        rw [hparts, List.modifyHead_cons] at h
        rcases List.mem_cons.1 h with rfl | h
        · have hfirst : a ∉ first := ih (hparts ▸ List.mem_cons_self)
          simpa [hfirst] using fun hac => hc (by simp [hac])
        · exact ih (hparts ▸ List.mem_cons_of_mem _ h)

theorem Path.noSlash_fileName {p : Path} {name : String} (h : p.fileName? = some name) :
    '/' ∉ name.toList := by
  have hmem := List.mem_of_getLast? (Store.getLast?_of_fileName? h)
  obtain ⟨part, hpart, hname⟩ := List.mem_filterMap.1 hmem
  have heq : part = name := by
    unfold Part.ofText? at hname
    split at hname
    · cases hname
    · split at hname
      · cases hname
      · exact Part.name.inj (Option.some.inj hname)
  subst heq
  obtain ⟨cs, hcs, rfl⟩ := List.mem_map.1 hpart
  rw [String.toList_ofList]
  exact not_mem_of_mem_splitOn hcs

theorem Path.noSlash_stem (p : Path) : '/' ∉ p.stem.toList := by
  unfold stem
  cases hname : p.fileName? with
  | none => simp
  | some name =>
    have hslash := noSlash_fileName hname
    simp only [Option.map_some, Option.getD_some, splitName]
    split
    · next stem extension hsplit =>
      split
      · exact hslash
      · exact fun hmem => hslash (Text.mem_of_splitLast? hsplit hmem)
    · exact hslash

def programName (fileName : String) : String := Path.stem ⟨fileName⟩ ++ ".dfa"

theorem isName_append {stem ending : String} (hstem : '/' ∉ stem.toList)
    (hending : '/' ∉ ending.toList)
    (hlength : 2 < ending.length) : Path.IsName (stem ++ ending) := by
  have hne (word : String) (hword : word.length ≤ 2) : stem ++ ending ≠ word := by
    intro heq
    have hlen := congrArg String.length heq
    rw [String.length_append] at hlen
    omega
  refine ⟨hne "" (by decide), hne "." (by decide), hne ".." (by decide), ?_⟩
  rw [String.toList_append]
  exact fun hmem => (List.mem_append.1 hmem).elim hstem hending

theorem isName_programName (fileName : String) : Path.IsName (programName fileName) :=
  isName_append (Path.noSlash_stem _) (by decide) (by decide)

theorem isName_reportFile : Path.IsName Converter.reportFile :=
  ⟨by decide, by decide, by decide, by decide⟩

theorem programName_ne_reportFile (fileName : String) :
    programName fileName ≠ Converter.reportFile := by
  intro heq
  have hlast := congrArg (fun name : String => name.toList.getLast?) heq
  simp [programName, Converter.reportFile] at hlast

def IsProgramPlace (l : Location) : Prop := ∃ stem, l.getLast? = some (stem ++ ".dfa")

theorem Text.splitLast?_dot (stem : String) :
    splitLast? '.' (stem ++ ".dfa") = some (stem, "dfa") := by
  simp [splitLast?]

theorem not_isProgramPlace {s : Store} {p : Path} (hkind : (sourceKind? p).isSome = true)
    {l : Location} (h : s.locate p = .ok l) : ¬ IsProgramPlace l := by
  rintro ⟨stem, hlast⟩
  cases hname : p.fileName? with
  | none =>
    delta sourceKind? at hkind
    simp [Path.extension?, hname] at hkind
  | some name =>
    obtain rfl : name = stem ++ ".dfa" :=
      Option.some.inj ((Store.getLast?_of_locate hname h).symm.trans hlast)
    have hextension : p.extension? = none ∨ p.extension? = some "dfa" := by
      simp only [Path.extension?, hname, Option.map_some, Path.splitName, Text.splitLast?_dot,
        Option.bind_some]
      split
      · exact .inl rfl
      · exact .inr rfl
    have hlower : "dfa".toLower = "dfa" := by decide +kernel
    delta sourceKind? at hkind
    rcases hextension with hextension | hextension
    · simp [hextension] at hkind
    · simp [hextension, hlower] at hkind

/-- The source reads the same while programs are written. -/
def Steady (start : Store) (p : Path) : Prop :=
  ∀ s, start.Frame IsProgramPlace s → readSource s p = readSource start p

theorem steady_of_locate {start : Store} {p : Path} (hkind : (sourceKind? p).isSome = true)
    (hlocate : (start.locate p).isOk = true) : Steady start p := by
  intro s hframe
  obtain ⟨l, hlocate⟩ : ∃ l, start.locate p = .ok l := by
    cases h : start.locate p with
    | error reason => simp [h, Except.isOk, Except.toBool] at hlocate
    | ok l => exact ⟨l, rfl⟩
  have hread : s.read p = start.read p :=
    Store.read_congr hlocate (hframe.locate_iff.2 hlocate)
      (hframe.same l (not_isProgramPlace hkind hlocate))
  simp only [readSource, hread]

theorem Path.mk_text (p : Path) : Path.mk p.text = p := rfl

structure Job where
  kind : UnitKind
  source : String
  fileName : String
  program : String

namespace Job

def name (j : Job) : String := programName j.fileName

def file (j : Job) : String × ByteArray := (j.name, j.program.toUTF8)

end Job

namespace Converter

def record (c : Converter) (j : Job) : Record :=
  match j.kind with
  | .form => .ofForm j.source (c.outputPath j.fileName).text
  | .document => .ofDocument j.source (c.outputPath j.fileName).text

def formJob (c : Converter) (project : Project) (paths : Table Path) (form : Form) : Job :=
  ⟨.form, ((paths.get? form.file).map Path.text).getD form.file, form.file,
    (Docdef.Program.ofForm c.settings project form).text⟩

def documentJob (c : Converter) (project : Project) (p : Path) : Job :=
  ⟨.document, p.text, p.fileName, (Docdef.Program.ofDocument c.settings (c.date.of p) project).text⟩

/-- What is to be written for a document, with the sources as they are in a store. -/
def documentJobs (c : Converter) (s : Store) (loaded : LoadedForms) (p : Path) : List Job :=
  match readSource s p with
  | .error _ => []
  | .ok text =>
    let project := projectOf p.fileName text loaded.forms
    project.forms.map (c.formJob project loaded.paths) ++ [c.documentJob project p]

def groupJobs (c : Converter) (s : Store) (g : SourceGroup) : List Job :=
  g.documents.flatMap (c.documentJobs s (loadForms s g.forms {}))

def directoryJobs (c : Converter) (s : Store) (root : Path) : List Job :=
  (groupByDirectory ((discoverSources? s root).getD [])).flatMap (c.groupJobs s)

def singleJobs (c : Converter) (s : Store) (p : Path) : List Job :=
  match siblingForms s p with
  | .error _ => []
  | .ok forms => c.documentJobs s (loadForms s forms {}) p

def accepts (c : Converter) (s : Store) (j : Job) : Bool := s.accepts (c.outputPath j.fileName)

def start (c : Converter) (s : Store) : Store := (s.makeDirectories c.target).2

def planned (c : Converter) (p : Path) (s : Store) : List Job :=
  if s.isDirectory p then c.directoryJobs (c.start s) p else c.singleJobs (c.start s) p

/-- The jobs of a run whose program is written, in order. -/
def jobs (c : Converter) (p : Path) (s : Store) : List Job :=
  (c.planned p s).filter (c.accepts (c.start s))

variable {c : Converter}

theorem outcome_record (j : Job) : (c.record j).outcome = .success := by
  unfold record
  split
  · rfl
  · rfl

theorem kind_of_ofForm {j : Job} {source output : String} (h : c.record j = .ofForm source output) :
    j.kind = .form := by
  cases hkind : j.kind with
  | form => rfl
  | document => simp [record, hkind, Record.ofForm, Record.ofDocument] at h

theorem kind_of_ofDocument {j : Job} {source output : String}
    (h : c.record j = .ofDocument source output) :
    j.kind = .document := by
  cases hkind : j.kind with
  | form => simp [record, hkind, Record.ofForm, Record.ofDocument] at h
  | document => rfl

theorem output_record (j : Job) : (c.record j).output = (c.outputPath j.fileName).text := by
  unfold record Record.ofForm Record.ofDocument
  split
  · rfl
  · rfl

theorem output_inj {j k : Job} : (c.record k).output = (c.record j).output ↔ k.name = j.name := by
  rw [output_record, output_record]
  constructor
  · intro h
    have hparts : (c.outputPath k.fileName).slashParts = (c.outputPath j.fileName).slashParts := by
      simp only [Path.slashParts, h]
    have hk : (c.outputPath k.fileName).slashParts = c.target.dirParts ++ [k.name] :=
      (c.target.join_name (isName_programName k.fileName)).1
    have hj : (c.outputPath j.fileName).slashParts = c.target.dirParts ++ [j.name] :=
      (c.target.join_name (isName_programName j.fileName)).1
    rw [hk, hj] at hparts
    simpa using hparts
  · intro h
    exact congrArg (fun name => (c.target.join ⟨name⟩).text) h

-- What a write does is known from the lemmas on files; opened, it follows the path of a file that
-- is not known.
seal Store.write

variable {start s : Store}

/-- Some jobs have been done; the first store says which programs can be written. -/
structure Did (c : Converter) (start s : Store) (jobs : List Job) (r : List Record × Store) :
    Prop where
  records : r.1.filter (·.outcome = .success) = (jobs.filter (c.accepts start)).map c.record
  store : r.2 = s.saveAll c.target (jobs.map Job.file)

theorem frame_saveAll (jobs : List Job) :
    Store.Frame IsProgramPlace s (s.saveAll c.target (jobs.map Job.file)) :=
  Store.frame_saveAll (List.forall_mem_map.2 fun j _ => isName_programName j.fileName)
    (List.forall_mem_map.2 fun j _ _ => ⟨Path.stem ⟨j.fileName⟩, List.getLast?_concat⟩)

theorem Did.frame {jobs : List Job} {r : List Record × Store} (h : c.Did start s jobs r)
    (hframe : start.Frame IsProgramPlace s) : start.Frame IsProgramPlace r.2 := by
  rw [h.store]
  exact hframe.trans (frame_saveAll jobs)

theorem did_nil {records : List Record} (h : ∀ r ∈ records, r.outcome ≠ .success) :
    c.Did start s [] (records, s) :=
  ⟨by simpa using h, rfl⟩

theorem Did.append {a b : List Job} {r r' : List Record × Store} (ha : c.Did start s a r)
    (hb : c.Did start r.2 b r') : c.Did start s (a ++ b) (r.1 ++ r'.1, r'.2) where
  records := by simp only [List.filter_append, List.map_append, ha.records, hb.records]
  store := by
    rw [hb.store, ha.store, List.map_append, Store.saveAll_append]

theorem accepts_eq (hframe : start.Frame IsProgramPlace s) (j : Job) :
    c.accepts s j = c.accepts start j :=
  hframe.accepts_eq (isName_programName j.fileName)

theorem did_of_write (hframe : start.Frame IsProgramPlace s) (j : Job) {t : Store}
    (h : s.write (c.outputPath j.fileName) j.program.toUTF8 = .ok t) :
    c.Did start s [j] ([c.record j], t) where
  records := by
    obtain ⟨d, hopens, hfree, -⟩ := (Store.write_join_iff (isName_programName j.fileName)).1 h
    have haccepts : c.accepts s j = true :=
      (Store.accepts_join (isName_programName j.fileName)).2 ⟨d, hopens, hfree⟩
    rw [accepts_eq hframe] at haccepts
    simp [haccepts, outcome_record]
  store := by
    have hfile : s.write (c.target.join ⟨j.file.1⟩) j.file.2 = .ok t := h
    rw [List.map_singleton, Store.saveAll_singleton, Store.save_of_write hfile]

theorem did_of_not_write (hframe : start.Frame IsProgramPlace s) (j : Job) {reason : FileError}
    (h : s.write (c.outputPath j.fileName) j.program.toUTF8 = .error reason) {records : List Record}
    (hrecords : ∀ r ∈ records, r.outcome ≠ .success) : c.Did start s [j] (records, s) where
  records := by
    have haccepts : c.accepts s j = false := by
      cases hs : c.accepts s j with
      | false => rfl
      | true =>
        obtain ⟨d, hopens, hfree⟩ := (Store.accepts_join (isName_programName j.fileName)).1 hs
        cases h.symm.trans (Store.write_join (isName_programName j.fileName) hopens hfree _)
    rw [accepts_eq hframe] at haccepts
    simpa [haccepts] using hrecords
  store := by
    have hfile : s.write (c.target.join ⟨j.file.1⟩) j.file.2 = .error reason := h
    rw [List.map_singleton, Store.saveAll_singleton, Store.save_of_not_write hfile]

theorem writeForms_cons (project : Project) (paths : Table Path) (form : Form) (rest : List Form) :
    c.writeForms project paths (form :: rest) s =
      match s.write (c.outputPath form.file) (c.formJob project paths form).program.toUTF8 with
      | .ok t =>
        ([c.record (c.formJob project paths form)] ++ (c.writeForms project paths rest t).1,
          (c.writeForms project paths rest t).2)
      | .error _ => c.writeForms project paths rest s := rfl

theorem did_writeForms (hframe : start.Frame IsProgramPlace s) (project : Project)
    (paths : Table Path) (forms : List Form) :
    c.Did start s (forms.map (c.formJob project paths)) (c.writeForms project paths forms s) := by
  induction forms generalizing s with
  | nil => exact did_nil (List.forall_mem_nil _)
  | cons form rest ih =>
    rw [writeForms_cons, List.map_cons]
    split
    · next t hwrite =>
      have hfirst := did_of_write hframe (c.formJob project paths form) hwrite
      exact hfirst.append (ih (hfirst.frame hframe))
    · next reason hwrite =>
      have hfirst :=
        did_of_not_write hframe (c.formJob project paths form) hwrite (List.forall_mem_nil _)
      exact hfirst.append (ih hframe)

theorem did_writeDocument (hframe : start.Frame IsProgramPlace s) (project : Project) (p : Path) :
    c.Did start s [c.documentJob project p]
      ([(c.writeDocument project p s).1], (c.writeDocument project p s).2) := by
  unfold writeDocument
  dsimp only
  split
  · next t hwrite => exact did_of_write hframe (c.documentJob project p) hwrite
  · next reason hwrite =>
    exact did_of_not_write hframe (c.documentJob project p) hwrite (by simp [Record.failed])

theorem did_convertDocument (hcopy : c.settings.output.copyResources = false)
    (hframe : start.Frame IsProgramPlace s) (loaded : LoadedForms) (root : Path) {p : Path}
    (hp : readSource s p = readSource start p) :
    c.Did start s (c.documentJobs start loaded p) (c.convertDocument loaded root p s) := by
  unfold convertDocument documentJobs
  rw [hp]
  cases readSource start p with
  | error reason => exact did_nil (by simp [Record.failed])
  | ok text =>
    have hforms :=
      did_writeForms (c := c) hframe (projectOf p.fileName text loaded.forms) loaded.paths
      (projectOf p.fileName text loaded.forms).forms
    simpa [hcopy] using hforms.append (did_writeDocument (hforms.frame hframe) _ p)

theorem did_convertDocuments (hcopy : c.settings.output.copyResources = false)
    (hframe : start.Frame IsProgramPlace s) (loaded : LoadedForms) (root : Path) {paths : List Path}
    (hpaths : ∀ p ∈ paths, Steady start p) :
    c.Did start s (paths.flatMap (c.documentJobs start loaded))
      (c.convertDocuments loaded root paths s) := by
  induction paths generalizing s with
  | nil => exact did_nil (List.forall_mem_nil _)
  | cons p rest ih =>
    obtain ⟨hp, hrest⟩ := List.forall_mem_cons.1 hpaths
    have hfirst := did_convertDocument hcopy hframe loaded root (hp s hframe)
    exact hfirst.append (ih (hfirst.frame hframe) hrest)

theorem loadForms_eq (hframe : start.Frame IsProgramPlace s) {paths : List Path}
    (hpaths : ∀ p ∈ paths, Steady start p) (loaded : LoadedForms) :
    loadForms s paths loaded = loadForms start paths loaded := by
  induction paths generalizing loaded with
  | nil => rfl
  | cons p rest ih =>
    obtain ⟨hp, hrest⟩ := List.forall_mem_cons.1 hpaths
    unfold loadForms
    rw [hp s hframe]
    split
    · exact ih hrest _
    · exact ih hrest _

def SteadyGroup (start : Store) (g : SourceGroup) : Prop :=
  ∀ p ∈ g.documents ++ g.forms, Steady start p

theorem did_convertGroup (hcopy : c.settings.output.copyResources = false)
    (hframe : start.Frame IsProgramPlace s) (root : Path) {g : SourceGroup}
    (hg : SteadyGroup start g) :
    c.Did start s (c.groupJobs start g) (c.convertGroup root g s) := by
  obtain ⟨hdocuments, hforms⟩ := List.forall_mem_append.1 hg
  unfold convertGroup groupJobs
  split
  · next hempty =>
    rw [List.isEmpty_iff.1 hempty]
    exact did_nil (List.forall_mem_nil _)
  · rw [loadForms_eq hframe hforms]
    exact did_convertDocuments hcopy hframe _ root hdocuments

theorem did_convertGroups (hcopy : c.settings.output.copyResources = false)
    (hframe : start.Frame IsProgramPlace s) (root : Path) {groups : List SourceGroup}
    (hgroups : ∀ g ∈ groups, SteadyGroup start g) :
    c.Did start s (groups.flatMap (c.groupJobs start)) (c.convertGroups root groups s) := by
  induction groups generalizing s with
  | nil => exact did_nil (List.forall_mem_nil _)
  | cons g rest ih =>
    obtain ⟨hg, hrest⟩ := List.forall_mem_cons.1 hgroups
    have hfirst := did_convertGroup hcopy hframe root hg
    exact hfirst.append (ih (hfirst.frame hframe) hrest)

theorem locate_of_discoverSources {root : Path} {sources : List Path}
    (h : discoverSources? start root = some sources) {g : SourceGroup}
    (hg : g ∈ groupByDirectory sources) :
    ∀ p ∈ g.documents ++ g.forms, (sourceKind? p).isSome = true ∧ (start.locate p).isOk = true := by
  intro p hp
  obtain ⟨found, -, rfl⟩ := Option.map_eq_some_iff.1 h
  have hmem := List.mem_mergeSort.1 (mem_groupByDirectory hg hp)
  have hsource := (List.mem_filter.1 hmem).2
  rw [Bool.and_eq_true] at hsource
  obtain ⟨l, hlocate, -⟩ := Store.isFile_iff.1 hsource.1
  exact ⟨hsource.2, by rw [hlocate]; rfl⟩

theorem steady_of_discoverSources {root : Path} {sources : List Path}
    (h : discoverSources? start root = some sources) {g : SourceGroup}
    (hg : g ∈ groupByDirectory sources) :
    SteadyGroup start g := by
  intro p hp
  obtain ⟨hkind, hlocate⟩ := locate_of_discoverSources h hg p hp
  exact steady_of_locate hkind hlocate

def reportFiles (c : Converter) (records : List Record) : List (String × ByteArray) :=
  if c.settings.output.report && !records.isEmpty then [(reportFile, (reportText records).toUTF8)]
    else []

theorem finish_eq_ok {records out : List Record} {t : Store}
    (h : c.finish records s = (.ok out, t)) :
    out = records ∧ t = s.saveAll c.target (c.reportFiles records) := by
  unfold finish at h
  unfold reportFiles
  split at h
  · next hreport =>
    rw [if_pos hreport, Store.saveAll_singleton]
    split at h
    · next u hwrite =>
      obtain ⟨hout, rfl⟩ := Prod.mk.inj h
      refine ⟨(Except.ok.inj hout).symm, ?_⟩
      unfold Store.save
      rw [hwrite]
    · cases (Prod.mk.inj h).1
  · next hreport =>
    obtain ⟨hout, rfl⟩ := Prod.mk.inj h
    rw [if_neg hreport]
    exact ⟨(Except.ok.inj hout).symm, rfl⟩

/-- The jobs have been done from the start, and then they have been reported. -/
def Reported (c : Converter) (start : Store) (jobs : List Job) (records : List Record) (t : Store) :
    Prop :=
  ∃ u, c.Did start start jobs (records, u) ∧ t = u.saveAll c.target (c.reportFiles records)

theorem Did.reported {jobs : List Job} {r : List Record × Store} (hdid : c.Did start start jobs r)
    {records : List Record} {t : Store} (h : c.finish r.1 r.2 = (.ok records, t)) :
    c.Reported start jobs records t := by
  obtain ⟨rfl, rfl⟩ := finish_eq_ok h
  exact ⟨r.2, hdid, rfl⟩

theorem reported_runDirectory (hcopy : c.settings.output.copyResources = false) {root : Path}
    {records : List Record} {t : Store} (h : c.runDirectory root s = (.ok records, t)) :
    c.Reported (c.start s) (c.directoryJobs (c.start s) root) records t := by
  unfold runDirectory at h
  split at h
  · cases (Prod.mk.inj h).1
  split at h
  · cases (Prod.mk.inj h).1
  · next start hstart =>
    obtain rfl : c.start s = start := congrArg Prod.snd hstart
    split at h
    · cases (Prod.mk.inj h).1
    · next sources hsources =>
      unfold directoryJobs
      rw [hsources, Option.getD_some]
      exact (did_convertGroups hcopy (.refl _ _) root fun g hg =>
        steady_of_discoverSources hsources hg).reported h

theorem reported_runDocument (hcopy : c.settings.output.copyResources = false) {p : Path}
    {records : List Record} {t : Store} (h : c.runDocument p s = (.ok records, t)) :
    c.Reported (c.start s) (c.singleJobs (c.start s) p) records t := by
  unfold runDocument at h
  split at h
  · cases (Prod.mk.inj h).1
  split at h
  · cases (Prod.mk.inj h).1
  · cases (Prod.mk.inj h).1
  split at h
  · cases (Prod.mk.inj h).1
  · next start hstart =>
    obtain rfl : c.start s = start := congrArg Prod.snd hstart
    split at h
    · cases (Prod.mk.inj h).1
    · next forms hforms =>
      unfold singleJobs
      rw [hforms]
      exact (did_convertDocument hcopy (.refl _ _) _ p.directory rfl).reported h

theorem run_eq_ok (hcopy : c.settings.output.copyResources = false) {p : Path}
    {records : List Record} {t : Store} (h : c.run p s = (.ok records, t)) :
    records.filter (·.outcome = .success) = (c.jobs p s).map c.record ∧
      t = (c.start s).saveAll c.target ((c.planned p s).map Job.file ++ c.reportFiles records) := by
  have hreported : c.Reported (c.start s) (c.planned p s) records t := by
    unfold run at h
    unfold planned
    split at h
    · next hdir =>
      rw [if_pos hdir]
      exact reported_runDirectory hcopy h
    · next hdir =>
      rw [if_neg hdir]
      exact reported_runDocument hcopy h
  obtain ⟨u, hdid, rfl⟩ := hreported
  have hstore : u = (c.start s).saveAll c.target ((c.planned p s).map Job.file) := hdid.store
  refine ⟨hdid.records, ?_⟩
  rw [hstore, Store.saveAll_append]

/-- The jobs of a run whose program goes into the same file. -/
def rivals (c : Converter) (p : Path) (s : Store) (j : Job) : List Job :=
  (c.jobs p s).filter fun k => (c.record k).output = (c.record j).output

theorem rivals_eq {p : Path} {j : Job} (hj : j ∈ c.jobs p s) :
    c.rivals p s j = (c.planned p s).filter (·.name = j.name) := by
  have haccepts := (List.mem_filter.1 hj).2
  unfold rivals jobs
  rw [List.filter_filter]
  refine List.filter_congr fun k _ => ?_
  rw [Bool.eq_iff_iff, Bool.and_eq_true, decide_eq_true_iff, decide_eq_true_iff, output_inj]
  refine ⟨And.left, fun hname => ⟨hname, ?_⟩⟩
  rw [← haccepts]
  exact congrArg (fun name => (c.start s).accepts (c.target.join ⟨name⟩)) hname

theorem name_of_mem_reportFiles {records : List Record} {file : String × ByteArray}
    (h : file ∈ c.reportFiles records) : file.1 = reportFile := by
  unfold reportFiles at h
  split at h
  · rw [List.mem_singleton.1 h]
  · cases h

theorem exists_read_output (hcopy : c.settings.output.copyResources = false) {p : Path}
    {records : List Record}
    {t : Store} (h : c.run p s = (.ok records, t)) {j : Job} (hj : j ∈ c.jobs p s) :
    ∃ k, (c.rivals p s j).getLast? = some k ∧
      t.read ⟨(c.record j).output⟩ = .ok k.program.toUTF8 := by
  have hrival : j ∈ c.rivals p s j := List.mem_filter.2 ⟨hj, by simp⟩
  obtain ⟨k, hk⟩ : ∃ k, (c.rivals p s j).getLast? = some k :=
    Option.isSome_iff_exists.1 (List.getLast?_isSome.2 (List.ne_nil_of_mem hrival))
  refine ⟨k, hk, ?_⟩
  have hnames :
      ∀ file ∈ (c.planned p s).map Job.file ++ c.reportFiles records, Path.IsName file.1 := by
    intro file hfile
    rcases List.mem_append.1 hfile with hfile | hfile
    · obtain ⟨i, -, rfl⟩ := List.mem_map.1 hfile
      exact isName_programName i.fileName
    · rw [name_of_mem_reportFiles hfile]
      exact isName_reportFile
  have hreport : (c.reportFiles records).filter (·.1 = j.name) = [] := by
    refine List.filter_eq_nil_iff.2 fun file hfile => ?_
    rw [name_of_mem_reportFiles hfile, decide_eq_true_iff]
    exact (programName_ne_reportFile j.fileName).symm
  have hplanned :
      ((c.planned p s).map Job.file).filter (·.1 = j.name) = (c.rivals p s j).map Job.file := by
    rw [rivals_eq hj, List.filter_map]
    rfl
  have hread := Store.read_saveAll hnames (isName_programName j.fileName) (List.mem_filter.1 hj).2
  rw [List.filter_append, show programName j.fileName = j.name from rfl, hreport, hplanned,
    List.append_nil, List.getLast?_map, hk, ← (run_eq_ok hcopy h).2] at hread
  rw [output_record, Path.mk_text]
  exact hread

theorem sanitize_comment (d : Docdef.Detector) {text : String} (h : "/*".toList <+: text.toList) :
    d.sanitize text = text := by
  have hflags : d.flags text = false := d.flags_comment (by simpa using h)
  simp [Docdef.Detector.sanitize, hflags]

theorem comment_prefix_writeLines (d : Docdef.Detector) (text : String)
    (h : "/*".toList <+: text.toList) (rest : List Docdef.Line) :
    text.toList <+: (Docdef.writeLines d (⟨0, text⟩ :: rest)).toList := by
  have hne : text ≠ "" := by
    intro heq
    rw [heq] at h
    revert h
    decide
  have hfirst : Docdef.Line.write d ⟨0, text⟩ = text := by
    simp [Docdef.Line.write, hne, Docdef.Line.indentation, sanitize_comment d h]
  simp only [Docdef.writeLines, Docdef.Listing.add, Docdef.Listing.text, List.nil_append,
    List.map_cons, Docdef.Line.deeper_zero, hfirst]
  cases rest with
  | nil => simp
  | cons x rest => simp [String.intercalate_cons_cons]

theorem form_begins (settings : Settings) (p : Project) (f : Form) :
    "/* FRM".toList <+: (Docdef.Program.ofForm settings p f).text.toList := by
  obtain ⟨rest, hrest⟩ : ∃ rest, (Docdef.Program.ofForm settings p f).text =
      Docdef.writeLines (.ofSettings settings.malformed)
        (⟨0, s!"/* FRM DFA File: {f.file} */"⟩ :: rest) :=
    ⟨_, rfl⟩
  have hbegins := comment_prefix_writeLines (.ofSettings settings.malformed)
    s!"/* FRM DFA File: {f.file} */" (by simp [toString]) rest
  rw [← hrest] at hbegins
  exact List.IsPrefix.trans (by simp [toString]) hbegins

theorem document_begins (settings : Settings) (date : String) (p : Project) :
    "/* Gen".toList <+: (Docdef.Program.ofDocument settings date p).text.toList := by
  obtain ⟨rest, hrest⟩ : ∃ rest, (Docdef.Program.ofDocument settings date p).text =
      Docdef.writeLines (.ofSettings settings.malformed) (⟨0, Docdef.banner⟩ :: rest) := ⟨_, rfl⟩
  have hbegins :=
    comment_prefix_writeLines (.ofSettings settings.malformed) Docdef.banner (by decide) rest
  rw [← hrest] at hbegins
  exact List.IsPrefix.trans (by decide) hbegins

/-- Programs of forms and of documents begin differently. -/
theorem text_ofForm_ne_ofDocument (settings : Settings) (p q : Project) (f : Form) (date : String) :
    (Docdef.Program.ofForm settings p f).text
      ≠ (Docdef.Program.ofDocument settings date q).text := by
  intro heq
  have hform := form_begins settings p f
  rw [heq] at hform
  have hsame := List.prefix_of_prefix_length_le hform (document_begins settings date q) (by decide)
  revert hsame
  decide

theorem mem_documentJobs {loaded : LoadedForms} {p : Path} {j : Job}
    (h : j ∈ c.documentJobs s loaded p) :
    (∃ project form, j = c.formJob project loaded.paths form) ∨
      ∃ project, j = c.documentJob project p := by
  unfold documentJobs at h
  split at h
  · cases h
  · rcases List.mem_append.1 h with hform | hdocument
    · obtain ⟨form, -, rfl⟩ := List.mem_map.1 hform
      exact .inl ⟨_, form, rfl⟩
    · exact .inr ⟨_, List.mem_singleton.1 hdocument⟩

theorem mem_planned {p : Path} {j : Job} (h : j ∈ c.planned p s) :
    (∃ project paths form, j = c.formJob project paths form) ∨
      ∃ project p, j = c.documentJob project p := by
  suffices hdocument : ∃ loaded p, j ∈ c.documentJobs (c.start s) loaded p by
    obtain ⟨loaded, p, hj⟩ := hdocument
    exact (mem_documentJobs hj).imp (fun ⟨project, form, hj⟩ => ⟨project, loaded.paths, form, hj⟩)
      fun ⟨project, hj⟩ => ⟨project, p, hj⟩
  unfold planned at h
  split at h
  · obtain ⟨g, -, hg⟩ := List.mem_flatMap.1 h
    obtain ⟨p, -, hp⟩ := List.mem_flatMap.1 hg
    exact ⟨_, p, hp⟩
  · unfold singleJobs at h
    split at h
    · cases h
    · exact ⟨_, p, h⟩

/-- A form is lost if the last program that goes into its file is that of a document. -/
theorem form_lost (hcopy : c.settings.output.copyResources = false) {p : Path}
    {records : List Record}
    {t : Store} (h : c.run p s = (.ok records, t)) {j k : Job} (hj : j ∈ c.jobs p s)
    (hform : j.kind = .form)
    (hk : (c.rivals p s j).getLast? = some k) (hdocument : k.kind = .document) :
    t.read ⟨(c.record j).output⟩ ≠ .ok j.program.toUTF8 := by
  have hkjobs : k ∈ c.jobs p s := (List.mem_filter.1 (List.mem_of_getLast? hk)).1
  obtain ⟨l, hl, hread⟩ := exists_read_output hcopy h hj
  obtain rfl : k = l := Option.some.inj (hk.symm.trans hl)
  rw [hread]
  intro hsame
  have htext : k.program = j.program := String.toByteArray_inj.1 (Except.ok.inj hsame)
  rcases mem_planned (List.mem_filter.1 hj).1 with ⟨project, paths, form, rfl⟩ | ⟨project, p', rfl⟩
  · rcases mem_planned (List.mem_filter.1 hkjobs).1
      with ⟨project', paths', form', rfl⟩ | ⟨project', p', rfl⟩
    · cases hdocument
    · exact text_ofForm_ne_ofDocument _ _ _ _ _ htext.symm
  · cases hform

theorem run_of_document {p : Path} {forms : List Path} (hdir : s.isDirectory p = false)
    (hfile : s.isFile p = true) (hkind : sourceKind? p = some .document)
    (hmake : (s.makeDirectories c.target).1 = none)
    (hforms : siblingForms (c.start s) p = .ok forms) (hreport : c.settings.output.report = false) :
    c.run p s
      = ((.ok (c.convertDocument (loadForms (c.start s) forms {}) p.directory p (c.start s)).1),
      (c.convertDocument (loadForms (c.start s) forms {}) p.directory p (c.start s)).2) := by
  have hstart : s.makeDirectories c.target = (none, c.start s) := Prod.ext hmake rfl
  unfold run runDocument
  simp only [hdir, hfile, hkind, hstart, hforms, finish, hreport, Bool.not_true, Bool.false_eq_true,
    Bool.false_and, if_false]

def sharedStem : Store :=
  { entries := [(["out"], .directory), (["x.dbm"], .file .empty), (["x.frm"], .file .empty)] }

def intoOut : Converter := { settings := { output := { dir := "out" } }, date := "" }

theorem siblingForms_sharedStem :
    siblingForms (intoOut.start sharedStem) ⟨"x.dbm"⟩ = .ok [⟨"./x.frm"⟩] := by
  have hlocate : (intoOut.start sharedStem).locate ⟨"."⟩ = .ok [] := by
    have hoption : ((intoOut.start sharedStem).locate ⟨"."⟩).toOption = some [] := by decide +kernel
    cases hl : (intoOut.start sharedStem).locate ⟨"."⟩ with
    | error reason => simp [hl, Except.toOption] at hoption
    | ok l => simpa [hl, Except.toOption] using hoption
  have hentries :
      ((intoOut.start sharedStem).entries.filterMap fun entry => Store.childName? [] entry.1) =
      ["out", "x.dbm", "x.frm"] := by decide +kernel
  have hchildren : (intoOut.start sharedStem).children [] = ["out", "x.dbm", "x.frm"] := by
    change ((intoOut.start sharedStem).entries.filterMap fun entry => Store.childName?
      [] entry.1).mergeSort = _
    rw [hentries]
    exact List.mergeSort_of_pairwise (by decide)
  have hlist : (intoOut.start sharedStem).list ⟨"."⟩ = .ok ["out", "x.dbm", "x.frm"] := by
    simp only [Store.list, hlocate, bind, Except.bind, Store.get?_nil, hchildren]
  have hforms : (["out", "x.dbm", "x.frm"].map fun name => Path.join ⟨"."⟩ ⟨name⟩).filter
      (fun p => (intoOut.start sharedStem).isFile p && sourceKind? p = some .form)
        = [⟨"./x.frm"⟩] := by
    decide +kernel
  simp only [siblingForms, show (Path.mk "x.dbm").directory
    = ⟨"."⟩ by decide +kernel, hlist, bind, Except.bind,
    hforms, sortPaths, List.mergeSort_singleton, pure, Except.pure]

theorem run_sharedStem :
    ∃ t, intoOut.run ⟨"x.dbm"⟩ sharedStem =
      (.ok [.ofForm "./x.frm" "out/x.dfa", .ofDocument "x.dbm" "out/x.dfa"], t) := by
  have hrun := run_of_document (c := intoOut) (s := sharedStem) (p := ⟨"x.dbm"⟩) (by decide +kernel)
    (by decide +kernel) (by decide +kernel) (by decide +kernel) siblingForms_sharedStem rfl
  refine ⟨_, hrun.trans (Prod.ext (congrArg Except.ok ?_) rfl)⟩
  decide +kernel

theorem jobs_sharedStem :
    ∃ form document, intoOut.jobs ⟨"x.dbm"⟩ sharedStem = [form, document] ∧
      intoOut.record form = .ofForm "./x.frm" "out/x.dfa" ∧
      intoOut.record document = .ofDocument "x.dbm" "out/x.dfa" := by
  obtain ⟨t, hrun⟩ := run_sharedStem
  have hrecords := (run_eq_ok rfl hrun).1.symm
  rw [show List.filter _ _ = [Record.ofForm "./x.frm" "out/x.dfa", .ofDocument "x.dbm" "out/x.dfa"]
    from rfl]
    at hrecords
  obtain ⟨form, rest, hjobs, hform, hrest⟩ := List.map_eq_cons_iff.1 hrecords
  obtain ⟨document, rest, rfl, hdocument, hnil⟩ := List.map_eq_cons_iff.1 hrest
  obtain rfl := List.map_eq_nil_iff.1 hnil
  exact ⟨form, document, hjobs, hform, hdocument⟩

/-- The records of success are those of the jobs that are done, in order. Such a record is true if
and only if the last job with the same output has the same program. -/
theorem success_true_iff (c : Converter) (p : Path) (s t : Store) (records : List Record)
    (hcopy : c.settings.output.copyResources = false) (hrun : c.run p s = (.ok records, t)) :
    records.filter (·.outcome = .success) = (c.jobs p s).map c.record ∧
      ∀ j ∈ c.jobs p s, t.read ⟨(c.record j).output⟩ = .ok j.program.toUTF8 ↔
        (c.rivals p s j).getLast?.map Job.program = some j.program := by
  refine ⟨(run_eq_ok hcopy hrun).1, fun j hj => ?_⟩
  obtain ⟨k, hk, hread⟩ := exists_read_output hcopy hrun hj
  rw [hread, hk]
  simp [String.toByteArray_inj]

theorem success_true_iff_sharedStem :
    ∃ t, intoOut.settings.output.copyResources = false ∧
      intoOut.run ⟨"x.dbm"⟩ sharedStem =
        (.ok [.ofForm "./x.frm" "out/x.dfa", .ofDocument "x.dbm" "out/x.dfa"], t) ∧
      ∃ j ∈ intoOut.jobs ⟨"x.dbm"⟩ sharedStem, intoOut.record j = .ofDocument "x.dbm" "out/x.dfa" ∧
        t.read ⟨"out/x.dfa"⟩ = .ok j.program.toUTF8 := by
  obtain ⟨t, hrun⟩ := run_sharedStem
  obtain ⟨form, document, hjobs, hform, hdocument⟩ := jobs_sharedStem
  have hmem : document ∈ intoOut.jobs ⟨"x.dbm"⟩ sharedStem := by simp [hjobs]
  have hrivals : intoOut.rivals ⟨"x.dbm"⟩ sharedStem document = [form, document] := by
    rw [rivals, hjobs]
    simp [hform, hdocument, Record.ofForm, Record.ofDocument]
  have htrue := ((success_true_iff intoOut ⟨"x.dbm"⟩ sharedStem t _ rfl hrun).2 document hmem).2
    (by rw [hrivals]; rfl)
  rw [hdocument] at htrue
  exact ⟨t, rfl, hrun, document, hmem, hdocument, htrue⟩

/-- Both are reported, and the program of the form is gone. -/
theorem form_lost_sharedStem :
    ∃ t, intoOut.run ⟨"x.dbm"⟩ sharedStem =
        (.ok [.ofForm "./x.frm" "out/x.dfa", .ofDocument "x.dbm" "out/x.dfa"], t) ∧
      ∃ j ∈ intoOut.jobs ⟨"x.dbm"⟩ sharedStem, intoOut.record j = .ofForm "./x.frm" "out/x.dfa" ∧
        t.read ⟨"out/x.dfa"⟩ ≠ .ok j.program.toUTF8 := by
  obtain ⟨t, hrun⟩ := run_sharedStem
  obtain ⟨form, document, hjobs, hform, hdocument⟩ := jobs_sharedStem
  have hmem : form ∈ intoOut.jobs ⟨"x.dbm"⟩ sharedStem := by simp [hjobs]
  have hrivals : intoOut.rivals ⟨"x.dbm"⟩ sharedStem form = [form, document] := by
    rw [rivals, hjobs]
    simp [hform, hdocument, Record.ofForm, Record.ofDocument]
  have hlost :=
    form_lost rfl hrun hmem (kind_of_ofForm hform) (hrivals ▸ rfl) (kind_of_ofDocument hdocument)
  rw [hform] at hlost
  exact ⟨t, hrun, form, hmem, hform, hlost⟩

end Converter

end VippDocdef
