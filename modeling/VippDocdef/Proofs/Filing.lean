import VippDocdef.Files.Store

/-! Files that are written one after the other. Writing a file changes no directory, so paths lead
where they led before, and other files stay as they are. -/

set_option autoImplicit false

namespace VippDocdef

namespace Store

def Free (s : Store) (l : Location) : Prop := s.get? l ≠ some .directory ∧ s.get? l ≠ some .locked

/-- Only files at some locations may have changed, and no directory and no locked file has. -/
structure Frame (changed : Location → Prop) (s t : Store) : Prop where
  here : t.here = s.here
  directory : ∀ l, t.get? l = some .directory ↔ s.get? l = some .directory
  locked : ∀ l, t.get? l = some .locked ↔ s.get? l = some .locked
  same : ∀ l, ¬ changed l → t.get? l = s.get? l

theorem Frame.refl (changed : Location → Prop) (s : Store) : Frame changed s s :=
  ⟨rfl, fun _ => .rfl, fun _ => .rfl, fun _ _ => rfl⟩

theorem Frame.trans {changed : Location → Prop} {s t u : Store} (h : Frame changed s t)
    (h' : Frame changed t u) : Frame changed s u where
  here := h'.here.trans h.here
  directory l := (h'.directory l).trans (h.directory l)
  locked l := (h'.locked l).trans (h.locked l)
  same l hl := (h'.same l hl).trans (h.same l hl)

theorem Frame.free_iff {changed : Location → Prop} {s t : Store} (h : Frame changed s t)
    {l : Location} : t.Free l ↔ s.Free l := by
  unfold Free
  rw [ne_eq, ne_eq, h.directory, h.locked]

theorem get?_put_self (s : Store) {l : Location} (h : l ≠ []) (e : Entry) :
    (s.put l e).get? l = some e := by
  unfold get? put
  rw [if_neg h]
  exact findEntry_putEntry_self l e s.entries

theorem get?_nil (s : Store) : s.get? [] = some .directory := rfl

theorem frame_put {changed : Location → Prop} {s : Store} {l : Location} (hl : s.Free l)
    (hchanged : changed l) (content : ByteArray) :
    Frame changed s (s.put l (.file content)) := by
  have hne : l ≠ [] := fun h => hl.1 (h ▸ s.get?_nil)
  have hput (e : Entry) (he : .file content ≠ e) (hl : s.get? l ≠ some e) (m : Location) :
      (s.put l (.file content)).get? m = some e ↔ s.get? m = some e := by
    by_cases hml : m = l
    · rw [hml, s.get?_put_self hne]
      exact iff_of_false (by simpa using he) hl
    · rw [s.get?_put_ne hml]
  exact ⟨rfl, hput .directory (by simp) hl.1, hput .locked (by simp) hl.2,
    fun m hm => s.get?_put_ne (fun h : m = l => hm (h ▸ hchanged)) _⟩

variable {changed : Location → Prop} {s t : Store}

theorem Frame.follow_iff (h : Frame changed s t) {parts : List String} {l m : Location} :
    t.follow l parts = .ok m ↔ s.follow l parts = .ok m := by
  induction parts generalizing l with
  | nil => rfl
  | cons part rest ih =>
    by_cases hl : s.get? l = some .directory
    · simp only [follow, hl, (h.directory l).2 hl]
      split
      · exact ih
      split
      · exact ih
      · exact ih
    · have ht : t.get? l ≠ some .directory := fun ht => hl ((h.directory l).1 ht)
      have hfails {u : Store} (hu : u.get? l ≠ some .directory) :
          u.follow l (part :: rest) ≠ .ok m := by
        unfold follow
        split
        · simp
        · simp
        · simp
        · next hdir => exact absurd hdir hu
      exact iff_of_false (hfails ht) (hfails hl)

theorem Frame.locate_iff (h : Frame changed s t) {p : Path} {l : Location} :
    t.locate p = .ok l ↔ s.locate p = .ok l := by
  unfold locate
  split
  · rfl
  · rw [h.here]
    exact h.follow_iff

theorem read_eq_ok {p : Path} {content : ByteArray} :
    s.read p = .ok content ↔ ∃ l, s.locate p = .ok l ∧ s.get? l = some (.file content) := by
  unfold read
  cases hl : s.locate p with
  | error reason => simp [bind, Except.bind]
  | ok l =>
    simp only [bind, Except.bind]
    split
    · next found hfound => simp [hfound]
    · next hlocked => simp [hlocked]
    · next hdir => simp [hdir]
    · next hnone => simp [hnone]

theorem isFile_iff {p : Path} :
    s.isFile p = true ↔ ∃ l, s.locate p = .ok l ∧
      ((∃ content, s.get? l = some (.file content)) ∨ s.get? l = some .locked) := by
  unfold isFile entry?
  cases hl : s.locate p with
  | error reason => simp
  | ok l =>
    simp only [Except.ok.injEq, exists_eq_left']
    split
    · next hfile => simp [hfile]
    · next hlocked => simp [hlocked]
    · next hfile hlocked => simpa using ⟨hfile, hlocked⟩

theorem follow_append {l : Location} {a b : List String} {m : Location} :
    s.follow l (a ++ b) = .ok m ↔ ∃ k, s.follow l a = .ok k ∧ s.follow k b = .ok m := by
  induction a generalizing l with
  | nil => simp [follow]
  | cons part rest ih =>
    simp only [List.cons_append, follow]
    split
    · simp
    · simp
    · simp
    · split
      · exact ih
      split
      · exact ih
      · exact ih

theorem follow_directory {l m : Location} {part : String} {rest : List String}
    (h : s.follow l (part :: rest) = .ok m) : s.get? l = some .directory := by
  unfold follow at h
  split at h
  · cases h
  · cases h
  · cases h
  · assumption

theorem eq_of_follow_void {parts : List String} (hvoid : parts.filterMap Path.Part.ofText? = [])
    {l m : Location} (h : s.follow l parts = .ok m) : m = l := by
  induction parts generalizing l with
  | nil => exact (Except.ok.inj h).symm
  | cons part rest ih =>
    have hdir := follow_directory h
    rw [List.filterMap_cons] at hvoid
    split at hvoid
    · next hpart =>
      have hdot : (part = "" || part = ".") = true := by
        unfold Path.Part.ofText? at hpart
        split at hpart
        · assumption
        · split at hpart <;> cases hpart
      simp only [follow, hdir, hdot, if_true] at h
      exact ih hvoid h
    · cases hvoid

theorem getLast?_of_follow {parts : List String} {name : String}
    (hlast : (parts.filterMap Path.Part.ofText?).getLast? = some (.name name)) {l m : Location}
    (h : s.follow l parts = .ok m) : m.getLast? = some name := by
  induction parts generalizing l with
  | nil => cases hlast
  | cons part rest ih =>
    have hdir := follow_directory h
    simp only [follow, hdir] at h
    simp only [List.filterMap_cons, Path.Part.ofText?] at hlast
    split at h
    · next hdot =>
      rw [if_pos hdot] at hlast
      exact ih hlast h
    next hdot =>
    rw [if_neg hdot] at hlast
    split at h
    · next hup =>
      rw [if_pos hup] at hlast
      dsimp only at hlast
      refine ih ?_ h
      cases hrest : rest.filterMap Path.Part.ofText? with
      | nil => simp [hrest] at hlast
      | cons x xs => simpa [hrest] using hlast
    · next hup =>
      rw [if_neg hup] at hlast
      dsimp only at hlast
      cases hrest : rest.filterMap Path.Part.ofText? with
      | nil =>
        rw [eq_of_follow_void hrest h]
        simpa [hrest] using hlast
      | cons x xs =>
        refine ih ?_ h
        simpa [hrest] using hlast

theorem getLast?_of_fileName? {p : Path} {name : String} (h : p.fileName? = some name) :
    (p.slashParts.filterMap Path.Part.ofText?).getLast? = some (.name name) := by
  have hlast : p.parts.getLast? = some (.name name) := by
    unfold Path.fileName? at h
    split at h
    · next hlast => rw [hlast, Option.some.inj h]
    · cases h
  have hbehind {x : Path.Part} (hx : x ≠ .name name) {xs : List Path.Part}
      (h : (x :: xs).getLast? = some (.name name)) : xs.getLast? = some (.name name) := by
    cases xs with
    | nil => exact absurd (Option.some.inj h) hx
    | cons y ys => rwa [List.getLast?_cons_cons] at h
  unfold Path.parts at hlast
  dsimp only at hlast
  split at hlast
  · exact hbehind (by simp) hlast
  split at hlast
  · exact hbehind (by simp) hlast
  · exact hlast

theorem getLast?_of_locate {p : Path} {name : String} (hname : p.fileName? = some name)
    {l : Location} (h : s.locate p = .ok l) : l.getLast? = some name := by
  unfold locate at h
  split at h
  · cases h
  · exact getLast?_of_follow (getLast?_of_fileName? hname) h

end Store

structure Path.IsName (name : String) : Prop where
  ne_empty : name ≠ ""
  ne_here : name ≠ "."
  ne_up : name ≠ ".."
  noSlash : '/' ∉ name.toList

def Path.dirParts (p : Path) : List String :=
  if p.text = "" then []
  else if Text.endsWith p.text "/" then p.slashParts.dropLast
  else p.slashParts

theorem Path.IsName.not_isAbsolute {name : String} (h : IsName name) :
    (Path.mk name).isAbsolute = false := by
  rw [← Bool.not_eq_true, isAbsolute, Text.startsWith, List.isPrefixOf_iff_prefix]
  rintro ⟨rest, hrest⟩
  exact h.noSlash (hrest ▸ List.mem_cons_self)

theorem Path.slashParts_append (a b : String) :
    (Path.mk (a ++ "/" ++ b)).slashParts = (Path.mk a).slashParts ++ (Path.mk b).slashParts := by
  have hlist : (a ++ "/" ++ b).toList = a.toList ++ '/' :: b.toList := by simp
  simp only [slashParts, hlist, List.splitOn_append_cons_self, List.map_append]

theorem Path.IsName.slashParts_eq {name : String} (h : IsName name) :
    (Path.mk name).slashParts = [name] := by
  simp [slashParts, List.splitOn_eq_singleton h.noSlash]

theorem Path.isAbsolute_append {a : String} (h : a ≠ "") (b : String) :
    (Path.mk (a ++ b)).isAbsolute = (Path.mk a).isAbsolute := by
  have hne : a.toList ≠ [] := by simpa using h
  unfold isAbsolute Text.startsWith
  cases hlist : a.toList with
  | nil => exact absurd hlist hne
  | cons c rest => simp [hlist, List.isPrefixOf]

theorem Path.exists_of_endsWith {text : String} (h : Text.endsWith text "/" = true) :
    ∃ front, text = front ++ "/" := by
  obtain ⟨front, hfront⟩ := List.isSuffixOf_iff_suffix.1 h
  refine ⟨.ofList front, ?_⟩
  rw [← String.toList_inj, ← hfront]
  simp

theorem Path.join_name (p : Path) {name : String} (h : IsName name) :
    (p.join ⟨name⟩).slashParts = p.dirParts ++ [name] ∧ (p.join ⟨name⟩).isAbsolute = p.isAbsolute ∧
      (p.join ⟨name⟩).text ≠ "" := by
  have hbehind (text : String) : text ++ name ≠ "" := fun heq =>
    h.ne_empty (String.append_eq_empty_iff.1 heq).2
  have hname := h.not_isAbsolute
  obtain ⟨text⟩ := p
  by_cases hempty : text = ""
  · have hjoin : (Path.mk text).join ⟨name⟩ = ⟨name⟩ := by simp [join, hname, hempty]
    have hdir : (Path.mk text).dirParts = [] := by rw [dirParts, if_pos hempty]
    rw [hjoin, h.slashParts_eq, hdir, hname, hempty]
    exact ⟨rfl, by decide, h.ne_empty⟩
  by_cases hslash : Text.endsWith text "/" = true
  · have hjoin : (Path.mk text).join ⟨name⟩ = ⟨text ++ name⟩ := by simp [join, hname, hslash]
    obtain ⟨front, rfl⟩ := exists_of_endsWith hslash
    have hparts : (Path.mk (front ++ "/")).slashParts = (Path.mk front).slashParts ++ [""] := by
      have happend := slashParts_append front ""
      rwa [String.append_empty, show (Path.mk "").slashParts = [""] by decide] at happend
    have hdir : (Path.mk (front ++ "/")).dirParts = (Path.mk front).slashParts := by
      rw [dirParts, if_neg hempty, if_pos hslash, hparts, List.dropLast_concat]
    rw [hjoin, slashParts_append, h.slashParts_eq, hdir, isAbsolute_append hempty]
    exact ⟨rfl, rfl, hbehind _⟩
  · have hjoin : (Path.mk text).join ⟨name⟩ = ⟨text ++ "/" ++ name⟩ := by
      simp [join, hname, hempty, hslash]
    have hdir : (Path.mk text).dirParts = (Path.mk text).slashParts := by
      rw [dirParts, if_neg hempty, if_neg hslash]
    rw [hjoin, slashParts_append, h.slashParts_eq, hdir, String.append_assoc,
      isAbsolute_append hempty]
    exact ⟨rfl, rfl, by rw [← String.append_assoc]; exact hbehind _⟩

namespace Store

variable {changed : Location → Prop} {s t : Store} {dir : Path} {name : String}

def Opens (s : Store) (dir : Path) (d : Location) : Prop :=
  s.follow (if dir.isAbsolute then [] else s.here) dir.dirParts = .ok d ∧ s.get? d = some .directory

theorem Opens.unique {d d' : Location} (h : s.Opens dir d) (h' : s.Opens dir d') : d = d' :=
  Except.ok.inj (h.1.symm.trans h'.1)

theorem Frame.opens_iff (h : Frame changed s t) {d : Location} : t.Opens dir d ↔ s.Opens dir d := by
  unfold Opens
  rw [h.here, h.follow_iff, h.directory]

theorem locate_join (hname : Path.IsName name) {l : Location} :
    s.locate (dir.join ⟨name⟩) = .ok l ↔ ∃ d, s.Opens dir d ∧ l = d ++ [name] := by
  obtain ⟨hparts, habsolute, htext⟩ := dir.join_name hname
  have hstep {d : Location} :
      s.follow d [name] = .ok l ↔ s.get? d = some .directory ∧ l = d ++ [name] := by
    constructor
    · intro h
      have hdir := follow_directory h
      simp only [follow, hdir, hname.ne_empty, hname.ne_here, hname.ne_up, decide_false,
        Bool.or_self, Bool.false_eq_true, if_false, Except.ok.injEq] at h
      exact ⟨hdir, h.symm⟩
    · rintro ⟨hdir, rfl⟩
      simp [follow, hdir, hname.ne_empty, hname.ne_here, hname.ne_up]
  rw [locate, if_neg htext, habsolute, hparts, follow_append]
  simp only [hstep, Opens, and_assoc]

theorem write_join {d : Location} (hname : Path.IsName name) (hopens : s.Opens dir d)
    (hfree : s.Free (d ++ [name])) (content : ByteArray) :
    s.write (dir.join ⟨name⟩) content = .ok (s.put (d ++ [name]) (.file content)) := by
  have hlocate := (locate_join hname).2 ⟨d, hopens, rfl⟩
  have hparent : s.checkParent (d ++ [name]) = .ok () := by
    rw [checkParent, List.dropLast_concat, hopens.2]
  simp only [write, hlocate, bind, Except.bind]
  split
  · next hdir => exact absurd hdir hfree.1
  · next hlocked => exact absurd hlocked hfree.2
  · rfl
  · rw [hparent]

theorem write_join_iff (hname : Path.IsName name) {content : ByteArray} :
    s.write (dir.join ⟨name⟩) content = .ok t ↔
      ∃ d, s.Opens dir d ∧ s.Free (d ++ [name]) ∧ t = s.put (d ++ [name]) (.file content) := by
  constructor
  · intro h
    have hwrite := h
    unfold write at h
    cases hlocate : s.locate (dir.join ⟨name⟩) with
    | error reason =>
      rw [hlocate] at h
      cases h
    | ok l =>
      obtain ⟨d, hopens, rfl⟩ := (locate_join hname).1 hlocate
      have hfree : s.Free (d ++ [name]) := by
        constructor
        · intro hdir
          simp only [hlocate, bind, Except.bind, hdir] at h
          cases h
        · intro hlocked
          simp only [hlocate, bind, Except.bind, hlocked] at h
          cases h
      refine ⟨d, hopens, hfree, ?_⟩
      rw [write_join hname hopens hfree] at hwrite
      exact (Except.ok.inj hwrite).symm
  · rintro ⟨d, hopens, hfree, rfl⟩
    exact write_join hname hopens hfree content

/-- Whether a file can be written; it does not depend on what is in it. -/
def accepts (s : Store) (p : Path) : Bool :=
  match s.write p .empty with
  | .ok _ => true
  | .error _ => false

theorem accepts_join (hname : Path.IsName name) :
    s.accepts (dir.join ⟨name⟩) = true ↔ ∃ d, s.Opens dir d ∧ s.Free (d ++ [name]) := by
  unfold accepts
  constructor
  · intro h
    split at h
    · next t hwrite =>
      obtain ⟨d, hopens, hfree, -⟩ := (write_join_iff hname).1 hwrite
      exact ⟨d, hopens, hfree⟩
    · cases h
  · rintro ⟨d, hopens, hfree⟩
    rw [write_join hname hopens hfree]

theorem Frame.accepts_eq (h : Frame changed s t) (hname : Path.IsName name) :
    t.accepts (dir.join ⟨name⟩) = s.accepts (dir.join ⟨name⟩) := by
  rw [Bool.eq_iff_iff, accepts_join hname, accepts_join hname]
  simp only [h.opens_iff, h.free_iff]

theorem contains_iff {p : Path} :
    s.contains p = true ↔ ∃ l e, s.locate p = .ok l ∧ s.get? l = some e := by
  unfold contains entry?
  cases hl : s.locate p with
  | error reason => simp
  | ok l => simp [Option.isSome_iff_exists]

theorem write_new {p : Path} {content : ByteArray} (habsent : s.contains p = false)
    (h : s.write p content = .ok t) :
    ∃ l, s.locate p = .ok l ∧ t.get? l = some (.file content) ∧
      (∀ m, m ≠ l → t.get? m = s.get? m) ∧ ∀ q m, t.locate q = .ok m ↔ s.locate q = .ok m := by
  unfold write at h
  cases hl : s.locate p with
  | error reason =>
    rw [hl] at h
    cases h
  | ok l =>
    have hnone : s.get? l = none := by
      cases he : s.get? l with
      | none => rfl
      | some e =>
        rw [contains_iff.2 ⟨l, e, hl, he⟩] at habsent
        cases habsent
    have hput : t = s.put l (.file content) := by
      simp only [hl, bind, Except.bind, hnone] at h
      split at h
      · cases h
      · exact (Except.ok.inj h).symm
    subst hput
    have hfree : s.Free l := by simp [Free, hnone]
    have hroot : l ≠ [] := fun hroot => hfree.1 (hroot ▸ s.get?_nil)
    have hframe : Frame (fun _ => True) s (s.put l (.file content)) :=
      frame_put hfree trivial content
    exact ⟨l, rfl, s.get?_put_self hroot _, fun m hm => s.get?_put_ne hm _,
      fun q m => hframe.locate_iff⟩

def save (dir : Path) (s : Store) (file : String × ByteArray) : Store :=
  match s.write (dir.join ⟨file.1⟩) file.2 with
  | .ok t => t
  | .error _ => s

def saveAll (dir : Path) (files : List (String × ByteArray)) (s : Store) : Store :=
  files.foldl (save dir) s

theorem saveAll_singleton (dir : Path) (file : String × ByteArray) (s : Store) :
    s.saveAll dir [file] = s.save dir file := rfl

theorem saveAll_append (dir : Path) (a b : List (String × ByteArray)) (s : Store) :
    s.saveAll dir (a ++ b) = (s.saveAll dir a).saveAll dir b := List.foldl_append

theorem save_of_write {file : String × ByteArray} (h : s.write (dir.join ⟨file.1⟩) file.2 = .ok t) :
    s.save dir file = t := by rw [save, h]

theorem save_of_not_write {file : String × ByteArray} {reason : FileError}
    (h : s.write (dir.join ⟨file.1⟩) file.2 = .error reason) : s.save dir file = s := by
  rw [save, h]

theorem save_of_accepts {file : String × ByteArray} (hname : Path.IsName file.1)
    (h : s.accepts (dir.join ⟨file.1⟩) = true) :
    ∃ d, s.Opens dir d ∧ s.Free (d ++ [file.1]) ∧
      s.save dir file = s.put (d ++ [file.1]) (.file file.2) ∧
      s.write (dir.join ⟨file.1⟩) file.2 = .ok (s.save dir file) := by
  obtain ⟨d, hopens, hfree⟩ := (accepts_join hname).1 h
  have hwrite := write_join hname hopens hfree file.2
  have hsave := save_of_write hwrite
  exact ⟨d, hopens, hfree, hsave, hsave ▸ hwrite⟩

theorem save_of_not_accepts {file : String × ByteArray} (hname : Path.IsName file.1)
    (h : s.accepts (dir.join ⟨file.1⟩) = false) :
    s.save dir file = s ∧ ∃ reason, s.write (dir.join ⟨file.1⟩) file.2 = .error reason := by
  cases hwrite : s.write (dir.join ⟨file.1⟩) file.2 with
  | error reason => exact ⟨save_of_not_write hwrite, reason, rfl⟩
  | ok t =>
    obtain ⟨d, hopens, hfree, -⟩ := (write_join_iff hname).1 hwrite
    rw [(accepts_join hname).2 ⟨d, hopens, hfree⟩] at h
    cases h

theorem frame_save {file : String × ByteArray} (hname : Path.IsName file.1)
    (hchanged : ∀ d, changed (d ++ [file.1])) : Frame changed s (s.save dir file) := by
  cases h : s.accepts (dir.join ⟨file.1⟩) with
  | false =>
    rw [(save_of_not_accepts hname h).1]
    exact .refl changed s
  | true =>
    obtain ⟨d, hopens, hfree, hsave, -⟩ := save_of_accepts hname h
    rw [hsave]
    exact frame_put hfree (hchanged d) file.2

theorem frame_saveAll {files : List (String × ByteArray)}
    (hnames : ∀ file ∈ files, Path.IsName file.1)
    (hchanged : ∀ file ∈ files, ∀ d, changed (d ++ [file.1])) :
    Frame changed s (s.saveAll dir files) := by
  induction files generalizing s with
  | nil => exact .refl changed s
  | cons file rest ih =>
    obtain ⟨hname, hnames⟩ := List.forall_mem_cons.1 hnames
    obtain ⟨hfile, hrest⟩ := List.forall_mem_cons.1 hchanged
    exact (frame_save hname hfile).trans (ih hnames hrest)

theorem read_congr {p : Path} {l : Location} (hs : s.locate p = .ok l) (ht : t.locate p = .ok l)
    (h : t.get? l = s.get? l) : t.read p = s.read p := by
  simp only [read, hs, ht, bind, Except.bind, h]

theorem read_save_self {file : String × ByteArray} (hname : Path.IsName file.1)
    (h : s.accepts (dir.join ⟨file.1⟩) = true) :
    (s.save dir file).read (dir.join ⟨file.1⟩) = .ok file.2 := by
  obtain ⟨d, hopens, hfree, hsave, -⟩ := save_of_accepts hname h
  have hframe : Frame (fun _ => True) s (s.save dir file) := frame_save hname fun _ => trivial
  refine read_eq_ok.2 ⟨d ++ [file.1], (locate_join hname).2 ⟨d, hframe.opens_iff.2 hopens, rfl⟩, ?_⟩
  rw [hsave]
  exact s.get?_put_self (by simp) _

theorem read_save_ne {file : String × ByteArray} (hfile : Path.IsName file.1)
    (hname : Path.IsName name) (hne : file.1 ≠ name) (h : s.accepts (dir.join ⟨name⟩) = true) :
    (s.save dir file).read (dir.join ⟨name⟩) = s.read (dir.join ⟨name⟩) := by
  obtain ⟨d, hopens, -⟩ := (accepts_join hname).1 h
  have hframe : Frame (fun l => l.getLast? = some file.1) s (s.save dir file) :=
    frame_save hfile fun _ => List.getLast?_concat
  refine read_congr ((locate_join hname).2 ⟨d, hopens, rfl⟩)
    ((locate_join hname).2 ⟨d, hframe.opens_iff.2 hopens, rfl⟩) (hframe.same _ ?_)
  simpa using Ne.symm hne

theorem read_saveAll {files : List (String × ByteArray)}
    (hnames : ∀ file ∈ files, Path.IsName file.1)
    (hname : Path.IsName name) (h : s.accepts (dir.join ⟨name⟩) = true) :
    (s.saveAll dir files).read (dir.join ⟨name⟩) =
      ((files.filter (·.1 = name)).getLast?.map fun file => .ok file.2).getD
        (s.read (dir.join ⟨name⟩)) := by
  induction files generalizing s with
  | nil => rfl
  | cons file rest ih =>
    obtain ⟨hfile, hrest⟩ := List.forall_mem_cons.1 hnames
    have hframe : Frame (fun _ => True) s (s.save dir file) := frame_save hfile fun _ => trivial
    have hstep := ih hrest (hframe.accepts_eq hname ▸ h)
    rw [saveAll, List.foldl_cons]
    rw [saveAll] at hstep
    rw [hstep, List.filter_cons]
    by_cases hsame : file.1 = name
    · subst hsame
      rw [read_save_self hfile h, if_pos (by simp)]
      cases hlast : rest.filter (·.1 = file.1) with
      | nil => rfl
      | cons x xs =>
        rw [List.getLast?_cons_cons, List.getLast?_eq_some_getLast (List.cons_ne_nil x xs)]
        rfl
    · rw [read_save_ne hfile hname hsame h, if_neg (by simpa using hsame)]

def refusal? (s : Store) (p : Path) : Option FileError :=
  match s.write p .empty with
  | .ok _ => none
  | .error reason => some reason

theorem write_error {p : Path} {a : ByteArray} {reason : FileError}
    (h : s.write p a = .error reason) (b : ByteArray) : s.write p b = .error reason := by
  unfold write at h ⊢
  cases hlocate : s.locate p with
  | error other =>
    rw [hlocate] at h
    exact h
  | ok l =>
    simp only [hlocate, bind, Except.bind] at h ⊢
    split at h
    · exact h
    · exact h
    · cases h
    · cases hparent : s.checkParent l with
      | error other =>
        rw [hparent] at h
        exact h
      | ok _ =>
        rw [hparent] at h
        cases h

theorem refusal?_of_error {p : Path} {content : ByteArray} {reason : FileError}
    (h : s.write p content = .error reason) : s.refusal? p = some reason := by
  rw [refusal?, write_error h .empty]

theorem refusal?_of_ok {p : Path} {content : ByteArray} (h : s.write p content = .ok t) :
    s.refusal? p = none := by
  unfold refusal?
  split
  · rfl
  · next hwrite => cases h.symm.trans (write_error hwrite content)

/-- In a directory that can be opened, only a directory and a locked file are in the way of a
file. -/
theorem refusal?_of_opens {d : Location} (hname : Path.IsName name) (hopens : s.Opens dir d) :
    s.refusal? (dir.join ⟨name⟩) =
      match s.get? (d ++ [name]) with
      | some .directory => some .isDirectory
      | some .locked => some .denied
      | _ => none := by
  have hlocate := (locate_join hname).2 ⟨d, hopens, rfl⟩
  split
  · next hdir => simp only [refusal?, write, hlocate, bind, Except.bind, hdir]
  · next hlocked => simp only [refusal?, write, hlocate, bind, Except.bind, hlocked]
  · next hdir hlocked => exact refusal?_of_ok (write_join hname hopens ⟨hdir, hlocked⟩ .empty)

theorem refusal?_save {file : String × ByteArray} (hfile : Path.IsName file.1)
    (hname : Path.IsName name) :
    (s.save dir file).refusal? (dir.join ⟨name⟩) = s.refusal? (dir.join ⟨name⟩) := by
  cases h : s.accepts (dir.join ⟨file.1⟩) with
  | false => rw [(save_of_not_accepts hfile h).1]
  | true =>
    obtain ⟨d, hopens, -⟩ := save_of_accepts hfile h
    have hframe : Frame (fun _ => True) s (s.save dir file) := frame_save hfile fun _ => trivial
    rw [refusal?_of_opens hname hopens, refusal?_of_opens hname (hframe.opens_iff.2 hopens)]
    by_cases hdir : s.get? (d ++ [name]) = some .directory
    · rw [hdir, (hframe.directory _).2 hdir]
    by_cases hlocked : s.get? (d ++ [name]) = some .locked
    · rw [hlocked, (hframe.locked _).2 hlocked]
    · split
      · next hsave => exact absurd ((hframe.directory _).1 hsave) hdir
      · next hsave => exact absurd ((hframe.locked _).1 hsave) hlocked
      · rfl

theorem refusal?_saveAll {files : List (String × ByteArray)}
    (hnames : ∀ file ∈ files, Path.IsName file.1) (hname : Path.IsName name) :
    (s.saveAll dir files).refusal? (dir.join ⟨name⟩) = s.refusal? (dir.join ⟨name⟩) := by
  induction files generalizing s with
  | nil => rfl
  | cons file rest ih =>
    obtain ⟨hfile, hrest⟩ := List.forall_mem_cons.1 hnames
    exact (ih hrest).trans (refusal?_save hfile hname)

def Takes (s : Store) (dir : Path) (l : Location) (name : String) : Prop :=
  Path.IsName name ∧ s.locate (dir.join ⟨name⟩) = .ok l ∧ s.Free l

theorem Frame.takes_iff (h : Frame changed s t) {l : Location} :
    t.Takes dir l name ↔ s.Takes dir l name := by
  unfold Takes
  rw [h.locate_iff, h.free_iff]

theorem Takes.accepts {l : Location} (h : s.Takes dir l name) :
    s.accepts (dir.join ⟨name⟩) = true := by
  obtain ⟨hname, hlocate, hfree⟩ := h
  obtain ⟨d, hopens, rfl⟩ := (locate_join hname).1 hlocate
  exact (accepts_join hname).2 ⟨d, hopens, hfree⟩

theorem frame_saveAll_takes {files : List (String × ByteArray)}
    (hnames : ∀ file ∈ files, Path.IsName file.1) :
    Frame (fun l => ∃ name, s.Takes dir l name) s (s.saveAll dir files) := by
  induction files generalizing s with
  | nil => exact .refl _ s
  | cons file rest ih =>
    obtain ⟨hname, hrest⟩ := List.forall_mem_cons.1 hnames
    have hfirst : Frame (fun l => ∃ name, s.Takes dir l name) s (s.save dir file) := by
      cases h : s.accepts (dir.join ⟨file.1⟩) with
      | false =>
        rw [(save_of_not_accepts hname h).1]
        exact .refl _ s
      | true =>
        obtain ⟨d, hopens, hfree, hsave, -⟩ := save_of_accepts hname h
        rw [hsave]
        exact frame_put hfree ⟨file.1, hname, (locate_join hname).2 ⟨d, hopens, rfl⟩, hfree⟩ file.2
    have hothers := ih (s := s.save dir file) hrest
    simp only [hfirst.takes_iff] at hothers
    exact hfirst.trans hothers

theorem get?_of_read_eq {p : Path} {l : Location} (hs : s.locate p = .ok l)
    (ht : t.locate p = .ok l) (hsfree : s.Free l) (htfree : t.Free l) (h : s.read p = t.read p) :
    s.get? l = t.get? l := by
  simp only [read, hs, ht, bind, Except.bind] at h
  unfold Free at hsfree htfree
  cases hsl : s.get? l with
  | none =>
    cases htl : t.get? l with
    | none => rfl
    | some entry => cases entry <;> simp_all
  | some entry =>
    cases htl : t.get? l with
    | none => cases entry <;> simp_all
    | some other => cases entry <;> cases other <;> simp_all

def Same (s t : Store) : Prop := s.here = t.here ∧ ∀ l, s.get? l = t.get? l

/-- Only files of one name depend on the order in which files are written. -/
theorem same_saveAll {files others : List (String × ByteArray)}
    (hfiles : ∀ file ∈ files, Path.IsName file.1) (hothers : ∀ file ∈ others, Path.IsName file.1)
    (h : ∀ name, files.filter (·.1 = name) = others.filter (·.1 = name)) :
    (s.saveAll dir files).Same (s.saveAll dir others) := by
  have hframe : Frame (fun l => ∃ name, s.Takes dir l name) s (s.saveAll dir files) :=
    frame_saveAll_takes hfiles
  have hframe' : Frame (fun l => ∃ name, s.Takes dir l name) s (s.saveAll dir others) :=
    frame_saveAll_takes hothers
  refine ⟨hframe.here.trans hframe'.here.symm, fun l => ?_⟩
  by_cases htakes : ∃ name, s.Takes dir l name
  · obtain ⟨name, htakes⟩ := htakes
    obtain ⟨-, hlocate, hfree⟩ := hframe.takes_iff.2 htakes
    obtain ⟨-, hlocate', hfree'⟩ := hframe'.takes_iff.2 htakes
    refine get?_of_read_eq hlocate hlocate' hfree hfree' ?_
    rw [read_saveAll hfiles htakes.1 htakes.accepts,
      read_saveAll hothers htakes.1 htakes.accepts, h]
  · exact (hframe.same l htakes).trans (hframe'.same l htakes).symm

end Store

end VippDocdef
