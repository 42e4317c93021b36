import VippDocdef.Proofs.Bracketing
import VippDocdef.Proofs.Requests

/-! Calls in the lines of programs. A program calls the formats of just those subroutines whose
formats stand in it, and each of these formats stands in it once. -/

set_option autoImplicit false

namespace VippDocdef.Docdef

def texts (lines : List Line) : List String := lines.map (·.text)

@[simp] theorem texts_nil : texts [] = [] := rfl

@[simp] theorem texts_cons (x : Line) (rest : List Line) :
    texts (x :: rest) = x.text :: texts rest := rfl

@[simp] theorem texts_append (a b : List Line) : texts (a ++ b) = texts a ++ texts b := by
  simp [texts]

@[simp] theorem texts_indented (a : List Line) : texts (indented a) = texts a := by
  simp [texts, indented, Line.deeper]

@[simp] theorem texts_flush (ts : List String) : texts (flush ts) = ts := by
  simp [texts, flush, Function.comp_def]

def callLine (name : String) : String := s!"USE FORMAT SR_{name};"

def sectionLine (name : String) : String := s!"DOCFORMAT {formatOfRoutine name};"

def shows (text line : String) : Bool := line.toList.dropWhile (· == ' ') == text.toList

structure IsFormatLine (start : List Char) (lineOf : String → String) : Prop where
  mem : start ∈ formatStarts
  toList : ∀ name, (lineOf name).toList = start ++ (name.toList ++ [';'])

theorem isFormatLine_call : IsFormatLine callStart callLine where
  mem := by decide
  toList name := by
    unfold callLine
    simp [callStart, toString]

theorem isFormatLine_section : IsFormatLine sectionStart sectionLine where
  mem := by decide
  toList name := by
    unfold sectionLine formatOfRoutine
    simp [sectionStart, toString]

theorem equals_infix_name {before name : List Char} (hb : '=' ∉ before)
    (h : equals <:+: before ++ '_' :: (name ++ [';'])) : equals <:+: name := by
  induction before with
  | nil =>
    rcases List.infix_cons_iff.1 h with h | h
    · simp [equals] at h
    · rcases List.infix_concat_iff.1 h with h | h
      · obtain h | ⟨t, ht, -⟩ := List.suffix_concat_iff.1 h
        · cases h
        · have hlast := congrArg List.getLast? ht
          simp [equals] at hlast
      · exact h
  | cons c rest ih =>
    rcases List.infix_cons_iff.1 h with h | h
    · cases rest <;> simp_all [equals]
    · exact ih (fun hmem => hb (List.mem_cons_of_mem c hmem)) h

theorem shows_lineAt (text : String) (level : Nat) (line : String) :
    shows text (lineAt level line) = shows text line := by
  simp [shows, lineAt, Line.indentation]

namespace IsFormatLine

variable {start : List Char} {lineOf : String → String} (k : IsFormatLine start lineOf)
include k

theorem injective {a b : String} (h : lineOf a = lineOf b) : a = b := by
  have hlist := congrArg String.toList h
  rw [k.toList, k.toList] at hlist
  exact String.toList_inj.1 (List.append_cancel_right (List.append_cancel_left hlist))

theorem shows_iff (a b : String) : shows (lineOf a) (lineOf b) = true ↔ b = a := by
  have hstart :
      ∀ start ∈ formatStarts, start.dropWhile (· == ' ') = start ∧ start.isEmpty = false := by
    decide
  obtain ⟨hdrop, hne⟩ := hstart start k.mem
  have hself : (lineOf b).toList.dropWhile (· == ' ') = (lineOf b).toList := by
    rw [k.toList, List.dropWhile_append, hdrop, hne]
    rfl
  unfold shows
  rw [hself, beq_iff_eq]
  exact ⟨fun h => k.injective (String.toList_inj.1 h), fun h => h ▸ rfl⟩

theorem ne_empty (name : String) : lineOf name ≠ "" := by
  intro h
  have hlist := congrArg String.toList h
  rw [k.toList] at hlist
  simp at hlist

theorem not_shows {name line : String} (hname : ¬ equals <:+: name.toList) (h : Apart start line) :
    shows (lineOf name) line = false := by
  rw [← Bool.not_eq_true]
  intro hshow
  have hline : line.toList.dropWhile (· == ' ') = start ++ (name.toList ++ [';']) := by
    simpa [shows, k.toList] using hshow
  rcases h with h | h
  · exact h (hline ▸ List.prefix_append _ _)
  · -- an assignment: neither the indentation nor the start has an equals sign, so the name must
    have hlast : ∀ start ∈ formatStarts, start.getLast? = some '_' ∧ '=' ∉ start := by decide
    obtain ⟨hunderscore, hequals⟩ := hlast start k.mem
    obtain ⟨init, rfl⟩ := List.getLast?_eq_some_iff.1 hunderscore
    rw [← List.takeWhile_append_dropWhile (p := (· == ' ')) (l := line.toList), hline] at h
    have hbefore : '=' ∉ line.toList.takeWhile (· == ' ') ++ init := by
      intro hmem
      rcases List.mem_append.1 hmem with hmem | hmem
      · exact absurd (List.all_eq_true.1 List.all_takeWhile _ hmem) (by decide)
      · exact hequals (List.mem_append_left _ hmem)
    exact hname (equals_infix_name hbefore (by simpa using h))

theorem not_apart {name : String} (hname : ¬ equals <:+: name.toList) :
    ¬ Apart start (lineOf name) := by
  intro h
  have hself := (k.shows_iff name name).2 rfl
  rw [k.not_shows hname h] at hself
  cases hself

theorem not_shows_write {d : Detector} {x : Line} (hx : Apart start x.text) {name : String}
    (hname : ¬ equals <:+: name.toList) : shows (lineOf name) (x.write d) = false := by
  have hblank : ∀ start ∈ formatStarts, Apart start "" := by decide
  have hcomment : ∀ start ∈ formatStarts, isApart start "/* " = true := by decide
  unfold Line.write
  split
  · exact k.not_shows hname (hblank start k.mem)
  · show shows (lineOf name) (lineAt x.depth (d.sanitize x.text)) = false
    rw [shows_lineAt]
    unfold Detector.sanitize
    split
    · rw [String.append_assoc]
      exact k.not_shows hname (apart_append (hcomment start k.mem) _)
    · exact k.not_shows hname hx

theorem shows_write {d : Detector} {x : Line}
    (hx : Apart start x.text ∨ ∃ other, x.text = lineOf other)
    (hd : ∀ other, x.text = lineOf other → d.flags x.text = false) {name : String}
    (hname : ¬ equals <:+: name.toList) :
    shows (lineOf name) (x.write d) = true ↔ x.text = lineOf name := by
  by_cases hline : ∃ other, x.text = lineOf other
  · obtain ⟨other, hother⟩ := hline
    have hwrite : x.write d = lineAt x.depth (lineOf other) := by
      obtain ⟨depth, text⟩ := x
      obtain rfl : text = lineOf other := hother
      exact write_of_not_flagged (hd other rfl) (k.ne_empty other) depth
    rw [hwrite, shows_lineAt, k.shows_iff, hother]
    exact ⟨fun h => h ▸ rfl, fun h => k.injective h⟩
  · rw [k.not_shows_write (hx.resolve_right hline) hname]
    exact ⟨(nomatch ·), fun h => absurd ⟨name, h⟩ hline⟩

theorem countP_shows {d : Detector} {lines : List Line}
    (hlines : ∀ t ∈ texts lines, Apart start t ∨ ∃ other, t = lineOf other)
    (hd : ∀ t ∈ texts lines, ∀ other, t = lineOf other → d.flags t = false) {name : String}
    (hname : ¬ equals <:+: name.toList) :
    (Listing.add d {} lines).written.countP (shows (lineOf name))
      = (texts lines).count (lineOf name) := by
  have hwritten : (Listing.add d {} lines).written = lines.map (Line.write d) := by
    simp [Listing.add]
  rw [hwritten, List.countP_map, texts, List.count, List.countP_map]
  apply List.countP_congr
  intro x hx
  have hmem : x.text ∈ texts lines := List.mem_map_of_mem hx
  simpa using k.shows_write (hlines _ hmem) (hd _ hmem) hname

end IsFormatLine

theorem Block.callLine_mem_texts {b : Block} {name : String} (h : .routine name ∈ b.statements) :
    callLine name ∈ texts b.lines := by
  induction b with
  | done => cases h
  | statement s rest ih =>
    simp only [lines, texts_append, List.mem_append]
    rcases List.mem_cons.1 h with rfl | h
    · exact .inl List.mem_cons_self
    · exact .inr (ih h)
  | ifThen header yes rest hy hr =>
    rcases List.mem_append.1 h with h | h
    · simp [lines, hy h]
    · simp [lines, hr h]
  | ifThenElse header yes no rest hy hn hr =>
    rcases List.mem_append.1 h with h | h
    · simp [lines, hy h]
    · rcases List.mem_append.1 h with h | h
      · simp [lines, hn h]
      · simp [lines, hr h]
  | outline body rest hb hr =>
    rcases List.mem_append.1 h with h | h
    · simp [lines, hb h]
    · simp [lines, hr h]

/-- The text does not name a format, or it is a call. -/
def CallOrApart (calls : List Statement) (text : String) : Prop :=
  (Apart callStart text ∨ ∃ name, .routine name ∈ calls ∧ text = callLine name) ∧
    ∀ start ∈ headStarts, Apart start text

theorem CallOrApart.mono {calls calls' : List Statement} {text : String}
    (h : CallOrApart calls text) (hsub : calls ⊆ calls') : CallOrApart calls' text := by
  obtain ⟨hcall | ⟨name, hname, htext⟩, hheads⟩ := h
  · exact ⟨.inl hcall, hheads⟩
  · exact ⟨.inr ⟨name, hsub hname, htext⟩, hheads⟩

def Nameless (text : String) : Prop := ∀ start ∈ formatStarts, Apart start text

instance (text : String) : Decidable (Nameless text) :=
  inferInstanceAs (Decidable (∀ start ∈ formatStarts, Apart start text))

def isNamelessStart (head : String) : Bool := formatStarts.all (isApart · head)

theorem nameless_append {head : String} (h : isNamelessStart head = true) (rest : String) :
    Nameless (head ++ rest) :=
  fun start hstart => apart_append (List.all_eq_true.1 h start hstart) rest

theorem nameless_of_start {text : String} (h : isNamelessStart text = true) : Nameless text := by
  simpa using nameless_append h ""

@[simp] theorem nameless_empty : Nameless "" := by decide

theorem Ordinary.nameless {text : String} (h : Ordinary text) : Nameless text :=
  fun start hstart => h start (List.mem_append_left _ hstart)

theorem Nameless.apart_call {text : String} (h : Nameless text) : Apart callStart text :=
  h callStart List.mem_cons_self

theorem Nameless.callOrApart {text : String} (h : Nameless text) (calls : List Statement) :
    CallOrApart calls text :=
  ⟨.inl h.apart_call, fun start hstart => h start (List.mem_cons_of_mem _ hstart)⟩

theorem Statement.IsData.callOrApart {s : Statement} (h : s.IsData) :
    ∀ t ∈ texts s.lines, CallOrApart [s] t := by
  intro t ht
  by_cases hs : ∃ name, s = .routine name
  · obtain ⟨name, rfl⟩ := hs
    obtain rfl : t = callLine name := List.mem_singleton.1 ht
    have hstart : ∀ start ∈ headStarts, isApart start "USE FORMAT SR_" = true := by decide
    refine ⟨.inr ⟨name, List.mem_cons_self, rfl⟩, fun start h => ?_⟩
    unfold callLine
    rw [String.append_assoc]
    exact apart_append (hstart start h) _
  · obtain ⟨x, hx, rfl⟩ := List.mem_map.1 ht
    exact (h.ordinary (not_exists.1 hs) x hx).nameless.callOrApart _

theorem Condition.IsHeader.callOrApart {header : String} (h : IsHeader header)
    (calls : List Statement) : CallOrApart calls header := by
  obtain ⟨test, rfl⟩ := h
  apply Nameless.callOrApart
  simp (disch := decide) only [String.append_assoc, nameless_append]

def frameTexts : List String :=
  ["THEN;", "ELSE;", "ENDIF;", "ENDIO;"] ++ texts Block.outlineHead

theorem callOrApart_frame {t : String} (h : t ∈ frameTexts) (calls : List Statement) :
    CallOrApart calls t := by
  have hnameless : ∀ t ∈ frameTexts, Nameless t := by decide
  exact (hnameless t h).callOrApart calls

theorem Block.Sound.callOrApart {b : Block} (h : b.Sound) :
    ∀ t ∈ texts b.lines, CallOrApart b.statements t := by
  induction h with
  | done => simp [lines]
  | statement isData next ih =>
    simp only [lines, texts_append, List.forall_mem_append]
    refine ⟨fun t ht => ?_, fun t ht => ?_⟩
    · exact (isData.callOrApart t ht).mono (by simp [statements])
    · exact (ih t ht).mono (List.subset_cons_self _ _)
  | ifThen isHeader first next hfirst hnext =>
    simp only [lines, texts_append, texts_indented, texts_flush, List.forall_mem_append,
      List.forall_mem_cons]
    refine ⟨⟨⟨⟨isHeader.callOrApart _, ?_, List.forall_mem_nil _⟩, fun t ht => ?_⟩,
      ?_, List.forall_mem_nil _⟩, fun t ht => ?_⟩
    · exact callOrApart_frame (by simp [frameTexts]) _
    · exact (hfirst t ht).mono (List.subset_append_left _ _)
    · exact callOrApart_frame (by simp [frameTexts]) _
    · exact (hnext t ht).mono (List.subset_append_right _ _)
  | ifThenElse isHeader first second next hfirst hsecond hnext =>
    simp only [lines, texts_append, texts_indented, texts_flush, List.forall_mem_append,
      List.forall_mem_cons]
    refine ⟨⟨⟨⟨⟨⟨isHeader.callOrApart _, ?_, List.forall_mem_nil _⟩, fun t ht => ?_⟩,
      ?_, List.forall_mem_nil _⟩, fun t ht => ?_⟩, ?_, List.forall_mem_nil _⟩, fun t ht => ?_⟩
    · exact callOrApart_frame (by simp [frameTexts]) _
    · exact (hfirst t ht).mono (List.subset_append_left _ _)
    · exact callOrApart_frame (by simp [frameTexts]) _
    · exact (hsecond t ht).mono (by simp [statements])
    · exact callOrApart_frame (by simp [frameTexts]) _
    · exact (hnext t ht).mono (by simp [statements])
  | outline inside next hinside hnext =>
    simp only [lines, texts_append, texts_indented, texts_flush, List.forall_mem_append,
      List.forall_mem_cons]
    refine ⟨⟨⟨fun t ht => ?_, fun t ht => ?_⟩, ?_, List.forall_mem_nil _⟩, fun t ht => ?_⟩
    · exact callOrApart_frame (List.mem_append_right _ ht) _
    · exact (hinside t ht).mono (List.subset_append_left _ _)
    · exact callOrApart_frame (by simp [frameTexts]) _
    · exact (hnext t ht).mono (List.subset_append_right _ _)

/-- The calls among some lines are to these subroutines. -/
structure CallsOf (calls : List Statement) (lines : List Line) : Prop where
  sound : ∀ t ∈ texts lines, Apart callStart t ∨ ∃ name, .routine name ∈ calls ∧ t = callLine name
  complete : ∀ name, .routine name ∈ calls → callLine name ∈ texts lines

def Throughout (like : String → Prop) (lines : List Line) : Prop := ∀ t ∈ texts lines, like t

section Throughout

variable {like : String → Prop} {a b : List Line}

@[simp] theorem throughout_append :
    Throughout like (a ++ b) ↔ Throughout like a ∧ Throughout like b := by
  simp only [Throughout, texts_append, List.forall_mem_append]

@[simp] theorem throughout_indented : Throughout like (indented a) ↔ Throughout like a := by
  simp only [Throughout, texts_indented]

@[simp] theorem throughout_flush {ts : List String} :
    Throughout like (flush ts) ↔ ∀ t ∈ ts, like t := by
  simp only [Throughout, texts_flush]

@[simp] theorem throughout_nil : Throughout like [] := nofun

@[simp] theorem throughout_cons {x : Line} :
    Throughout like (x :: a) ↔ like x.text ∧ Throughout like a := by
  simp only [Throughout, texts_cons, List.forall_mem_cons]

end Throughout

abbrev NoCalls (lines : List Line) : Prop := Throughout (Apart callStart) lines

theorem noCalls_of_nameless {lines : List Line} (h : Throughout Nameless lines) : NoCalls lines :=
  fun t ht => (h t ht).apart_call

theorem apart_of_start {start : List Char} {text : String} (h : isApart start text = true) :
    Apart start text := by
  simpa using apart_append h ""

@[simp] theorem apart_empty : Apart callStart "" := by decide

theorem Block.Sound.callsOf {b : Block} (h : b.Sound) : CallsOf b.statements b.lines where
  sound t ht := (h.callOrApart t ht).1
  complete _ hname := callLine_mem_texts hname

namespace CallsOf

variable {calls calls' : List Statement} {a b : List Line}

theorem append (ha : CallsOf calls a) (hb : CallsOf calls' b) :
    CallsOf (calls ++ calls') (a ++ b) where
  sound t ht := by
    rw [texts_append, List.mem_append] at ht
    rcases ht with ht | ht
    · exact (ha.sound t ht).imp_right fun ⟨name, hname, htext⟩ =>
        ⟨name, List.mem_append_left _ hname, htext⟩
    · exact (hb.sound t ht).imp_right fun ⟨name, hname, htext⟩ =>
        ⟨name, List.mem_append_right _ hname, htext⟩
  complete name hname := by
    rw [texts_append, List.mem_append]
    exact (List.mem_append.1 hname).imp (ha.complete name) (hb.complete name)

theorem none (h : NoCalls a) : CallsOf [] a where
  sound t ht := .inl (h t ht)
  complete _ hname := nomatch hname

theorem behind (h : CallsOf calls b) (ha : NoCalls a) : CallsOf calls (a ++ b) := (none ha).append h

theorem before (h : CallsOf calls a) (hb : NoCalls b) : CallsOf calls (a ++ b) := by
  simpa using h.append (none hb)

theorem indented (h : CallsOf calls a) : CallsOf calls (indented a) where
  sound := by simpa using h.sound
  complete := by simpa using h.complete

theorem shows_iff (h : CallsOf calls a) {d : Detector}
    (hd : ∀ t ∈ texts a, ∀ name, t = callLine name → d.flags t = false) {name : String}
    (hname : ¬ equals <:+: name.toList) :
    (∃ line ∈ (Listing.add d {} a).written, shows (callLine name) line = true)
      ↔ .routine name ∈ calls := by
  have hlines : ∀ t ∈ texts a, Apart callStart t ∨ ∃ other, t = callLine other := fun t ht =>
    (h.sound t ht).imp_right fun ⟨other, _, htext⟩ => ⟨other, htext⟩
  rw [← List.countP_pos_iff, isFormatLine_call.countP_shows hlines hd hname, List.count_pos_iff]
  refine ⟨fun hmem => ?_, h.complete name⟩
  rcases h.sound _ hmem with hapart | ⟨other, hother, htext⟩
  · exact absurd hapart (isFormatLine_call.not_apart hname)
  · rwa [isFormatLine_call.injective htext]

end CallsOf

def Bodies.Sound (b : Bodies) : Prop := ∀ body ∈ b.bodies, body.2.Sound

theorem sound_caseBodies (e : Env) (cases : List Case) (s : State) :
    (caseBodies e cases s).Sound := by
  induction cases generalizing s with
  | nil => exact nofun
  | cons c rest ih => exact List.forall_mem_cons.2 ⟨sound_emitNested e _ _ _, ih _⟩

theorem sound_routineBodies (e : Env) (x y : Float) (most : Nat) (s : State) :
    (routineBodies e x y most s).Sound := by
  fun_induction routineBodies e x y most s with
  | case1 => exact nofun
  | case2 => exact nofun
  | case3 _ _ _ _ _ _ ih => exact ih
  | case4 _ _ _ _ _ _ _ _ _ ih => exact List.forall_mem_cons.2 ⟨sound_emitNested e _ _ _, ih⟩

theorem callsOf_formatLines (name : String) {body : Block} (h : body.Sound) :
    CallsOf body.statements (formatLines name body) := by
  refine (h.callsOf.indented.behind ?_).before ?_
  · simp (disch := decide) [String.append_assoc, apart_append]
  · simp [Line.blank]

theorem Bodies.Sound.callsOf {b : Bodies} (h : b.Sound) (formatOf : String → String) :
    CallsOf b.statements (b.lines formatOf) := by
  obtain ⟨bodies, state⟩ := b
  unfold Bodies.lines Bodies.statements
  induction bodies with
  | nil => exact .none nofun
  | cons body rest ih =>
    obtain ⟨hbody, hrest⟩ := List.forall_mem_cons.1 h
    exact (callsOf_formatLines _ hbody).append (ih hrest)

theorem texts_routineLines (name : String) (body : Block) :
    texts (formatLines (formatOfRoutine name) body)
      = sectionLine name :: (texts body.lines ++ [""]) := by
  simp [formatLines, sectionLine, Line.blank]

theorem Bodies.Sound.sectionLine_or_apart {b : Bodies} (h : b.Sound) :
    ∀ t ∈ texts (b.lines formatOfRoutine), Apart sectionStart t ∨ ∃ name, t = sectionLine name := by
  obtain ⟨bodies, state⟩ := b
  unfold Bodies.lines
  induction bodies with
  | nil => exact nofun
  | cons body rest ih =>
    obtain ⟨hbody, hrest⟩ := List.forall_mem_cons.1 h
    simp only [List.flatMap_cons, texts_append, texts_routineLines, List.forall_mem_append,
      List.forall_mem_cons]
    refine ⟨⟨.inr ⟨body.1, rfl⟩, fun t ht => ?_, .inl (by decide), List.forall_mem_nil _⟩, ih hrest⟩
    exact .inl ((hbody.callOrApart t ht).2 sectionStart (by decide))

theorem Bodies.Sound.count_sectionLine {b : Bodies} (h : b.Sound) {name : String}
    (hname : ¬ equals <:+: name.toList) :
    (texts (b.lines formatOfRoutine)).count (sectionLine name) = b.names.count name := by
  obtain ⟨bodies, state⟩ := b
  unfold Bodies.lines Bodies.names
  induction bodies with
  | nil => rfl
  | cons body rest ih =>
    obtain ⟨key, block⟩ := body
    obtain ⟨hbody, hrest⟩ := List.forall_mem_cons.1 h
    -- only the first line of a format counts: its body has no such line
    have hnone : (texts block.lines).count (sectionLine name) = 0 := by
      refine List.count_eq_zero.2 fun hmem => ?_
      exact isFormatLine_section.not_apart hname
        ((hbody.callOrApart _ hmem).2 sectionStart (by decide))
    have hblank : [""].count (sectionLine name) = 0 := by
      simp [isFormatLine_section.ne_empty]
    have hkey : (sectionLine key == sectionLine name) = (key == name) := by
      rw [Bool.eq_iff_iff, beq_iff_eq, beq_iff_eq]
      exact ⟨isFormatLine_section.injective, fun h => h ▸ rfl⟩
    rw [List.flatMap_cons, texts_append, List.count_append, ih hrest, texts_routineLines,
      List.count_cons, List.count_append, hnone, hblank, hkey, List.map_cons, List.count_cons]
    dsimp only
    omega

theorem nameless_metadataLines (m : Metadata) : Throughout Nameless (metadataLines m) := by
  unfold metadataLines
  rw [throughout_flush]
  intro t ht
  obtain ⟨⟨label, value⟩, -, hvalue⟩ := List.mem_filterMap.1 ht
  obtain ⟨v, -, rfl⟩ := Option.map_eq_some_iff.1 hvalue
  simp (disch := decide) only [String.append_assoc, nameless_append]

theorem nameless_header (d : Document) (date : String) : Throughout Nameless (header d date) := by
  unfold header
  simp only [throughout_append]
  refine ⟨⟨?_, ?_⟩, ?_⟩
  · simp (disch := decide) [String.append_assoc, nameless_append, nameless_of_start]
  · split
    · exact throughout_nil
    · simp [nameless_metadataLines, Line.blank]
  · simp (disch := decide) [String.append_assoc, nameless_append]

theorem nameless_dataFormats (i : InputSettings) : Throughout Nameless (dataFormats i) := by
  unfold dataFormats
  simp (disch := decide) [String.append_assoc, nameless_append, nameless_of_start]

theorem nameless_formChoices (n : Nat) (forms : List String) :
    ∀ t ∈ formChoices n forms, Nameless t := by
  induction forms generalizing n with
  | nil => exact nofun
  | cons name rest ih =>
    refine List.forall_mem_cons.2 ⟨?_, ih (n + 1)⟩
    simp (disch := decide) only [String.append_assoc, nameless_append]

theorem nameless_logicalPage (number : Nat) (forms : List String) :
    Throughout Nameless (logicalPage number forms) := by
  have hcycle : ∀ t ∈ formCycle forms, Nameless t := by
    unfold formCycle
    rw [List.forall_mem_append]
    refine ⟨nameless_formChoices 1 forms, ?_⟩
    split
    · exact nofun
    · simp (disch := decide) [String.append_assoc, nameless_append]
  unfold logicalPage
  simp only [throughout_flush, List.forall_mem_append]
  refine ⟨⟨?_, hcycle⟩, ?_⟩ <;> simp (disch := decide) [nameless_append, nameless_of_start]

theorem nameless_formatGroup (p : Project) : Throughout Nameless (formatGroup p) := by
  unfold formatGroup
  simp (disch := decide) [nameless_logicalPage, Line.blank, nameless_of_start]

theorem nameless_fontSection (p : Project) : Throughout Nameless (fontSection p) := by
  have hline (f : FontDef) : Nameless (fontLine f) := by
    unfold fontLine
    simp (disch := decide) only [String.append_assoc, nameless_append]
  unfold fontSection
  simp only [throughout_flush, List.forall_mem_append, List.forall_mem_cons]
  refine ⟨⟨⟨nameless_of_start (by decide), List.forall_mem_nil _⟩, fun t ht => ?_⟩,
    nameless_empty, List.forall_mem_nil _⟩
  obtain ⟨f, -, rfl⟩ := List.mem_map.1 ht
  exact hline f

theorem nameless_colorSection (p : Project) : Throughout Nameless (colorSection p) := by
  have hline (name color : String) : Nameless (colorLine name color) := by
    unfold colorLine
    simp (disch := decide) only [String.append_assoc, nameless_append]
  unfold colorSection
  simp only [throughout_flush, List.forall_mem_append, List.forall_mem_cons]
  refine ⟨⟨⟨nameless_of_start (by decide), List.forall_mem_nil _⟩, fun t ht => ?_⟩,
    nameless_empty, List.forall_mem_nil _⟩
  obtain ⟨⟨name, color⟩, -, rfl⟩ := List.mem_map.1 ht
  exact hline name color

theorem nameless_spacingLine (spacing : Option String) : Nameless (spacingLine spacing) := by
  unfold spacingLine
  split
  · simp (disch := decide) only [String.append_assoc, nameless_append]
  · exact nameless_of_start (by decide)

theorem nameless_recordInput (record : String) : Throughout Nameless (recordInput record) := by
  unfold recordInput
  simp (disch := decide) [nameless_append, nameless_of_start]

theorem nameless_mainFormat (e : Env) : Throughout Nameless (mainFormat e) := by
  have horigin (origin : Option (Int × Int)) : Throughout Nameless (pageOriginLines origin) := by
    unfold pageOriginLines
    split
    · simp (disch := decide) [String.append_assoc, nameless_append, nameless_of_start, Line.blank]
    · exact throughout_nil
  have hdispatch (separator : String) : Throughout Nameless (dispatchLines separator) := by
    unfold dispatchLines
    simp (disch := decide) [String.append_assoc, nameless_append, nameless_of_start]
  have hend : Throughout Nameless endOfDocumentLines := by
    unfold endOfDocumentLines
    simp (disch := decide) [nameless_recordInput, nameless_of_start, Line.blank]
  unfold mainFormat
  simp (disch := decide) [nameless_recordInput, nameless_spacingLine, horigin, hdispatch, hend,
    String.append_assoc, nameless_append, nameless_of_start]

theorem nameless_initializationLines (a : Action) : ∀ t ∈ initializationLines a, Nameless t := by
  unfold initializationLines
  split
  · dsimp only
    split
    · exact nofun
    · rw [List.forall_mem_cons]
      refine ⟨Ordinary.nameless ?_, List.forall_mem_nil _⟩
      simp (disch := decide) only [String.append_assoc, ordinary_assignment]
  · split
    · simp (disch := decide) [nameless_of_start]
    · exact nofun
  · simp [nameless_spacingLine]
  · split
    · simp (disch := decide) [String.append_assoc, nameless_append]
    · exact nofun
  · exact nofun

theorem nameless_beforeFirstDocument (e : Env) : Throughout Nameless (beforeFirstDocument e) := by
  have hcorrections : ∀ t ∈ correctionLines e.settings.calibration, Nameless t := by
    unfold correctionLines
    rw [List.forall_mem_append, List.forall_mem_cons, String.append_assoc]
    refine ⟨fun t ht => ?_, nameless_append (by decide) _, List.forall_mem_nil _⟩
    obtain ⟨band, -, rfl⟩ := List.mem_map.1 ht
    apply Ordinary.nameless
    simp (disch := decide) only [String.append_assoc, ordinary_assignment]
  have hheader : Throughout Nameless dataHeaderLines := by
    unfold dataHeaderLines
    simp (disch := decide) [nameless_of_start, Line.blank]
  have hinit : ∀ t ∈ (Command.actions e.project.document.prologue).flatMap initializationLines,
      Nameless t := by
    intro t ht
    obtain ⟨a, -, hta⟩ := List.mem_flatMap.1 ht
    exact nameless_initializationLines a t hta
  unfold beforeFirstDocument
  simp only [throughout_append, throughout_indented, throughout_flush, List.forall_mem_append]
  refine ⟨⟨?_,
    ⟨⟨⟨⟨⟨?_, hcorrections⟩, ?_⟩, hinit⟩, ?_⟩, ⟨⟨?_, nameless_recordInput _⟩, ?_⟩, hheader⟩,
    ?_⟩, ?_⟩ <;>
    simp (disch := decide) [String.append_assoc, nameless_append, nameless_of_start, Line.blank]

theorem nameless_beforeDocument : Throughout Nameless beforeDocument := by
  unfold beforeDocument
  simp (disch := decide) [nameless_of_start]

theorem nameless_documentHead (e : Env) (date : String) :
    Throughout Nameless (header e.project.document date ++ dataFormats e.settings.input
      ++ formatGroup e.project ++ fontSection e.project ++ colorSection e.project
        ++ mainFormat e) := by
  simp only [throughout_append]
  exact ⟨⟨⟨⟨⟨nameless_header _ _, nameless_dataFormats _⟩, nameless_formatGroup _⟩,
    nameless_fontSection _⟩, nameless_colorSection _⟩, nameless_mainFormat _⟩

theorem noCalls_stubLines (key : String) : NoCalls (stubLines key) := by
  unfold stubLines
  simp (disch := decide) [String.append_assoc, apart_append, apart_of_start, formatOfKey,
    Line.blank]

theorem noCalls_stubs (d : Document) (written : List String) : NoCalls (stubs d written) := by
  unfold stubs
  dsimp only
  split
  · exact throughout_nil
  · simp only [throughout_append, throughout_flush, List.forall_mem_cons]
    refine ⟨⟨⟨apart_of_start (by decide), apart_empty, List.forall_mem_nil _⟩, fun t ht => ?_⟩,
      apart_of_start (by decide), apart_empty, List.forall_mem_nil _⟩
    obtain ⟨x, hx, rfl⟩ := List.mem_map.1 ht
    obtain ⟨key, -, hkey⟩ := List.mem_flatMap.1 hx
    exact noCalls_stubLines key _ (List.mem_map_of_mem hkey)

theorem callsOf_routineFormats (e : Env) (x y : Float) (s : State) :
    CallsOf (allRoutineBodies e x y s).statements (routineFormats e x y s).lines := by
  have hsound : (allRoutineBodies e x y s).Sound := sound_routineBodies e x y _ s
  unfold routineFormats
  dsimp only
  split
  · next hempty =>
    have hnone : (allRoutineBodies e x y s).statements = [] := by
      rw [Bodies.statements, List.isEmpty_iff.1 hempty, List.flatMap_nil]
    rw [hnone]
    exact .none throughout_nil
  · refine (hsound.callsOf formatOfRoutine).before ?_
    simp (disch := decide) [apart_of_start]

theorem callsOf_pageOutline {calls : List Statement} {body : List Line} (h : CallsOf calls body)
    {opener : String} (ho : Apart callStart opener) : CallsOf calls (pageOutline opener body) := by
  refine (h.indented.behind ?_).before ?_
  · simp (disch := decide) [ho, apart_of_start, Line.blank]
  · simp (disch := decide) [apart_of_start]

theorem callsOf_wrapForm {calls : List Statement} {body : List Line} (h : CallsOf calls body)
    (mode : FormMode) (f : Form) : CallsOf calls (wrapForm mode f body) := by
  unfold wrapForm
  split
  · have hpage : CallsOf calls (pageOutline "OUTLINE" body) :=
      callsOf_pageOutline h (apart_of_start (by decide))
    refine ((hpage.behind ?_).indented.behind ?_).before ?_
    · simp (disch := decide) [formMargins, apart_of_start]
    · simp (disch := decide) [String.append_assoc, apart_append]
    · simp (disch := decide) [String.append_assoc, apart_append]
  · refine (callsOf_pageOutline h (apart_of_start (by decide))).behind ?_
    simp (disch := decide) [String.append_assoc, apart_append]

theorem callsOf_documentProgram (e : Env) (date : String) (s : State) :
    let cases := caseBodies e (formatCases e.project.document) s
    let routines := allRoutineBodies e caseOrigin.1 caseOrigin.2 cases.state
    CallsOf (cases.statements ++ routines.statements) (documentProgram e date s).lines := by
  intro cases routines
  have hcases : CallsOf cases.statements (caseFormats e s).lines := by
    refine (((sound_caseBodies e _ s).callsOf formatOfKey).behind ?_).before ?_ <;>
      simp (disch := decide) [apart_of_start]
  have hstart := noCalls_of_nameless (nameless_documentHead e date)
  have hroutines := callsOf_routineFormats e caseOrigin.1 caseOrigin.2 cases.state
  exact ((((hcases.behind hstart).append hroutines).before (noCalls_stubs _ _)).before
    (noCalls_of_nameless (nameless_beforeFirstDocument e))).before
      (noCalls_of_nameless nameless_beforeDocument)

theorem callsOf_formProgram (e : Env) (f : Form) (s : State) :
    let body := formBody e f s
    let routines := allRoutineBodies e 0 0 body.state
    CallsOf (body.block.statements ++ routines.statements) (formProgram e f s).lines := by
  intro body routines
  have hbody : CallsOf body.block.statements body.block.lines :=
    (sound_emitNested e _ _ _ : body.block.Sound).callsOf
  have hstart :
      NoCalls (flush [s!"/* FRM DFA File: {f.file} */", banner] ++ metadataLines f.metadata
      ++ [.blank]) := by
    simp (disch := decide) [String.append_assoc, apart_append, apart_of_start, banner,
      noCalls_of_nameless (nameless_metadataLines _), Line.blank]
  have hwrapped := (callsOf_wrapForm hbody e.settings.layout.formMode f).behind hstart
  exact (hwrapped.before (by simp [Line.blank])).append (callsOf_routineFormats e 0 0 body.state)

/-- The detector lets the calls of subroutines and the lines over their formats pass. -/
def Unflagged (d : Detector) (lines : List Line) : Prop :=
  ∀ t ∈ texts lines, ∀ name, t = callLine name ∨ t = sectionLine name → d.flags t = false

theorem countP_sectionLine (e : Env) (x y : Float) (s : State) {d : Detector}
    (hd : Unflagged d (routineFormats e x y s).lines) {name : String}
    (hname : ¬ equals <:+: name.toList) :
    (Listing.add d {} (routineFormats e x y s).lines).written.countP (shows (sectionLine name))
      = (allRoutineBodies e x y s).names.count name := by
  have hsound : (allRoutineBodies e x y s).Sound := sound_routineBodies e x y _ s
  have hend : ∀ t ∈ ["/* END OF SUBROUTINE DOCFORMATS */", ""], Apart sectionStart t :=
    List.forall_mem_cons.2 ⟨apart_of_start (by decide), by decide⟩
  have hlines : ∀ t ∈ texts (routineFormats e x y s).lines,
      Apart sectionStart t ∨ ∃ other, t = sectionLine other := by
    unfold routineFormats
    dsimp only
    split
    · exact nofun
    · rw [texts_append, texts_flush, List.forall_mem_append]
      exact ⟨hsound.sectionLine_or_apart, fun t ht => .inl (hend t ht)⟩
  rw [isFormatLine_section.countP_shows hlines (fun t ht other h => hd t ht other (.inr h)) hname]
  unfold routineFormats
  dsimp only
  split
  · next hempty =>
    rw [Bodies.names, List.isEmpty_iff.1 hempty]
    rfl
  · have hnone : List.count (sectionLine name) ["/* END OF SUBROUTINE DOCFORMATS */", ""] = 0 :=
      List.count_eq_zero.2 fun hmem => isFormatLine_section.not_apart hname (hend _ hmem)
    rw [texts_append, texts_flush, List.count_append, hsound.count_sectionLine hname, hnone]
    rfl

/-- The subroutines that got a format, each of them once, are those that the program calls: by its
statements, and by its lines wherever a name cannot be taken for an assignment. -/
structure Closed (d : Detector) (other : List Statement) (routines : Bodies)
    (program sections : List Line) : Prop where
  nodup : routines.names.Nodup
  calls : ∀ name, name ∈ routines.names ↔ .routine name ∈ other ++ routines.statements
  lines : ∀ name, ¬ equals <:+: name.toList →
    ((∃ line ∈ (Listing.add d {} program).written, shows (callLine name) line = true)
      ↔ name ∈ routines.names)
  sections : ∀ name, ¬ equals <:+: name.toList →
    (Listing.add d {} sections).written.countP (shows (sectionLine name))
      = if name ∈ routines.names then 1 else 0

theorem closed_of_callsOf {e : Env} {s : State} {other : List Statement} {x y : Float}
    {program : List Line} {d : Detector} (hasks : Asks e (.initial e) other s)
    (hcalls : CallsOf (other ++ (allRoutineBodies e x y s).statements) program)
    (hsub : (routineFormats e x y s).lines ⊆ program) (hd : Unflagged d program) :
    Closed d other (allRoutineBodies e x y s) program (routineFormats e x y s).lines := by
  obtain ⟨hnodup, hmem⟩ := names_allRoutineBodies hasks x y
  refine ⟨hnodup, hmem, fun name hname => ?_, fun name hname => ?_⟩
  · rw [hcalls.shows_iff (fun t ht other h => hd t ht other (.inl h)) hname, hmem]
  · have hsections : Unflagged d (routineFormats e x y s).lines := fun t ht =>
      hd t (List.map_subset _ hsub ht)
    rw [countP_sectionLine e x y s hsections hname, hnodup.count]

/-- In the program of a document and in that of a form, the subroutines that are called are those
whose formats stand in it, and each of these stands in it once. -/
theorem called_iff_formatted (settings : Settings) (p : Project) (d : Detector) :
    (∀ date,
      let e : Env := { settings, project := p }
      let cases := caseBodies e (formatCases p.document) (.initial e)
      let program := (documentProgram e date (.initial e)).lines
      Unflagged d program →
        Closed d cases.statements (allRoutineBodies e caseOrigin.1 caseOrigin.2 cases.state) program
          (routineFormats e caseOrigin.1 caseOrigin.2 cases.state).lines) ∧
    ∀ f : Form,
      let e : Env := { settings, project := p, renames := f.renames }
      let body := formBody e f (.initial e)
      let program := (formProgram e f (.initial e)).lines
      Unflagged d program →
        Closed d body.block.statements (allRoutineBodies e 0 0 body.state) program
          (routineFormats e 0 0 body.state).lines := by
  constructor
  · intro date e cases program hd
    refine closed_of_callsOf (asks_caseBodies e _ _) (callsOf_documentProgram e date _) ?_ hd
    exact List.subset_append_of_subset_left _ (List.subset_append_of_subset_left _
      (List.subset_append_of_subset_left _ (List.subset_append_right _ _)))
  · intro f e body program hd
    refine closed_of_callsOf (asks_formBody e f _) (callsOf_formProgram e f _) ?_ hd
    exact List.subset_append_right _ _

/-- Two subroutines that call each other, one of them called by a record type. -/
theorem called_iff_formatted_mutual :
    let call (name : String) : Command := .act {} (.call ⟨.segment, name, []⟩)
    let p : Project :=
      { document :=
          { cases := [⟨"A", [call "ONE"]⟩]
            subroutines := .ofList [("ONE", [call "TWO"]), ("TWO", [call "ONE"])] } }
    let e : Env := { settings := { inlineThreshold := 0 }, project := p }
    let cases := caseBodies e (formatCases p.document) (.initial e)
    let program := (documentProgram e "2024-01-01" (.initial e)).lines
    let routines := allRoutineBodies e caseOrigin.1 caseOrigin.2 cases.state
    Unflagged .idle program ∧ routines.names = ["ONE", "TWO"] ∧
      (∃ line ∈ (Listing.add .idle {} program).written, shows (callLine "TWO") line = true) ∧
      (Listing.add .idle {}
        (routineFormats e caseOrigin.1 caseOrigin.2 cases.state).lines).written.countP
        (shows (sectionLine "TWO")) = 1 := by
  intro call p e cases program routines
  have hd : Unflagged .idle program := fun t _ _ _ => Detector.flags_idle t
  have hnames : routines.names = ["ONE", "TWO"] := by decide +kernel
  have hname : ¬ equals <:+: "TWO".toList := by decide
  have hclosed := (called_iff_formatted { inlineThreshold := 0 } p .idle).1 "2024-01-01" hd
  have hcount := hclosed.sections "TWO" hname
  refine ⟨hd, hnames, (hclosed.lines "TWO" hname).2 (hnames ▸ by decide), ?_⟩
  rw [if_pos (hnames ▸ by decide)] at hcount
  exact hcount

end VippDocdef.Docdef
