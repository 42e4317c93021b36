import VippDocdef.Proofs.Bracketing
import VippDocdef.Proofs.Effects
import VippDocdef.Proofs.Matching
import VippDocdef.Proofs.Sections

/-! Which statements are commented out. The patterns that come with the settings are a list of texts
that no line may hold. Lines are looked at one by one, so what spans several lines is torn apart by
one such text. -/

set_option autoImplicit false

namespace VippDocdef.Docdef

def deniedWords : List String :=
  ["PAGEBRK IF", "\x7b /", "\x7d %", "SETPAGENUMBER", " VSUB ", " SETVAR \x7d", "= -;", "= =;"]

def rawTests : List String := ["eq", "ne", "gt", "lt"]

def assignedNames : List String := ["VAR_", "FLD"]

def rawTest (test : String) : List Char := " ".toList ++ (test.toList ++ " (".toList)

def assigned (name : String) : List Char := " = ".toList ++ name.toList

/-- `first`, and behind it on the same line `second`. -/
def Follow (first second : List Char) (cs : List Char) : Prop :=
  ∃ mid, '\n' ∉ mid ∧ cs = first ++ (mid ++ second)

/-- What the default patterns look for: some words, and a test as the source spells it next to an
assignment. -/
inductive DeniedStretch (cs : List Char) : Prop where
  | word {word : String} (mem : word ∈ deniedWords) (eq : cs = word.toList)
  | test {test name : String} (isTest : test ∈ rawTests) (isName : name ∈ assignedNames)
      (follow : Follow (rawTest test) (assigned name) cs ∨ Follow (assigned name) (rawTest test) cs)

def Denied (text : String) : Prop := ∃ cs, DeniedStretch cs ∧ cs <:+: text.toList

section Patterns
open Pattern

def anyText : Pattern := .star (.char (.complement (.single '\n')))

theorem spells_anyText : anyText.Spells fun cs => '\n' ∉ cs := by
  intro before cs after
  rw [anyText, spells_star _ before cs after]
  have hmem (c : Char) : (CharSet.complement (.single '\n')).mem c = true ↔ c ≠ '\n' := by
    rw [CharSet.mem, Bool.not_eq_true', ← Bool.not_eq_true, mem_single]
  simp only [hmem]
  exact ⟨fun h hmem => h _ hmem rfl, fun h c hc heq => h (heq ▸ hc)⟩

def testPattern : List Pattern := letters " " ++ ([oneOf rawTests] ++ letters " (")

def namePattern : List Pattern := letters " = " ++ [oneOf assignedNames]

theorem detector_default : Detector.ofSettings {} =
    ⟨(deniedWords.map (fun word => row (letters word)) ++
      [Pattern.alt (row (testPattern ++ ([anyText] ++ namePattern)))
        (row (namePattern ++ ([anyText] ++ testPattern)))]).map isMatch⟩ := by
  have hpatterns : (MalformedSettings.all {}).filterMap parse? =
      deniedWords.map (fun word => row (letters word)) ++
        [.alt (row (testPattern ++ ([anyText] ++ namePattern)))
          (row (namePattern ++ ([anyText] ++ testPattern)))] := by decide +kernel
  rw [← hpatterns, List.map_filterMap]
  rfl

theorem rowSpells_testPattern :
    RowSpells testPattern fun cs => ∃ test ∈ rawTests, cs = rawTest test := by
  have h :=
    (rowSpells_letters " ").append ((spells_oneOf rawTests).row.append (rowSpells_letters " ("))
  refine h.congr fun cs => ?_
  constructor
  · rintro ⟨_, _, rfl, rfl, _, _, rfl, ⟨test, ht, rfl⟩, rfl⟩
    exact ⟨test, ht, rfl⟩
  · rintro ⟨test, ht, rfl⟩
    exact ⟨_, _, rfl, rfl, _, _, rfl, ⟨test, ht, rfl⟩, rfl⟩

theorem rowSpells_namePattern :
    RowSpells namePattern fun cs => ∃ name ∈ assignedNames, cs = assigned name := by
  refine ((rowSpells_letters " = ").append (spells_oneOf assignedNames).row).congr fun cs => ?_
  constructor
  · rintro ⟨_, _, rfl, rfl, name, hn, rfl⟩
    exact ⟨name, hn, rfl⟩
  · rintro ⟨name, hn, rfl⟩
    exact ⟨_, _, rfl, rfl, name, hn, rfl⟩

theorem spells_follow {a b : List Pattern} {firsts seconds : List String}
    {first second : String → List Char} (ha : RowSpells a fun cs => ∃ x ∈ firsts, cs = first x)
    (hb : RowSpells b fun cs => ∃ y ∈ seconds, cs = second y) :
    (row (a ++ ([anyText] ++ b))).Spells fun cs =>
      ∃ x ∈ firsts, ∃ y ∈ seconds, Follow (first x) (second y) cs := by
  intro before cs after
  rw [(ha.append (spells_anyText.row.append hb)).spells before cs after]
  constructor
  · rintro ⟨_, _, rfl, ⟨x, hx, rfl⟩, mid, _, rfl, hmid, y, hy, rfl⟩
    exact ⟨x, hx, y, hy, mid, hmid, rfl⟩
  · rintro ⟨x, hx, y, hy, mid, hmid, rfl⟩
    exact ⟨_, _, rfl, ⟨x, hx, rfl⟩, mid, _, rfl, hmid, y, hy, rfl⟩

theorem flags_default {line : String} :
    (Detector.ofSettings {}).flags line = true ↔ Detector.isCode line = true ∧ Denied line := by
  have htest := spells_follow rowSpells_testPattern rowSpells_namePattern
  have hname := spells_follow rowSpells_namePattern rowSpells_testPattern
  have hword (word : String) : (row (letters word)).isMatch line = true ↔
      ∃ cs, cs = word.toList ∧ cs <:+: line.toList := (rowSpells_letters word).spells.isMatch_iff
  rw [detector_default, Detector.flags, Bool.and_eq_true]
  refine and_congr_right fun _ => ?_
  simp only [List.map_append, List.map_cons, List.map_nil, List.any_append, List.any_map,
    List.any_cons, List.any_nil, Bool.or_false, Bool.or_eq_true, List.any_eq_true,
    Function.comp_apply, hword, (htest.alt hname).isMatch_iff]
  constructor
  · rintro (⟨word, hmem, _, rfl, h⟩ | ⟨cs, ⟨test, ht, name, hn, h⟩ | ⟨name, hn, test, ht, h⟩, hcs⟩)
    · exact ⟨_, .word hmem rfl, h⟩
    · exact ⟨cs, .test ht hn (.inl h), hcs⟩
    · exact ⟨cs, .test ht hn (.inr h), hcs⟩
  · rintro ⟨cs, ⟨hmem, rfl⟩ | ⟨ht, hn, h | h⟩, hcs⟩
    · exact .inl ⟨_, hmem, _, rfl, hcs⟩
    · exact .inr ⟨cs, .inl ⟨_, ht, _, hn, h⟩, hcs⟩
    · exact .inr ⟨cs, .inr ⟨_, hn, _, ht, h⟩, hcs⟩

end Patterns

/-- One of these letters stands in every stretch that is looked for. -/
def tellingLetters : List Char := ['B', '\x7b', '\x7d', '=']

def Calm (text : String) : Prop := (text.toList.all fun c => !tellingLetters.contains c) = true

instance (text : String) : Decidable (Calm text) := inferInstanceAs (Decidable (_ = true))

@[simp] theorem calm_append {a b : String} : Calm (a ++ b) ↔ Calm a ∧ Calm b := by
  simp only [Calm, String.toList_append, List.all_append, Bool.and_eq_true]

theorem DeniedStretch.exists_telling {cs : List Char} (h : DeniedStretch cs) :
    ∃ c ∈ cs, tellingLetters.contains c = true := by
  have hassigned (name : String) : '=' ∈ assigned name := by simp [assigned]
  cases h with
  | word mem eq =>
    subst eq
    have hwords : (deniedWords.all fun word => word.toList.any tellingLetters.contains) = true := by
      decide
    exact List.any_eq_true.1 (List.all_eq_true.1 hwords _ mem)
  | @test test name isTest isName follow =>
    refine ⟨'=', ?_, by decide⟩
    rcases follow with ⟨mid, -, rfl⟩ | ⟨mid, -, rfl⟩
    · exact List.mem_append_right _ (List.mem_append_right _ (hassigned name))
    · exact List.mem_append_left _ (hassigned name)

theorem Calm.not_denied {text : String} (h : Calm text) : ¬ Denied text := by
  rintro ⟨cs, hcs, hwithin⟩
  obtain ⟨c, hc, htelling⟩ := hcs.exists_telling
  have hquiet := List.all_eq_true.1 h c (hwithin.subset hc)
  rw [htelling] at hquiet
  cases hquiet

theorem Calm.flags_eq {text : String} (h : Calm text) :
    (Detector.ofSettings {}).flags text = false := by
  rw [← Bool.not_eq_true, flags_default]
  exact fun hflags => h.not_denied hflags.2

def isHarmless (text : String) : Bool :=
  (deniedWords.map String.toList ++ rawTests.map rawTest).all fun part =>
    !Text.occurs part text.toList

theorem flags_eq_of_isHarmless {text : String} (h : isHarmless text = true) :
    (Detector.ofSettings {}).flags text = false := by
  have hpart (part : List Char)
      (hmem : part ∈ deniedWords.map String.toList ++ rawTests.map rawTest) :
      ¬ part <:+: text.toList := by
    intro hwithin
    have hfree := List.all_eq_true.1 h part hmem
    rw [Text.occurs_iff.2 hwithin] at hfree
    cases hfree
  rw [← Bool.not_eq_true, flags_default]
  rintro ⟨-, cs, hcs, hwithin⟩
  cases hcs with
  | word mem eq =>
    exact hpart _ (List.mem_append_left _ (List.mem_map_of_mem mem)) (eq ▸ hwithin)
  | @test test name isTest isName follow =>
    have htest : rawTest test <:+: cs := by
      rcases follow with ⟨mid, -, rfl⟩ | ⟨mid, -, rfl⟩
      · exact (List.prefix_append _ _).isInfix
      · exact ((List.suffix_append _ _).trans (List.suffix_append _ _)).isInfix
    exact hpart _ (List.mem_append_right _ (List.mem_map_of_mem isTest)) (htest.trans hwithin)

def IsNumeral (c : Char) : Prop := c.isDigit = true ∨ c ∈ ['.', '-', 'e', 'N', 'a', 'i', 'n', 'f']

theorem IsNumeral.not_telling {c : Char} (h : IsNumeral c) : tellingLetters.contains c = false := by
  rw [← Bool.not_eq_true, List.contains_iff_mem]
  intro hmem
  simp only [tellingLetters, List.mem_cons, List.not_mem_nil, or_false] at hmem
  rcases hmem with rfl | rfl | rfl | rfl <;> revert h <;> simp [IsNumeral, Char.isDigit]

def Numerals (cs : List Char) : Prop := ∀ c ∈ cs, IsNumeral c

theorem numerals_append {a b : List Char} : Numerals (a ++ b) ↔ Numerals a ∧ Numerals b :=
  List.forall_mem_append

theorem numerals_cons {c : Char} {cs : List Char} :
    Numerals (c :: cs) ↔ IsNumeral c ∧ Numerals cs :=
  List.forall_mem_cons

theorem numerals_toDigits (n : Nat) : Numerals (Nat.toDigits 10 n) := fun _ h =>
  .inl (Nat.isDigit_of_mem_toDigits (by omega) (by omega) h)

theorem isNumeral_point : IsNumeral '.' := .inr (by simp)

theorem isNumeral_minus : IsNumeral '-' := .inr (by simp)

theorem numerals_zeros (n : Nat) : Numerals (Decimal.zeros n) := fun c h => by
  rw [(List.mem_replicate.1 h).2]
  exact .inl rfl

theorem numerals_toString (n : Int) : Numerals (toString n).toList := by
  cases n with
  | ofNat n => simpa [toString, Int.repr, Nat.repr] using numerals_toDigits n
  | negSucc n =>
    have h := numerals_cons.2 ⟨isNumeral_minus, numerals_toDigits (n + 1)⟩
    simpa [toString, Int.repr, Nat.repr] using h

theorem numerals_placePoint (f : Decimal.Format) {ds : List Char} (h : Numerals ds) (point : Int) :
    Numerals (Decimal.placePoint f ds point) := by
  unfold Decimal.placePoint
  split
  · exact numerals_cons.2 ⟨.inl rfl, numerals_cons.2 ⟨isNumeral_point,
      numerals_append.2 ⟨numerals_zeros _, h⟩⟩⟩
  split
  · refine numerals_append.2 ⟨numerals_append.2 ⟨h, numerals_zeros _⟩, ?_⟩
    split
    · exact numerals_cons.2 ⟨isNumeral_point, numerals_zeros 1⟩
    · exact List.forall_mem_nil _
  · refine numerals_append.2 ⟨fun c hc => h c (List.mem_of_mem_take hc), ?_⟩
    exact numerals_cons.2 ⟨isNumeral_point, fun c hc => h c (List.mem_of_mem_drop hc)⟩

theorem numerals_placeExponent {ds : List Char} (h : Numerals ds) (exponent : Int) :
    Numerals (Decimal.placeExponent ds exponent) := by
  have htail : Numerals ('e' :: (toString exponent).toList) :=
    numerals_cons.2 ⟨.inr (by simp), numerals_toString exponent⟩
  unfold Decimal.placeExponent
  cases ds with
  | nil => exact htail
  | cons d ds =>
    obtain ⟨hd, hds⟩ := numerals_cons.1 h
    cases ds with
    | nil => exact numerals_cons.2 ⟨hd, htail⟩
    | cons d' ds =>
      exact numerals_append.2 ⟨numerals_cons.2 ⟨hd, numerals_cons.2 ⟨isNumeral_point, hds⟩⟩, htail⟩

theorem numerals_text (f : Decimal.Format) (x : Float) : Numerals (f.text x).toList := by
  have hpositive (d : Decimal.Digits) : Numerals (f.positive d) := by
    unfold Decimal.Format.positive
    split
    · exact numerals_placePoint f (numerals_toDigits _) _
    · dsimp only
      split
      · exact numerals_placePoint f (numerals_toDigits _) _
      · exact numerals_placeExponent (numerals_toDigits _) _
  have hzero : Numerals f.zero := by
    unfold Decimal.Format.zero
    split
    · exact numerals_cons.2 ⟨.inl rfl, numerals_cons.2 ⟨isNumeral_point, numerals_zeros 1⟩⟩
    · exact numerals_zeros 1
  have hword (word : String) (h : (word.toList.all fun c => ['N', 'a', 'i', 'n', 'f'].contains c)
      = true) :
      Numerals word.toList := by
    intro c hc
    have hmem := List.contains_iff_mem.1 (List.all_eq_true.1 h c hc)
    exact .inr (List.mem_cons_of_mem _ (List.mem_cons_of_mem _ (List.mem_cons_of_mem _ hmem)))
  unfold Decimal.Format.text
  dsimp only
  split
  · exact hword "NaN" (by decide)
  · have hbody : Numerals (if x.toBits.toNat % Nat.pow 2 63 = 2047 * Nat.pow 2 52 then "inf".toList
        else if x.toBits.toNat % Nat.pow 2 63 = 0 then f.zero
        else f.positive (Decimal.Binary.ofBits (x.toBits.toNat % Nat.pow 2 63)).shortest) := by
      split
      · exact hword "inf" (by decide)
      split
      · exact hzero
      · exact hpositive _
    rw [String.toList_ofList]
    split
    · exact numerals_cons.2 ⟨isNumeral_minus, hbody⟩
    · exact hbody

@[simp] theorem calm_millimetres (x : Float) : Calm (millimetres x) := by
  rw [Calm, List.all_eq_true]
  intro c hc
  rw [(numerals_text _ x c hc).not_telling]
  rfl

/-- The place of a segment is one that the cursor gives. -/
def Statement.Settled : Statement → Prop
  | .segment _ place => Calm place.clause
  | _ => True

def Block.Settled (b : Block) : Prop := ∀ st ∈ b.statements, st.Settled

theorem Block.settled_ofList {ss : List Statement} (h : ∀ st ∈ ss, st.Settled) :
    (Block.ofList ss).Settled := by
  induction ss with
  | nil => exact List.forall_mem_nil _
  | cons st rest ih =>
    obtain ⟨hst, hrest⟩ := List.forall_mem_cons.1 h
    exact List.forall_mem_cons.2 ⟨hst, ih hrest⟩

theorem calm_xCoordinate (c : Cursor) : Calm c.xCoordinate.xClause := by
  have hkeyword : Calm (Coordinate.keyword "SAME").xClause := by decide
  have hleft : Calm " MM-$MR_LEFT)" := by decide
  unfold Cursor.xCoordinate
  split
  · simpa [Coordinate.xClause, hleft] using show Calm "(" by decide
  · exact hkeyword

theorem settled_segmentPlace (c : Cursor) (name : String) :
    (Statement.segment name c.segmentPlace).Settled := by
  have hfixed : Calm "POSITION " ∧ Calm " " ∧ Calm "(" ∧ Calm ")" ∧ Calm "(SAME)" ∧
      Calm " MM-$MR_TOP+" ∧ Calm segmentCorrection := by decide
  simp only [Statement.Settled, Place.clause, Cursor.segmentPlace, calm_append]
  split <;> simp [Coordinate.yClause, calm_xCoordinate, hfixed]

theorem settled_drawingPlace (c : Cursor) (name : String) :
    (Statement.segment name c.drawingPlace).Settled := by
  have hfixed : Calm "POSITION " ∧ Calm " " ∧ Calm "(" ∧ Calm ")" ∧ Calm "0 MM-$MR_TOP+" ∧
      Calm segmentCorrection := by decide
  simp [Statement.Settled, Place.clause, Cursor.drawingPlace, Coordinate.yClause,
    calm_xCoordinate, hfixed]

theorem Statement.Placed.settled {st : Statement} (h : st.Placed) : st.Settled := by
  cases st with
  | segment name place =>
    obtain ⟨c, rfl | rfl⟩ := h
    · exact settled_segmentPlace c name
    · exact settled_drawingPlace c name
  | _ => trivial

theorem Statement.settled_of_isShape {st : Statement} (h : st.isShape = true) : st.Settled := by
  cases st with
  | segment name place => cases h
  | _ => trivial

theorem Effect.settled {e : Env} {expand : Expansion} {a : Action} {s : State} {r : Emission}
    (hx : ∀ cs t, (expand cs t).block.Settled) (h : Effect e expand a s r) : r.block.Settled := by
  cases h with
  | row block placed point =>
    rw [block]
    exact Block.settled_ofList fun st hst => (placed st hst).settled
  | shapes isOutput block shapes point =>
    rw [block]
    refine Block.settled_ofList (List.forall_mem_append.2 ⟨fun st hst => ?_, fun st hst => ?_⟩)
    · rw [State.mem_anchorStatements hst]
      trivial
    · exact Statement.settled_of_isShape (shapes st hst)
  | expansion isOutput entered block point =>
    rw [block]
    exact List.forall_mem_cons.2 ⟨trivial, hx _ _⟩

theorem Run.forall_written {act : Emitter} {like : Statement → Prop}
    (hplain : ∀ text, like (.plain text))
    (hact : ∀ a s, ∀ st ∈ (act a s).block.statements, like st) {s t : State} {actions : List Action}
    {written : List Statement} (h : Run act s actions written t) : ∀ st ∈ written, like st := by
  induction h with
  | stop s => exact List.forall_mem_nil _
  | hand a next ih => exact List.forall_mem_append.2 ⟨hact a _, ih⟩
  | hoist condition next ih =>
    refine List.forall_mem_append.2 ⟨?_, ih⟩
    simp [hplain]
  | note next ih => exact List.forall_mem_cons.2 ⟨hplain _, ih⟩
  | openOutline closed next ih => exact ih
  | closeOutline next ih => exact ih

theorem settled_emitNested (e : Env) (depth : Nat) (cs : List Command) (s : State) :
    (emitNested e depth cs s).block.Settled := by
  induction depth generalizing cs s with
  | zero => exact List.forall_mem_nil _
  | succ depth ih =>
    exact (Flow.run_emit _ (Flow.ofCommands cs) s).forall_written (fun _ => trivial) fun a t =>
      (effect_emitAction a).settled ih

def Statement.groups : Statement → List (List Line)
  | .anchor => Statement.anchor.lines.map ([·])
  | st => [st.lines]

/-- The lines that belong together: those of a statement, and those of a branch or an outline
without what stands in it. -/
def Block.groups : Block → List (List Line)
  | .done => []
  | .statement s rest => s.groups ++ rest.groups
  | .ifThen header yes rest =>
    flush [header, "THEN;", "ENDIF;"] :: (yes.groups.map indented ++ rest.groups)
  | .ifThenElse header yes no rest =>
    flush [header, "THEN;", "ELSE;", "ENDIF;"]
      :: (yes.groups.map indented ++ (no.groups.map indented ++ rest.groups))
  | .outline body rest =>
    (outlineHead ++ flush ["ENDIO;"]) :: (body.groups.map indented ++ rest.groups)

theorem Statement.flatten_groups (st : Statement) : st.groups.flatten = st.lines := by
  cases st <;> simp [groups, lines, flush]

theorem Block.perm_groups (b : Block) : b.groups.flatten.Perm b.lines := by
  have hindented {b : Block} (h : b.groups.flatten.Perm b.lines) (x : Line) :
      (b.groups.map indented).flatten.count x = (indented b.lines).count x := by
    have hflatten : (b.groups.map indented).flatten = indented b.groups.flatten := by
      unfold indented
      rw [List.map_flatten]
    rw [hflatten]
    exact (h.map (Line.deeper 1)).count_eq x
  induction b with
  | done => exact .refl []
  | statement s rest ih =>
    rw [groups, List.flatten_append, s.flatten_groups]
    exact ih.append_left _
  | ifThen header yes rest hy hr =>
    refine List.perm_iff_count.2 fun x => ?_
    simp only [groups, lines, List.flatten_cons, List.flatten_append, List.count_append,
      hindented hy, hr.count_eq, flush, List.map_cons, List.map_nil, List.count_cons,
      List.count_nil]
    omega
  | ifThenElse header yes no rest hy hn hr =>
    refine List.perm_iff_count.2 fun x => ?_
    simp only [groups, lines, List.flatten_cons, List.flatten_append, List.count_append,
      hindented hy, hindented hn, hr.count_eq, flush, List.map_cons, List.map_nil, List.count_cons,
      List.count_nil]
    omega
  | outline body rest hb hr =>
    refine List.perm_iff_count.2 fun x => ?_
    simp only [groups, lines, List.flatten_cons, List.flatten_append, List.count_append,
      hindented hb, hr.count_eq]
    omega

def Line.Harmless (x : Line) : Prop := Calm x.text ∧ x.text ≠ ""

/-- A line of each statement with several lines that the source has no part in. -/
def Statement.steady? : Statement → Option Line
  | .plain _ | .routine _ | .anchor => none
  | .output _ _ _ _ (some .left) => some ⟨1, "ALIGN LEFT NOPAD;"⟩
  | .output _ _ _ _ (some .right) => some ⟨1, "ALIGN RIGHT NOPAD;"⟩
  | .output _ _ _ _ (some .center) => some ⟨1, "ALIGN CENTER NOPAD;"⟩
  | .output _ _ _ _ _ | .rule .. | .image .. => some ⟨1, ";"⟩
  | .column .. | .switched .. | .switchedRight .. | .baseline .. => some ⟨0, "TEXT"⟩
  | .emptyLine .. => some ⟨0, "OUTPUT ''"⟩
  | .box _ _ width _ _ => some ⟨1, widthClause width⟩
  | .segment _ place => some ⟨1, place.clause ++ ";"⟩
  | .object .. => some ⟨1, "PARAMETERS"⟩

theorem Statement.exists_steady {st : Statement} {g : List Line} (hg : g ∈ st.groups)
    (hlength : 1 < g.length) : ∃ x ∈ g, st.steady? = some x := by
  cases st with
  | anchor =>
    obtain ⟨x, -, rfl⟩ := List.mem_map.1 hg
    simp at hlength
  | plain text | routine name =>
    obtain rfl := List.mem_singleton.1 hg
    simp [lines] at hlength
  | output content font place color align =>
    obtain rfl := List.mem_singleton.1 hg
    rcases align with _ | _ | _ | _ | _ <;> simp [steady?, lines, clauses, Alignment.keyword]
  | _ =>
    obtain rfl := List.mem_singleton.1 hg
    simp [steady?, lines, clauses, flush]

theorem Line.harmless_append {depth : Nat} {text last : String} (h : Calm text) (hlast : Calm last)
    (hne : last ≠ "") : Line.Harmless ⟨depth, text ++ last⟩ :=
  ⟨calm_append.2 ⟨h, hlast⟩, fun heq => hne (String.append_eq_empty_iff.1 heq).2⟩

theorem Statement.harmless_steady {st : Statement} (hst : st.Settled) {x : Line}
    (hx : st.steady? = some x) : x.Harmless := by
  cases st with
  | plain text | routine name | anchor => cases hx
  | output content font place color align =>
    rcases align with _ | _ | _ | _ | _ <;> obtain rfl := Option.some.inj hx <;>
      exact ⟨by decide, by decide⟩
  | box a b width height stroke =>
    obtain rfl := Option.some.inj hx
    have hwidth : Calm "WIDTH " := by decide
    exact Line.harmless_append (calm_append.2 ⟨hwidth, calm_millimetres width⟩) (by decide)
      (by decide)
  | segment name place =>
    obtain rfl := Option.some.inj hx
    exact Line.harmless_append hst (by decide) (by decide)
  | _ =>
    obtain rfl := Option.some.inj hx
    exact ⟨by decide, by decide⟩

theorem Block.Settled.exists_harmless {b : Block} (h : b.Settled) {g : List Line}
    (hg : g ∈ b.groups) (hlength : 1 < g.length) : ∃ x ∈ g, x.Harmless := by
  have hthen : Line.Harmless ⟨0, "THEN;"⟩ := ⟨by decide, by decide⟩
  have hclose : Line.Harmless ⟨0, "ENDIO;"⟩ := ⟨by decide, by decide⟩
  have hinside {b : Block} (ih : ∀ {g}, g ∈ b.groups → 1 < g.length → ∃ x ∈ g, x.Harmless)
      {g : List Line}
      (hg : g ∈ b.groups.map indented) (hlength : 1 < g.length) : ∃ x ∈ g, x.Harmless := by
    obtain ⟨g, hmem, rfl⟩ := List.mem_map.1 hg
    obtain ⟨x, hx, hharmless⟩ := ih hmem (by simpa [indented] using hlength)
    exact ⟨x.deeper 1, List.mem_map_of_mem hx, hharmless⟩
  induction b generalizing g with
  | done => cases hg
  | statement s rest ih =>
    obtain ⟨hs, hrest⟩ := List.forall_mem_cons.1 h
    rcases List.mem_append.1 hg with hg | hg
    · obtain ⟨x, hx, hsteady⟩ := Statement.exists_steady hg hlength
      exact ⟨x, hx, Statement.harmless_steady hs hsteady⟩
    · exact ih hrest hg hlength
  | ifThen header yes rest hy hr =>
    obtain ⟨hyes, hrest⟩ := List.forall_mem_append.1 h
    rcases List.mem_cons.1 hg with rfl | hg
    · exact ⟨_, by simp [flush], hthen⟩
    rcases List.mem_append.1 hg with hg | hg
    · exact hinside (hy hyes) hg hlength
    · exact hr hrest hg hlength
  | ifThenElse header yes no rest hy hn hr =>
    obtain ⟨hyes, hothers⟩ := List.forall_mem_append.1 h
    obtain ⟨hno, hrest⟩ := List.forall_mem_append.1 hothers
    rcases List.mem_cons.1 hg with rfl | hg
    · exact ⟨_, by simp [flush], hthen⟩
    rcases List.mem_append.1 hg with hg | hg
    · exact hinside (hy hyes) hg hlength
    rcases List.mem_append.1 hg with hg | hg
    · exact hinside (hn hno) hg hlength
    · exact hr hrest hg hlength
  | outline body rest hb hr =>
    obtain ⟨hbody, hrest⟩ := List.forall_mem_append.1 h
    rcases List.mem_cons.1 hg with rfl | hg
    · exact ⟨_, by simp [flush], hclose⟩
    rcases List.mem_append.1 hg with hg | hg
    · exact hinside (hb hbody) hg hlength
    · exact hr hrest hg hlength

def Line.commented (x : Line) : Line := ⟨x.depth, "/* " ++ x.text ++ " */"⟩

/-- The lines are written all as they are, or all as comments. -/
def Whole (d : Detector) (g : List Line) : Prop :=
  ∀ level, writeAt d level g = writeAt .idle level g ∨
    writeAt d level g = writeAt .idle level (g.map .commented)

theorem Line.write_commented (x : Line) :
    x.commented.write .idle = lineAt x.depth x.commented.text := by
  have hne : x.commented.text ≠ "" := by simp [commented, ← String.toList_inj]
  rw [write_idle, if_neg hne]
  rfl

theorem Line.write_of_flags {d : Detector} {x : Line} (h : d.flags x.text = true) :
    x.write d = x.commented.write .idle := by
  have hne : x.text ≠ "" := by
    rintro heq
    rw [heq] at h
    simp [Detector.flags, Detector.isCode, show Text.trim "" = "" by decide] at h
  rw [write_commented]
  simp [write, hne, Detector.sanitize, h, lineAt, commented]

theorem Line.write_commented_ne {x : Line} (hne : x.text ≠ "") :
    x.commented.write .idle ≠ x.write .idle := by
  rw [write_commented, write_idle, if_neg hne]
  intro heq
  have hlength := congrArg String.length heq
  simp only [lineAt, String.length_append, commented] at hlength
  have hopen : "/* ".length = 3 := rfl
  omega

theorem whole_of_not_flagged {d : Detector} {g : List Line} (h : ∀ x ∈ g, d.flags x.text = false) :
    Whole d g := by
  intro level
  refine .inl (writeAt_congr (fun x hx => ?_) level)
  rw [h x hx, Detector.flags_idle]

theorem not_whole {d : Detector} {g : List Line} {x y : Line} (hx : x ∈ g)
    (hout : d.flags x.text = true)
    (hy : y ∈ g) (hlive : d.flags y.text = false) (hne : y.text ≠ "") : ¬ Whole d g := by
  have hxne : x.text ≠ "" := by
    intro heq
    rw [heq] at hout
    simp [Detector.flags, Detector.isCode, show Text.trim "" = "" by decide] at hout
  have hwrite : y.write d = y.write .idle := by
    rw [Line.write_idle, if_neg hne, ← write_of_not_flagged hlive hne]
  intro h
  rcases h 0 with h | h
  · have hsame := List.map_inj_left.1 h x hx
    rw [Line.deeper_zero, Line.write_of_flags hout] at hsame
    exact Line.write_commented_ne hxne hsame
  · rw [writeAt, writeAt, List.map_map] at h
    have hsame := List.map_inj_left.1 h y hy
    rw [Function.comp_apply, Line.deeper_zero, Line.deeper_zero, hwrite] at hsame
    exact Line.write_commented_ne hne hsame.symm

/-- With the default patterns, of what spans several lines some line always stays. So it is whole
exactly if none of its lines holds a denied text, and torn apart otherwise; it is never commented
out as a whole. -/
theorem whole_iff_not_denied (e : Env) (s : State) (cs : List Command) :
    (s.emit e cs).block.groups.flatten.Perm (s.emit e cs).block.lines ∧
    ∀ g ∈ (s.emit e cs).block.groups, 1 < g.length →
      (Whole (.ofSettings {}) g ↔ ∀ x ∈ g, ¬ (Detector.isCode x.text = true ∧ Denied x.text)) := by
  refine ⟨Block.perm_groups _, fun g hg hlength => ?_⟩
  obtain ⟨y, hy, hcalm, hne⟩ := (settled_emitNested e e.nesting cs s).exists_harmless hg hlength
  constructor
  · intro hwhole x hx hdenied
    exact not_whole hx (flags_default.2 hdenied) hy hcalm.flags_eq hne hwhole
  · intro h
    refine whole_of_not_flagged fun x hx => ?_
    rw [← Bool.not_eq_true, flags_default]
    exact h x hx

theorem whole_iff_not_denied_output :
    let cs : List Command := [.act {} (.text ⟨"SH", "(x)", false, none, none, none⟩)]
    let g : List Line :=
      [⟨1, "OUTPUT 'x'"⟩, ⟨2, "FONT ARIAL08 NORMAL"⟩, ⟨2, "POSITION (SAME) (SAME)"⟩, ⟨2, ";"⟩]
    g ∈ (State.emit (.initial {}) {} cs).block.groups ∧ 1 < g.length ∧
      Whole (.ofSettings {}) g := by
  intro cs g
  have hg : g ∈ (State.emit (.initial {}) {} cs).block.groups := by decide +kernel
  have hcalm : (g.all fun x => Calm x.text) = true := by decide
  refine ⟨hg, by decide, ((whole_iff_not_denied {} _ cs).2 g hg
    (by decide)).2 fun x hx hdenied => ?_⟩
  have hx : Calm x.text := by simpa using List.all_eq_true.1 hcalm x hx
  exact hx.not_denied hdenied.2

/-- A literal that holds a denied text: the first line of its statement is commented out, and the
other lines stay. -/
theorem literal_tears_statement :
    let cs : List Command := [.act {} (.text ⟨"SH", "(PAGEBRK IF)", false, none, none, none⟩)]
    let g : List Line :=
      [⟨1, "OUTPUT 'PAGEBRK IF'"⟩, ⟨2, "FONT ARIAL08 NORMAL"⟩,
        ⟨2, "POSITION (SAME) (SAME)"⟩, ⟨2, ";"⟩]
    g ∈ (State.emit (.initial {}) {} cs).block.groups ∧ ¬ Whole (.ofSettings {}) g ∧
      writeAt (.ofSettings {}) 0 g
        = ["    /* OUTPUT 'PAGEBRK IF' */", "        FONT ARIAL08 NORMAL",
        "        POSITION (SAME) (SAME)", "        ;"] := by
  intro cs g
  have hdenied : DeniedStretch "PAGEBRK IF".toList := .word (List.mem_cons_self ..) rfl
  have hout : (Detector.ofSettings {}).flags "OUTPUT 'PAGEBRK IF'" = true :=
    flags_default.2 ⟨by decide +kernel, _, hdenied, by decide +kernel⟩
  have hfont : Calm "FONT ARIAL08 NORMAL" := by decide
  have hplace : Calm "POSITION (SAME) (SAME)" := by decide
  have hend : Calm ";" := by decide
  have hmem : g ∈ (State.emit (.initial {}) {} cs).block.groups := by decide +kernel
  refine ⟨hmem, ?_, ?_⟩
  · exact not_whole (x := ⟨1, "OUTPUT 'PAGEBRK IF'"⟩) (y := ⟨2, ";"⟩) (by simp [g]) hout
      (by simp [g])
      hend.flags_eq (by decide)
  · simp only [g, writeAt, List.map_cons, List.map_nil, Line.deeper_zero]
    rw [Line.write_of_flags (x := ⟨1, "OUTPUT 'PAGEBRK IF'"⟩) hout,
      write_of_not_flagged hfont.flags_eq (by decide),
      write_of_not_flagged hplace.flags_eq (by decide),
      write_of_not_flagged hend.flags_eq (by decide)]
    decide +kernel

end VippDocdef.Docdef
