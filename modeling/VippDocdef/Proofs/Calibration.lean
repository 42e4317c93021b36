import VippDocdef.Proofs.Commenting
import VippDocdef.Proofs.Sections

/-! Corrections of vertical positions. A band of font sizes names its correction by a number of
points, and the start of a program gives each correction its value. The band of a size is the first
that admits it; the value of a correction is the last one given, so bands that share a number of
points share an offset. -/

set_option autoImplicit false

namespace VippDocdef.Docdef

def assignedValue? (name line : String) : Option String :=
  match Text.after? (name.toList ++ equals) (line.toList.dropWhile (· == ' ')) with
  | none => none
  | some rest => if rest.getLast? = some ';' then some (.ofList rest.dropLast) else none

/-- The value of a variable behind some written lines. -/
def finalValue? (name : String) (lines : List String) : Option String :=
  (lines.filterMap (assignedValue? name)).getLast?

def correctionStart : List Char := ['&', 'C', 'O', 'R', 'F', 'O', 'N', 'T']

theorem toList_variable (b : FontBand) :
    b.variable.toList = correctionStart ++ Nat.toDigits 10 b.points := by
  simp [FontBand.variable, toString, Nat.repr_eq_ofList_toDigits, correctionStart]

theorem assignedValue?_lineAt (name : String) (level : Nat) (text : String) :
    assignedValue? name (lineAt level text) = assignedValue? name text := by
  simp [assignedValue?, lineAt, Line.indentation]

theorem assignedValue?_eq_none {text : String}
    (h : ¬ correctionStart <+: text.toList.dropWhile (· == ' ')) (b : FontBand) :
    assignedValue? b.variable text = none := by
  unfold assignedValue?
  split
  · rfl
  · next rest hrest =>
    refine absurd ?_ h
    rw [Text.append_of_after? hrest, toList_variable, List.append_assoc, List.append_assoc]
    exact List.prefix_append _ _

theorem assignedValue?_append {head : String} (h : isApart correctionStart head = true)
    (rest : String) (b : FontBand) : assignedValue? b.variable (head ++ rest) = none :=
  assignedValue?_eq_none (not_isPrefix_append h rest) b

theorem assignedValue?_of_start {text : String} (h : isApart correctionStart text = true)
    (b : FontBand) : assignedValue? b.variable text = none := by
  simpa using assignedValue?_append h "" b

theorem assignedValue?_empty (b : FontBand) : assignedValue? b.variable "" = none :=
  assignedValue?_eq_none (by decide) b

theorem assignedValue?_write (d : Detector) (x : Line) (b : FontBand) :
    assignedValue? b.variable (x.write d)
      = if d.flags x.text = true then none else assignedValue? b.variable x.text := by
  unfold Line.write
  split
  · next hempty =>
    rw [hempty, assignedValue?_empty]
    split <;> rfl
  · change assignedValue? b.variable (lineAt x.depth (d.sanitize x.text)) = _
    rw [assignedValue?_lineAt]
    unfold Detector.sanitize
    split
    · rw [String.append_assoc]
      exact assignedValue?_append (by decide) _ b
    · rfl

theorem filterMap_written (d : Detector) (b : FontBand) (lines : List Line) :
    (Listing.add d {} lines).written.filterMap (assignedValue? b.variable)
      = ((texts lines).filter (!d.flags ·)).filterMap (assignedValue? b.variable) := by
  simp only [Listing.add, texts, List.nil_append, List.filterMap_map, List.filterMap_filter]
  refine List.filterMap_congr fun x hx => ?_
  simp only [Function.comp_apply, Line.deeper_zero, assignedValue?_write]
  cases d.flags x.text <;> rfl

def offsetText (b : FontBand) : String := Decimal.plain.text b.offset

def bandLine (b : FontBand) : String := b.variable ++ " = " ++ offsetText b ++ ";"

theorem correctionLines_eq (c : Calibration) :
    correctionLines c
      = c.fontBands.map bandLine
        ++ ["&CORSEGMENT = " ++ Decimal.plain.text c.segmentCorrection ++ ";"] :=
  rfl

theorem space_not_mem_toDigits (n : Nat) : ' ' ∉ Nat.toDigits 10 n := by
  intro hmem
  have hdigit := Nat.isDigit_of_mem_toDigits (by omega) (by omega) hmem
  exact absurd hdigit (by decide)

theorem points_eq_of_append {m n : Nat} {r t : List Char}
    (h : Nat.toDigits 10 m ++ ' ' :: r = Nat.toDigits 10 n ++ ' ' :: t) : m = n := by
  have htake (k : Nat) (u : List Char) :
      (Nat.toDigits 10 k ++ ' ' :: u).takeWhile (· != ' ') = Nat.toDigits 10 k := by
    rw [List.takeWhile_append_of_pos]
    · simp
    · intro c hc
      have hne : c ≠ ' ' := fun heq => space_not_mem_toDigits k (heq ▸ hc)
      simpa using hne
  have hdigits := congrArg (List.takeWhile (· != ' ')) h
  rw [htake, htake] at hdigits
  have hvalue := congrArg (fun ds => Nat.ofDigitChars 10 ds 0) hdigits
  simpa using hvalue

theorem toList_bandLine (b : FontBand) :
    (bandLine b).toList
      = correctionStart ++ Nat.toDigits 10 b.points ++ equals
        ++ ((offsetText b).toList ++ [';']) := by
  simp [bandLine, toList_variable, equals]

theorem assignedValue?_bandLine (b x : FontBand) :
    assignedValue? b.variable (bandLine x) = if x.points
      = b.points then some (offsetText x) else none := by
  have hline : (bandLine x).toList.dropWhile (· == ' ') = (bandLine x).toList := by
    rw [toList_bandLine]
    rfl
  unfold assignedValue?
  rw [hline, toList_bandLine, toList_variable]
  split
  · next hnone =>
    rw [if_neg]
    intro heq
    rw [heq, Text.after?_append] at hnone
    cases hnone
  · next rest hrest =>
    have happend := Text.append_of_after? hrest
    have hpoints : x.points = b.points := by
      simp only [List.append_assoc, List.append_cancel_left_eq] at happend
      exact points_eq_of_append happend
    rw [hpoints, Text.after?_append] at hrest
    rw [← Option.some.inj hrest, if_pos hpoints]
    simp

def Env.detector (e : Env) : Detector := .ofSettings e.settings.malformed

def Env.ownStart (e : Env) : List String :=
  (Command.actions e.project.document.prologue).flatMap initializationLines

/-- The values that the correction of a band gets one after the other: the offsets of all bands with
its points, and what the document gives it. Lines that are commented out give none. -/
def Env.givenValues (e : Env) (b : FontBand) : List String :=
  ((e.settings.calibration.fontBands.filter fun x => !e.detector.flags (bandLine x)).filter
      (·.points = b.points)).map offsetText
    ++ (e.ownStart.filter (!e.detector.flags ·)).filterMap (assignedValue? b.variable)

def Env.writtenStart (e : Env) : List String :=
  (Listing.add e.detector {} (beforeFirstDocument e)).written

theorem filterMap_bandLines (d : Detector) (b : FontBand) (bands : List FontBand) :
    ((bands.map bandLine).filter (!d.flags ·)).filterMap (assignedValue? b.variable)
      = ((bands.filter fun x => !d.flags (bandLine x)).filter (·.points = b.points)).map
        offsetText := by
  rw [List.filter_map, List.filterMap_map, ← List.filterMap_eq_map]
  conv_rhs => rw [List.filterMap_filter]
  simp only [Function.comp_def, assignedValue?_bandLine, decide_eq_true_eq]

def Spared (b : FontBand) (lines : List String) : Prop :=
  ∀ t ∈ lines, assignedValue? b.variable t = none

theorem Spared.filterMap_eq {b : FontBand} {lines : List String} (h : Spared b lines)
    (d : Detector) :
    (lines.filter (!d.flags ·)).filterMap (assignedValue? b.variable) = [] :=
  List.filterMap_eq_nil_iff.2 fun t ht => h t (List.mem_filter.1 ht).1

theorem texts_beforeFirstDocument (e : Env) : ∃ front middle back,
    texts (beforeFirstDocument e)
        = front
          ++ (e.settings.calibration.fontBands.map bandLine ++ (middle ++ (e.ownStart ++ back))) ∧
      ∀ b, Spared b front ∧ Spared b middle ∧ Spared b back := by
  let front : List String :=
    ["/* Initialize variables */", "DOCFORMAT $_BEFOREFIRSTDOC;", "/* Current page */", "PP = 0;",
      "/* Total pages */", "TP = 0;", "", "/* Correction for Xerox position */",
      "/* Correction = ($SL_MAXY - $SL_MINY)/4 */"]
  let middle : List String :=
    ["&CORSEGMENT = " ++ Decimal.plain.text e.settings.calibration.segmentCorrection ++ ";", "",
      "/* Variable Initialization from DBM */", ""]
  let back : List String :=
    ["", "/* Read data header */", "&SEP = " ++ separatorLiteral e.delimiter ++ ";", "FOR I",
      "REPEAT 1;"]
      ++ texts (recordInput "DATAHEADER") ++ [""] ++ texts dataHeaderLines ++ ["ENDFOR;", ""]
  refine ⟨front, middle, back, ?_, fun b => ⟨?_, ?_, ?_⟩⟩
  · simp [beforeFirstDocument, correctionLines_eq, Env.ownStart, front, middle, back, Line.blank]
  · simp (disch := decide) [Spared, front, assignedValue?_of_start, assignedValue?_empty]
  · simp (disch := decide) [Spared, middle, assignedValue?_of_start, assignedValue?_empty,
      assignedValue?_append, String.append_assoc]
  · simp (disch := decide) [Spared, back, assignedValue?_of_start, assignedValue?_empty,
      assignedValue?_append, String.append_assoc, recordInput, dataHeaderLines, Line.blank]

theorem filterMap_writtenStart (e : Env) (b : FontBand) :
    e.writtenStart.filterMap (assignedValue? b.variable) = e.givenValues b := by
  obtain ⟨front, middle, back, htexts, hspared⟩ := texts_beforeFirstDocument e
  obtain ⟨hfront, hmiddle, hback⟩ := hspared b
  unfold Env.writtenStart
  rw [filterMap_written, htexts]
  simp only [List.filter_append, List.filterMap_append, hfront.filterMap_eq, hmiddle.filterMap_eq,
    hback.filterMap_eq, filterMap_bandLines, List.nil_append, List.append_nil]
  rfl

theorem finalValue?_writtenStart (e : Env) (b : FontBand) :
    finalValue? b.variable e.writtenStart = (e.givenValues b).getLast? :=
  congrArg List.getLast? (filterMap_writtenStart e b)

/-- Nothing but the bands gives the correction of `b` a value, and all of them do. -/
structure Env.Undisturbed (e : Env) (b : FontBand) : Prop where
  bands : ∀ x ∈ e.settings.calibration.fontBands, e.detector.flags (bandLine x) = false
  document : Spared b e.ownStart

theorem Env.undisturbed_of_isHarmless {e : Env} {lines : List String}
    (hdefault : e.settings.malformed = {})
    (hlines : e.settings.calibration.fontBands.map bandLine = lines)
    (hharmless : lines.all isHarmless = true) (hstart : e.ownStart = []) (b : FontBand) :
    e.Undisturbed b where
  bands x hx := by
    rw [detector, hdefault]
    exact flags_eq_of_isHarmless (List.all_eq_true.1 hharmless _ (hlines ▸ List.mem_map_of_mem hx))
  document := by
    rw [hstart]
    exact List.forall_mem_nil _

theorem Env.Undisturbed.givenValues_eq {e : Env} {b : FontBand} (h : e.Undisturbed b) :
    e.givenValues b
      = (e.settings.calibration.fontBands.filter (·.points = b.points)).map offsetText := by
  have hlive : (e.settings.calibration.fontBands.filter fun x => !e.detector.flags (bandLine x))
      = e.settings.calibration.fontBands :=
    List.filter_eq_self.2 fun x hx => by simp [h.bands x hx]
  unfold givenValues
  rw [hlive, h.document.filterMap_eq, List.append_nil]

/-- The last band with the points of `b` is the one whose offset counts. -/
theorem Env.Undisturbed.finalValue?_eq_some_iff {e : Env} {b : FontBand} (h : e.Undisturbed b)
    (value : String) :
    finalValue? b.variable e.writtenStart = some value ↔
      ∃ before x after, e.settings.calibration.fontBands = before ++ x :: after ∧
        x.points = b.points ∧ (∀ y ∈ after, y.points ≠ b.points) ∧ offsetText x = value := by
  rw [finalValue?_writtenStart, h.givenValues_eq, List.getLast?_map, List.getLast?_filter,
    Option.map_eq_some_iff]
  simp only [List.find?_eq_some_iff_append, List.reverse_eq_iff, List.reverse_append,
    List.reverse_cons, List.append_assoc, List.singleton_append, decide_eq_true_eq,
    Bool.not_eq_true', decide_eq_false_iff_not]
  constructor
  · rintro ⟨x, ⟨hx, after, before, hbands, hafter⟩, hvalue⟩
    exact ⟨before.reverse, x, after.reverse, hbands, hx, by simpa using hafter, hvalue⟩
  · rintro ⟨before, x, after, hbands, hx, hafter, hvalue⟩
    exact ⟨x, ⟨hx, after.reverse, before.reverse, by simpa using hbands, by simpa using hafter⟩,
      hvalue⟩

/-- A font of a size is corrected by the offset of its band exactly if the last value that the
correction is given is that offset. Where only the bands give values, it is the offset of the last
band with the same points, and so the band's own if no two bands have the same points. -/
theorem offset_in_force_iff {e : Env} {size : Float} {b : FontBand}
    (hb : e.settings.calibration.band? size = some b) :
    (∀ font, e.fontSize? font = some size → ¬ size ≤ 0 → e.correction? font = some b.variable) ∧
    (finalValue? b.variable e.writtenStart = some (offsetText b) ↔
      (e.givenValues b).getLast? = some (offsetText b)) ∧
    (e.Undisturbed b →
      (finalValue? b.variable e.writtenStart = some (offsetText b) ↔
        ∃ before x after, e.settings.calibration.fontBands = before ++ x :: after ∧
          x.points = b.points ∧ (∀ y ∈ after, y.points ≠ b.points) ∧ offsetText x = offsetText b) ∧
      ((e.settings.calibration.fontBands.map (·.points)).Nodup →
        finalValue? b.variable e.writtenStart = some (offsetText b))) := by
  refine ⟨fun font hsize hpos => ?_, ?_, fun h => ⟨h.finalValue?_eq_some_iff _, fun hnodup => ?_⟩⟩
  · simp [Env.correction?, hsize, hpos, hb]
  · rw [finalValue?_writtenStart]
  · obtain ⟨before, after, hbands⟩ := List.append_of_mem (List.mem_of_find?_eq_some hb)
    refine (h.finalValue?_eq_some_iff _).2 ⟨before, b, after, hbands, rfl, fun y hy heq => ?_, rfl⟩
    rw [hbands, List.map_append, List.map_cons] at hnodup
    have hfresh := (List.nodup_cons.1 (List.nodup_append.1 hnodup).2.1).1
    exact hfresh (List.mem_map.2 ⟨y, hy, heq⟩)

/-- The bands that come with the settings have points of their own. -/
theorem offset_in_force_iff_default :
    let e : Env := {}
    let b : FontBand := ⟨some 9.0, 8, -43.5⟩
    e.settings.calibration.band? 8 = some b ∧ e.Undisturbed b ∧
      (e.settings.calibration.fontBands.map (·.points)).Nodup ∧
      e.fontSize? "Arial08" = some 8 ∧ e.correction? "Arial08" = some b.variable ∧
      finalValue? b.variable e.writtenStart = some "-43.5" := by
  intro e b
  have hband : e.settings.calibration.band? 8 = some b := by
    have hadmits : (⟨some 6.5, 6, -33.0⟩ : FontBand).admits 8 = false ∧
        (⟨some 7.5, 7, -37.5⟩ : FontBand).admits 8 = false ∧ b.admits 8 = true := by decide +kernel
    simp [Calibration.band?, e, hadmits, b]
  have hlines : e.settings.calibration.fontBands.map bandLine =
      ["&CORFONT6 = -33;", "&CORFONT7 = -37.5;", "&CORFONT8 = -43.5;", "&CORFONT10 = -55.5;",
        "&CORFONT12 = -66;"] := by decide +kernel
  have hundisturbed : e.Undisturbed b :=
    Env.undisturbed_of_isHarmless rfl hlines (by decide +kernel) rfl b
  have hnodup : (e.settings.calibration.fontBands.map (·.points)).Nodup := by decide
  have hsize : e.fontSize? "Arial08" = some 8 := by
    have hupper : "Arial08".toUpper = "ARIAL08" := by decide +kernel
    rw [Env.fontSize?, hupper]
    decide +kernel
  have hpositive : ¬ (8 : Float) ≤ 0 := by decide +kernel
  have htext : offsetText b = "-43.5" := by decide +kernel
  obtain ⟨hcorrection, -, hfinal⟩ := offset_in_force_iff hband
  refine ⟨hband, hundisturbed, hnodup, hsize, hcorrection "Arial08" hsize hpositive, ?_⟩
  rw [← htext]
  exact (hfinal hundisturbed).2 hnodup

/-- Two valid bands with the same points: the offset of the first one is not in force. -/
theorem shared_points_lose_offset :
    let b : FontBand := ⟨some 8, 8, -40⟩
    let e : Env := { settings := { calibration := { fontBands := [b, ⟨none, 8, -60⟩] } } }
    e.settings.isValid = true ∧ e.settings.calibration.band? 8 = some b ∧
      finalValue? b.variable e.writtenStart = some "-60" ∧ offsetText b = "-40" := by
  intro b e
  have hadmits : b.admits 8 = true := by decide +kernel
  have hlines :
      e.settings.calibration.fontBands.map bandLine = ["&CORFONT8 = -40;", "&CORFONT8 = -60;"] := by
    decide +kernel
  have hundisturbed : e.Undisturbed b :=
    Env.undisturbed_of_isHarmless rfl hlines (by decide +kernel) rfl b
  have hlast : offsetText ⟨none, 8, -60⟩ = "-60" := by decide +kernel
  refine ⟨by decide +kernel, by simp [Calibration.band?, e, hadmits], ?_, by decide +kernel⟩
  exact (hundisturbed.finalValue?_eq_some_iff _).2
    ⟨[b], _, [], rfl, rfl, List.forall_mem_nil _, hlast⟩

end VippDocdef.Docdef
