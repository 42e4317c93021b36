import Mathlib.Data.List.Chain
import Mathlib.Data.List.TakeWhile
import VippDocdef.Settings
import VippDocdef.Proofs.Sizes

/-! Validation of settings. Settings without a fault are the sound ones, if their limits are finite:
a limit that is not a number is compared with the one before it in vain. The bands of sound settings
are all in use: the limit of a band is a size of its own, and a band without one takes what is above
the others. -/

set_option autoImplicit false

namespace VippDocdef

namespace FontBand

def limits (bands : List FontBand) : List Float := bands.filterMap (·.upTo)

theorem mem_limits {bands : List FontBand} {b : FontBand} {limit : Float} (hb : b ∈ bands)
    (h : b.upTo = some limit) : limit ∈ limits bands :=
  List.mem_filterMap.2 ⟨b, hb, h⟩

/-- A limit is compared with the one before it only, and the order of sizes is transitive. -/
theorem bandFaults_eq_nil_iff (index : Nat) (previous : Option Float) {bands : List FontBand}
    (hprevious : ∀ x ∈ previous.toList, x.isFinite = true)
    (hbands : ∀ x ∈ limits bands, x.isFinite = true) :
    bandFaults index previous bands = [] ↔ (∀ b ∈ bands.dropLast, b.upTo.isSome = true)
      ∧ (previous.toList ++ limits bands).IsChain (· < ·) := by
  induction bands generalizing index previous with
  | nil => cases previous <;> simp [bandFaults, limits]
  | cons band rest ih =>
    cases hlimit : band.upTo with
    | none =>
      -- Without a limit the band has to be the last, and `previous` is then compared with nothing.
      cases rest with
      | nil => cases previous <;> simp [bandFaults, limits, hlimit]
      | cons next rest => simp [bandFaults, hlimit]
    | some limit =>
      have hlimits : limits (band :: rest) = limit :: limits rest := by simp [limits, hlimit]
      rw [hlimits, List.forall_mem_cons] at hbands
      have hrest := ih (index + 1) (some limit) (by simpa using hbands.1) hbands.2
      have hdrop : (∀ b ∈ (band :: rest).dropLast, b.upTo.isSome = true)
          ↔ ∀ b ∈ rest.dropLast, b.upTo.isSome = true := by
        cases rest with
        | nil => simp
        | cons next rest => simp [hlimit]
      rw [hlimits, hdrop, bandFaults, hlimit]
      simp only [List.append_eq_nil_iff, hrest, Option.toList_some, List.singleton_append]
      cases previous with
      | none => simp
      | some last =>
        have hlast := Size.isNaN_of_isFinite (hprevious last (by simp))
        have horder := Size.not_le_iff_lt hlast (Size.isNaN_of_isFinite hbands.1)
        rw [Option.toList_some, List.singleton_append, List.isChain_cons_cons, ← horder]
        simp [and_left_comm]

section Selection

variable {before after : List FontBand} {b : FontBand}

theorem admits_eq_false (hlimited : ∀ b' ∈ before, b'.upTo.isSome = true) {size : Float}
    (habove : ∀ x ∈ limits before, x < size) : ∀ b' ∈ before, b'.admits size = false := by
  intro b' hb'
  obtain ⟨limit, hlimit⟩ := Option.isSome_iff_exists.1 (hlimited b' hb')
  simpa [admits, hlimit] using Size.not_le_of_lt (habove limit (mem_limits hb' hlimit))

/-- A band has a size that no band before it admits. -/
theorem exists_admitted (hfinite : ∀ x ∈ limits (before ++ b :: after), x.isFinite = true)
    (hlimited : ∀ b' ∈ (before ++ b :: after).dropLast, b'.upTo.isSome = true)
    (hascending : (limits (before ++ b :: after)).Pairwise (· < ·)) :
    ∃ size : Float, size.isNaN = false ∧ b.admits size = true
      ∧ ∀ b' ∈ before, b'.admits size = false := by
  rw [List.dropLast_append_of_ne_nil (by simp), List.forall_mem_append] at hlimited
  rw [limits, List.filterMap_append] at hfinite hascending
  cases hlimit : b.upTo with
  | some limit =>
    have hmem : limit ∈ limits (b :: after) := mem_limits List.mem_cons_self hlimit
    have hnumber := Size.isNaN_of_isFinite (hfinite limit (List.mem_append_right _ hmem))
    refine ⟨limit, hnumber, by simpa [admits, hlimit] using Size.le_self hnumber,
      admits_eq_false hlimited.1 fun x hx => ?_⟩
    exact (List.pairwise_append.1 hascending).2.2 x hx limit hmem
  | none =>
    refine ⟨Size.infinity, by decide +kernel, by rw [admits, hlimit],
      admits_eq_false hlimited.1 fun x hx => ?_⟩
    exact Size.lt_infinity (hfinite x (List.mem_append_left _ hx))

end Selection

end FontBand

theorem Text.trim_eq_empty_iff (s : String) : trim s = "" ↔ ∀ c ∈ s.toList, isBlank c = true := by
  have hstart := List.head?_dropWhile_not isBlank s.toList
  rw [← List.dropWhile_eq_nil_iff, trim, dropEndWhile, ← String.ofList_nil, String.ofList_inj,
    List.reverse_eq_nil_iff, List.dropWhile_eq_nil_iff]
  cases hrest : s.toList.dropWhile isBlank with
  | nil => simp
  | cons c cs =>
    rw [hrest] at hstart
    simp_all

theorem Text.length_eq_one_iff (s : String) : s.length = 1 ↔ ∃ c, s = String.singleton c := by
  simp only [← String.length_toList, List.length_eq_one_iff, ← String.toList_inj,
    String.toList_singleton]

theorem patternFaults_eq_nil_iff (library : PatternLibrary) (fault : Nat → SettingsFault)
    (index : Nat) (patterns : List String) :
    patternFaults library fault index patterns = [] ↔
      ∀ p ∈ patterns, (library p).isSome = true := by
  induction patterns generalizing index with
  | nil => simp [patternFaults]
  | cons p ps ih => simp [patternFaults, ih, Option.isSome_iff_ne_none]

namespace Settings

structure Sound (library : PatternLibrary) (s : Settings) : Prop where
  recordLength : 0 < s.input.recordLength
  delimiter : ∃ c, s.input.defaultDelimiter = String.singleton c
  /-- The font has a name that can be seen. -/
  defaultFont : ∃ c ∈ s.layout.defaultFont.toList, Text.isBlank c = false
  bands : s.calibration.fontBands ≠ []
  /-- Only the last band may be without a limit. -/
  limited : ∀ b ∈ s.calibration.fontBands.dropLast, b.upTo.isSome = true
  ascending : (FontBand.limits s.calibration.fontBands).Pairwise (· < ·)
  patterns : ∀ p ∈ s.malformed.all, (library p).isSome = true
  jobs : s.output.jobs ≠ some 0

theorem faults_eq_nil_iff (library : PatternLibrary) {s : Settings}
    (hfinite : ∀ x ∈ FontBand.limits s.calibration.fontBands, x.isFinite = true) :
    s.faults library = [] ↔ s.Sound library := by
  have hlone (c : Prop) [Decidable c] (f : SettingsFault) :
      (if c then [f] else []) = [] ↔ ¬ c := by simp
  have hbands := FontBand.bandFaults_eq_nil_iff 0 none (by simp) hfinite
  rw [Option.toList_none, List.nil_append, List.isChain_iff_pairwise] at hbands
  have hall : (∀ p ∈ s.malformed.all, (library p).isSome = true)
      ↔ (∀ p ∈ s.malformed.patterns, (library p).isSome = true)
        ∧ ∀ p ∈ s.malformed.extraPatterns, (library p).isSome = true :=
    List.forall_mem_append
  simp only [faults, List.append_eq_nil_iff, hlone, hbands, patternFaults_eq_nil_iff, not_not,
    Text.length_eq_one_iff, List.isEmpty_iff, Text.trim_eq_empty_iff, not_forall, exists_prop,
    Bool.not_eq_true]
  constructor
  · rintro ⟨⟨⟨⟨⟨⟨⟨hrecord, hdelimiter⟩, hfont⟩, hsome⟩, hlimited, hascending⟩, hpatterns⟩, hextra⟩,
      hjobs⟩
    exact ⟨Nat.pos_of_ne_zero hrecord, hdelimiter, hfont, hsome, hlimited, hascending,
      hall.2 ⟨hpatterns, hextra⟩, hjobs⟩
  · intro h
    obtain ⟨hpatterns, hextra⟩ := hall.1 h.patterns
    exact ⟨⟨⟨⟨⟨⟨⟨h.recordLength.ne', h.delimiter⟩, h.defaultFont⟩, h.bands⟩, h.limited,
      h.ascending⟩, hpatterns⟩, hextra⟩, h.jobs⟩

/-- Whatever library reads the patterns, settings are found valid exactly if they are sound, and
then every band is the first to admit some size. -/
theorem valid_iff_sound (library : PatternLibrary) (s : Settings)
    (hfinite : ∀ b ∈ s.calibration.fontBands, ∀ limit, b.upTo = some limit →
      limit.isFinite = true) :
    (s.faults library = [] ↔ s.Sound library) ∧
      (s.faults library = [] → ∀ b ∈ s.calibration.fontBands,
        ∃ size : Float, size.isNaN = false ∧ s.calibration.band? size = some b) := by
  have hlimits : ∀ x ∈ FontBand.limits s.calibration.fontBands, x.isFinite = true := by
    intro x hx
    obtain ⟨b, hb, hlimit⟩ := List.mem_filterMap.1 hx
    exact hfinite b hb x hlimit
  refine ⟨faults_eq_nil_iff library hlimits, fun hvalid b hb => ?_⟩
  have hsound := (faults_eq_nil_iff library hlimits).1 hvalid
  obtain ⟨before, after, hsplit⟩ := List.append_of_mem hb
  obtain ⟨size, hnumber, hadmits, hbefore⟩ := FontBand.exists_admitted (hsplit ▸ hlimits)
    (hsplit ▸ hsound.limited) (hsplit ▸ hsound.ascending)
  refine ⟨size, hnumber, List.find?_eq_some_iff_append.2 ⟨hadmits, before, after, hsplit, ?_⟩⟩
  simpa using hbefore

def twoBands : Settings where
  calibration := { fontBands := [⟨some 9, 8, -43.5⟩, ⟨none, 12, -66⟩] }
  malformed := { patterns := ["[0-9]+"] }

theorem valid_iff_sound_catch_all :
    twoBands.Sound Pattern.library ∧ ∃ size :
      Float, twoBands.calibration.band? size = some ⟨none, 12, -66⟩ := by
  have hfinite : ∀ b ∈ twoBands.calibration.fontBands, ∀ limit, b.upTo = some limit →
      limit.isFinite = true := by
    intro b hb limit hlimit
    have hb : b = ⟨some 9, 8, -43.5⟩ ∨ b = ⟨none, 12, -66⟩ := by simpa [twoBands] using hb
    rcases hb with rfl | rfl
    · obtain rfl : (9 : Float) = limit := Option.some_inj.1 hlimit
      decide +kernel
    · cases hlimit
  have hvalid : twoBands.faults = [] := by decide +kernel
  obtain ⟨hsound, hselected⟩ := valid_iff_sound Pattern.library twoBands hfinite
  obtain ⟨size, -, hsize⟩ := hselected hvalid ⟨none, 12, -66⟩ (by simp [twoBands])
  exact ⟨hsound.1 hvalid, size, hsize⟩

end Settings

end VippDocdef
