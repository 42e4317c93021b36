import Mathlib.Logic.ExistsUnique
import VippDocdef.Docdef.FontSwitch

/-! Font switches in texts. There is one way to cut a text at its switches, and every letter between
them is set in the font that the switch before it names. -/

set_option autoImplicit false

namespace VippDocdef.Docdef

structure IsSwitchName (name : List Char) : Prop where
  nonempty : name ≠ []
  short : name.length ≤ 2
  letters : ∀ c ∈ name, c.isAlphanum = true

def HasSwitch (text : List Char) : Prop := ∃ c, c.isAlphanum = true ∧ ['~', '~', c] <:+: text

def EndsName (name rest : List Char) : Prop :=
  name.length = 1 → ∀ c ∈ rest.head?, c.isAlphanum = false

theorem isSwitchName_one {c : Char} (h : c.isAlphanum = true) : IsSwitchName [c] :=
  ⟨List.cons_ne_nil _ _, by simp, List.forall_mem_singleton.2 h⟩

theorem isSwitchName_two {c d : Char} (hc : c.isAlphanum = true) (hd : d.isAlphanum = true) :
    IsSwitchName [c, d] :=
  ⟨List.cons_ne_nil _ _, by simp, List.forall_mem_cons.2 ⟨hc, List.forall_mem_singleton.2 hd⟩⟩

theorem switch?_append {name rest : List Char} (hname : IsSwitchName name)
    (hends : EndsName name rest) :
    switch? ('~' :: '~' :: (name ++ rest)) = some (name, rest) := by
  obtain ⟨hne, hshort, hletters⟩ := hname
  rcases name with _ | ⟨c, _ | ⟨d, _ | ⟨e, more⟩⟩⟩
  · exact absurd rfl hne
  · have hc := hletters c (by simp)
    cases rest with
    | nil => simp [switch?, hc]
    | cons x rest =>
      have hx := hends rfl x rfl
      simp [switch?, hc, hx]
  · have hc := hletters c (by simp)
    have hd := hletters d (by simp)
    simp [switch?, hc, hd]
  · simp at hshort

theorem switch?_eq_some {cs name rest : List Char} (h : switch? cs = some (name, rest)) :
    IsSwitchName name ∧ EndsName name rest ∧ cs = '~' :: '~' :: (name ++ rest) := by
  unfold switch? at h
  split at h
  · next c cs =>
    split at h
    · next hc =>
      split at h
      · next d rest' =>
        split at h
        · next hd =>
          obtain ⟨rfl, rfl⟩ := Prod.mk.inj (Option.some.inj h)
          exact ⟨isSwitchName_two hc hd, by simp [EndsName], rfl⟩
        · next hd =>
          obtain ⟨rfl, rfl⟩ := Prod.mk.inj (Option.some.inj h)
          exact ⟨isSwitchName_one hc, by simpa [EndsName] using hd, rfl⟩
      · obtain ⟨rfl, rfl⟩ := Prod.mk.inj (Option.some.inj h)
        exact ⟨isSwitchName_one hc, by simp [EndsName], rfl⟩
    · cases h
  · cases h

theorem switch?_eq_none {cs : List Char} (h : switch? cs = none) {c : Char}
    (hc : c.isAlphanum = true) :
    ¬ ['~', '~', c] <+: cs := by
  rintro ⟨rest, rfl⟩
  cases rest with
  | nil => simp [switch?, hc] at h
  | cons d rest =>
    simp only [List.cons_append, List.nil_append, switch?, hc, if_true] at h
    split at h <;> cases h

/-- What a text was cut from: the part in front of its first switch, and each switch with what is
behind it. -/
def switchSource (cut : List Char × List (List Char × List Char)) : List Char :=
  cut.1 ++ cut.2.flatMap fun run => '~' :: '~' :: (run.1 ++ run.2)

/-- Every switch is cut out as a whole, and none is left. -/
structure IsSwitchCut (cut : List Char × List (List Char × List Char)) : Prop where
  lead : ¬ HasSwitch cut.1
  texts : ∀ run ∈ cut.2, ¬ HasSwitch run.2
  names : ∀ run ∈ cut.2, IsSwitchName run.1
  longest : ∀ run ∈ cut.2, EndsName run.1 run.2

section

variable {c : Char} {lead name text : List Char} {rs : List (List Char × List Char)}

theorem switchSource_cons : switchSource (c :: lead, rs) = c :: switchSource (lead, rs) := rfl

theorem switchSource_switch :
    switchSource ([], (name, text) :: rs) = '~' :: '~' :: (name ++ switchSource (text, rs)) := by
  simp [switchSource]

theorem not_hasSwitch_nil : ¬ HasSwitch [] := by
  rintro ⟨c, -, hswitch⟩
  simp at hswitch

theorem HasSwitch.cons (h : HasSwitch text) (c : Char) : HasSwitch (c :: text) := by
  obtain ⟨x, hx, hswitch⟩ := h
  exact ⟨x, hx, hswitch.trans (List.suffix_cons c text).isInfix⟩

theorem not_hasSwitch_cons {rest : List Char} (h : ¬ HasSwitch text)
    (hnone : switch? (c :: (text ++ rest)) = none) : ¬ HasSwitch (c :: text) := by
  rintro ⟨x, hx, hswitch⟩
  rcases List.infix_cons_iff.1 hswitch with hstart | hswitch
  · exact switch?_eq_none hnone hx (hstart.trans (List.prefix_append (c :: text) rest))
  · exact h ⟨x, hx, hswitch⟩

theorem isAlphanum_tilde : Char.isAlphanum '~' = false := by decide

/-- The switch behind a text does not complete one that the text ends with. -/
theorem switch?_switchSource (h : ¬ HasSwitch (c :: lead)) :
    switch? (switchSource (c :: lead, rs)) = none := by
  rw [Option.eq_none_iff_forall_ne_some]
  rintro ⟨name, rest⟩ hsome
  obtain ⟨hname, -, hsplit⟩ := switch?_eq_some hsome
  obtain ⟨x, more, rfl⟩ := List.exists_cons_of_ne_nil hname.nonempty
  have hx := hname.letters x List.mem_cons_self
  -- the letter of the name would be a tilde of the next switch
  have htilde : x ≠ '~' := by
    rintro rfl
    rw [isAlphanum_tilde] at hx
    cases hx
  rw [switchSource_cons] at hsplit
  rcases lead with _ | ⟨a, _ | ⟨b, lead⟩⟩
  · rcases rs with _ | ⟨⟨name, text⟩, rs⟩
    · cases (List.cons.inj hsplit).2
    · rw [switchSource_switch] at hsplit
      simp only [List.cons_append, List.cons.injEq] at hsplit
      exact htilde hsplit.2.2.1.symm
  · rcases rs with _ | ⟨⟨name, text⟩, rs⟩
    · cases (List.cons.inj (List.cons.inj hsplit).2).2
    · rw [switchSource_cons, switchSource_switch] at hsplit
      simp only [List.cons_append, List.cons.injEq] at hsplit
      exact htilde hsplit.2.2.1.symm
  · simp only [switchSource_cons, List.cons_append, List.cons.injEq] at hsplit
    obtain ⟨rfl, rfl, rfl, -⟩ := hsplit
    exact h ⟨_, hx, [], lead, rfl⟩

theorem EndsName.switchSource (h : EndsName name text) :
    EndsName name (switchSource (text, rs)) := by
  intro hlength x hx
  rcases text with _ | ⟨d, text⟩
  · rcases rs with _ | ⟨⟨name, text⟩, rs⟩
    · cases hx
    · rw [switchSource_switch] at hx
      rw [← Option.some.inj hx, isAlphanum_tilde]
  · exact h hlength x hx

theorem EndsName.of_append {rest : List Char} (h : EndsName name (text ++ rest)) :
    EndsName name text := by
  intro hlength x hx
  refine h hlength x ?_
  rw [List.head?_append, hx]
  rfl

namespace IsSwitchCut

theorem nil : IsSwitchCut ([], []) :=
  ⟨not_hasSwitch_nil, List.forall_mem_nil _, List.forall_mem_nil _, List.forall_mem_nil _⟩

theorem cons (h : IsSwitchCut (lead, rs)) (hnone : switch? (c :: switchSource (lead, rs)) = none) :
    IsSwitchCut (c :: lead, rs) :=
  ⟨not_hasSwitch_cons h.lead hnone, h.texts, h.names, h.longest⟩

theorem switch (h : IsSwitchCut (text, rs)) (hname : IsSwitchName name)
    (hends : EndsName name text) :
    IsSwitchCut ([], (name, text) :: rs) where
  lead := not_hasSwitch_nil
  texts := List.forall_mem_cons.2 ⟨h.lead, h.texts⟩
  names := List.forall_mem_cons.2 ⟨hname, h.names⟩
  longest := List.forall_mem_cons.2 ⟨hends, h.longest⟩

theorem of_cons (h : IsSwitchCut (c :: lead, rs)) : IsSwitchCut (lead, rs) :=
  ⟨fun hlead => h.lead (hlead.cons c), h.texts, h.names, h.longest⟩

theorem of_switch (h : IsSwitchCut (lead, (name, text) :: rs)) : IsSwitchCut (text, rs) where
  lead := h.texts (name, text) List.mem_cons_self
  texts run hrun := h.texts run (List.mem_cons_of_mem _ hrun)
  names run hrun := h.names run (List.mem_cons_of_mem _ hrun)
  longest run hrun := h.longest run (List.mem_cons_of_mem _ hrun)

end IsSwitchCut

end

theorem isSwitchCut_runs (cs : List Char) :
    IsSwitchCut (runs cs) ∧ switchSource (runs cs) = cs := by
  fun_induction runs cs with
  | case1 => exact ⟨.nil, rfl⟩
  | case2 c cs name rest hswitch _ behind ih =>
    obtain ⟨hcut, hsource⟩ := ih
    obtain ⟨hname, hends, hsplit⟩ := switch?_eq_some hswitch
    have hends' : EndsName name behind.1 :=
      EndsName.of_append (by rw [← hsource] at hends; exact hends)
    exact ⟨hcut.switch hname hends', by rw [switchSource_switch, hsplit, hsource]⟩
  | case3 c cs hnone behind ih =>
    obtain ⟨hcut, hsource⟩ := ih
    rw [← hsource] at hnone
    exact ⟨hcut.cons hnone, by rw [switchSource_cons, hsource]⟩

theorem runs_of_switch? {cs name rest : List Char} (h : switch? cs = some (name, rest)) :
    runs cs = ([], (name, (runs rest).1) :: (runs rest).2) := by
  cases cs with
  | nil => simp [switch?] at h
  | cons c cs =>
    rw [runs]
    split
    · next heq =>
      rw [h] at heq
      obtain ⟨rfl, rfl⟩ := Prod.mk.inj (Option.some.inj heq)
      rfl
    · next heq => simp [h] at heq

theorem runs_cons_of_none {c : Char} {cs : List Char} (h : switch? (c :: cs) = none) :
    runs (c :: cs) = (c :: (runs cs).1, (runs cs).2) := by
  rw [runs]
  split
  · next heq => simp [h] at heq
  · rfl

theorem runs_lead {lead : List Char} {rs : List (List Char × List Char)}
    (h : IsSwitchCut (lead, rs)) (hrs : runs (switchSource ([], rs)) = ([], rs)) :
    runs (switchSource (lead, rs)) = (lead, rs) := by
  induction lead with
  | nil => exact hrs
  | cons c lead ih =>
    have hnone : switch? (c :: switchSource (lead, rs)) = none := switch?_switchSource h.lead
    rw [switchSource_cons, runs_cons_of_none hnone, ih h.of_cons]

theorem IsSwitchCut.runs_eq {lead : List Char} {rs : List (List Char × List Char)}
    (h : IsSwitchCut (lead, rs)) : runs (switchSource (lead, rs)) = (lead, rs) := by
  induction rs generalizing lead with
  | nil => exact runs_lead h (by rw [switchSource, List.flatMap_nil, List.append_nil, runs])
  | cons run rs ih =>
    obtain ⟨name, text⟩ := run
    have hname := h.names (name, text) List.mem_cons_self
    have hends := h.longest (name, text) List.mem_cons_self
    refine runs_lead h ?_
    rw [switchSource_switch, runs_of_switch? (switch?_append hname hends.switchSource),
      ih h.of_switch]

def stretches (start : String) (cut : List Char × List (List Char × List Char)) :
    List (String × String) :=
  (start, .ofList cut.1) :: cut.2.map fun run => (.ofList run.1, .ofList run.2)

def inFonts (segments : List (String × String)) : List (String × Char) :=
  segments.flatMap fun segment => segment.2.toList.map (segment.1, ·)

theorem fontSegments_eq (start s : String) :
    fontSegments start s = (stretches start (runs s.toList)).filter (·.2 ≠ "") := by
  have hfilter (l : List (String × List Char)) :
      (l.filterMap fun x => if x.2.isEmpty then none else some (x.1, String.ofList x.2))
        = (l.map fun x => (x.1, String.ofList x.2)).filter (·.2 ≠ "") := by
    induction l with
    | nil => rfl
    | cons x l ih =>
      rw [List.filterMap_cons, List.map_cons, List.filter_cons, ih]
      cases hx : x.2 with
      | nil => simp
      | cons c text => simp
  unfold fontSegments
  dsimp only
  rw [hfilter, List.map_cons, List.map_map]
  rfl

theorem inFonts_filter (segments : List (String × String)) :
    inFonts (segments.filter (·.2 ≠ "")) = inFonts segments := by
  induction segments with
  | nil => rfl
  | cons segment rest ih =>
    rw [List.filter_cons]
    by_cases hempty : segment.2 = ""
    · simp only [hempty, ne_eq, not_true_eq_false, decide_false, Bool.false_eq_true, if_false, ih]
      simp [inFonts, hempty]
    · rw [if_pos (by simpa using hempty)]
      exact congrArg (segment.2.toList.map (segment.1, ·) ++ ·) ih

theorem inFonts_stretches (start : String) (cut : List Char × List (List Char × List Char)) :
    inFonts (stretches start cut)
      = cut.1.map (start, ·) ++ cut.2.flatMap fun run => run.2.map (String.ofList run.1, ·) := by
  simp [inFonts, stretches, List.flatMap_map]

theorem map_snd_inFonts (segments : List (String × String)) :
    (inFonts segments).map (·.2) = segments.flatMap (·.2.toList) := by
  simp [inFonts, List.map_flatMap, Function.comp_def]

theorem not_hasSwitch_stretches {start : String} {cut : List Char × List (List Char × List Char)}
    (h : IsSwitchCut cut) : ∀ stretch ∈ stretches start cut, ¬ HasSwitch stretch.2.toList := by
  refine List.forall_mem_cons.2 ⟨by simpa using h.lead, List.forall_mem_map.2 fun run hrun => ?_⟩
  simpa using h.texts run hrun

/-- There is one way to cut a text at its switches. The segments are the stretches between them that
are not empty; together they are the text without its switches, none of them holds a switch, and
each letter has the font that the last switch in front of it names. -/
theorem fontSegments_cut (start s : String) :
    ∃! cut : List Char × List (List Char × List Char), IsSwitchCut cut ∧
      switchSource cut = s.toList ∧
      fontSegments start s = (stretches start cut).filter (·.2 ≠ "") ∧
      (∀ segment ∈ fontSegments start s, ¬ HasSwitch segment.2.toList) ∧
      (fontSegments start s).flatMap (·.2.toList) = cut.1 ++ cut.2.flatMap (·.2) ∧
      inFonts (fontSegments start s)
        = cut.1.map (start, ·) ++ cut.2.flatMap fun run => run.2.map (String.ofList run.1, ·) := by
  obtain ⟨hcut, hsource⟩ := isSwitchCut_runs s.toList
  have hsegments := fontSegments_eq start s
  have hfonts : inFonts (fontSegments start s) = (runs s.toList).1.map (start, ·)
      ++ (runs s.toList).2.flatMap fun run => run.2.map (String.ofList run.1, ·) := by
    rw [hsegments, inFonts_filter, inFonts_stretches]
  refine ⟨runs s.toList, ⟨hcut, hsource, hsegments, fun segment hsegment => ?_, ?_, hfonts⟩, ?_⟩
  · rw [hsegments] at hsegment
    exact not_hasSwitch_stretches hcut segment (List.mem_filter.1 hsegment).1
  · rw [← map_snd_inFonts, hfonts]
    simp [List.map_flatMap, Function.comp_def]
  · rintro ⟨lead, rs⟩ ⟨hcut', hsource', -⟩
    rw [← hsource', hcut'.runs_eq]

-- the first tilde belongs to no switch, a third letter to no name, and nothing is set in the last
-- font
example : fontSegments "D" "a~~~F12b~~G" = [("D", "a~"), ("F1", "2b")] := by decide +kernel

end VippDocdef.Docdef
