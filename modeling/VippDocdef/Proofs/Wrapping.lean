import VippDocdef.Docdef.Chunk

/-! Long literals on several lines. Every letter of a literal stands on one of its lines, except
blanks where a line ends. A line that does not end in front of blanks is full, and no space in it
could have ended it. -/

set_option autoImplicit false

namespace VippDocdef.Docdef

def IsFull (line : List Char) : Prop := line.length = chunkWidth ∧ ' ' ∉ line.tail

/-- The text goes on behind the line with a space, and up to the next one the line would be too
long. -/
def EndsAtSpace (line behind : List Char) : Prop :=
  line.length < chunkWidth ∧ ∃ more, behind = ' ' :: more ∧ chunkWidth ≤ line.length + more.length ∧
    ' ' ∉ more.take (chunkWidth - 1 - line.length)

/-- A line, and the blanks that are dropped behind it. -/
structure WrappedLine where
  letters : List Char
  gap : List Char

def rejoined (ls : List WrappedLine) : List Char := ls.flatMap fun l => l.letters ++ l.gap

/-- How a line ends in front of others. -/
structure WrappedLine.Before (l : WrappedLine) (after : List WrappedLine) : Prop where
  full : l.gap = [] → after ≠ [] → IsFull l.letters
  latest : l.gap ≠ [] → IsFull l.letters ∨ EndsAtSpace l.letters (l.gap ++ rejoined after)
  starts : ∀ c ∈ (rejoined after).head?, Text.isBlank c = false

/-- Lines that are not too long, each of which ends where it has to. -/
structure Wrapped (ls : List WrappedLine) : Prop where
  fits : ∀ l ∈ ls, l.letters.length ≤ chunkWidth
  blank : ∀ l ∈ ls, ∀ c ∈ l.gap, Text.isBlank c = true
  ends : ∀ l after, l :: after <:+ ls → l.Before after

theorem forall_ne_space {cs : List Char} (h : ' ' ∉ cs) : ∀ c ∈ cs.reverse, (c != ' ') = true := by
  intro c hc
  have hne : c ≠ ' ' := fun heq => h (heq ▸ List.mem_reverse.1 hc)
  simpa using hne

theorem lastSpace?_append {after : List Char} (h : ' ' ∉ after) (before : List Char) :
    lastSpace? (before ++ ' ' :: after) = some before.length := by
  unfold lastSpace?
  rw [List.reverse_append, List.reverse_cons, List.append_assoc,
    List.dropWhile_append_of_pos (forall_ne_space h)]
  simp

theorem lastSpace?_eq_none {cs : List Char} (h : ' ' ∉ cs) : lastSpace? cs = none := by
  unfold lastSpace?
  rw [← List.append_nil cs.reverse, List.dropWhile_append_of_pos (forall_ne_space h)]
  rfl

theorem chunkWidth_pos : 0 < chunkWidth := by decide

theorem cutAt_of_isFull {line : List Char} (h : IsFull line) (behind : List Char) :
    cutAt (line ++ behind) = line.length := by
  obtain ⟨hlength, hsolid⟩ := h
  have hwindow : (line ++ behind).take chunkWidth = line := by rw [← hlength, List.take_left]
  unfold cutAt
  rw [hwindow]
  cases line with
  | nil => exact absurd hlength (Nat.ne_of_lt chunkWidth_pos)
  | cons c line =>
    by_cases hc : c = ' '
    · have hlast : lastSpace? (c :: line) = some 0 := by
        rw [hc]
        exact lastSpace?_append hsolid []
      rw [hlast, hlength]
    · have hnone : ' ' ∉ c :: line := by
        rw [List.mem_cons, not_or]
        exact ⟨fun heq => hc heq.symm, hsolid⟩
      rw [lastSpace?_eq_none hnone, hlength]

theorem cutAt_of_endsAtSpace {line behind : List Char} (hne : line ≠ [])
    (h : EndsAtSpace line behind) :
    cutAt (line ++ behind) = line.length := by
  obtain ⟨hlength, more, rfl, -, hmore⟩ := h
  have hwindow : (line ++ ' ' :: more).take chunkWidth
      = line ++ ' ' :: more.take (chunkWidth - 1 - line.length) := by
    rw [List.take_append, List.take_of_length_le (by omega),
      show chunkWidth - line.length
        = chunkWidth - 1 - line.length + 1 by omega, List.take_succ_cons]
  unfold cutAt
  rw [hwindow, lastSpace?_append hmore]
  cases line with
  | nil => exact absurd rfl hne
  | cons c line => rfl

theorem cutAt_append {line behind : List Char} (hne : line ≠ [])
    (h : IsFull line ∨ EndsAtSpace line behind) : cutAt (line ++ behind) = line.length := by
  rcases h with hfull | hspace
  · exact cutAt_of_isFull hfull behind
  · exact cutAt_of_endsAtSpace hne hspace

theorem length_append_of_cut {line behind : List Char} (hne : behind ≠ [])
    (h : IsFull line ∨ EndsAtSpace line behind) : chunkWidth < (line ++ behind).length := by
  have hpos := List.length_pos_iff.2 hne
  rw [List.length_append]
  rcases h with ⟨hlength, -⟩ | ⟨-, more, rfl, hlong, -⟩
  · omega
  · rw [List.length_cons]
    omega

theorem length_le_of_cut {line behind : List Char} (h : IsFull line ∨ EndsAtSpace line behind) :
    line.length ≤ chunkWidth := by
  rcases h with hfull | hspace
  · exact Nat.le_of_eq hfull.1
  · exact Nat.le_of_lt hspace.1

theorem exists_cut {cs : List Char} (h : chunkWidth < cs.length) :
    ∃ line behind, cs = line ++ behind ∧ line ≠ [] ∧ (IsFull line ∨ EndsAtSpace line behind) := by
  have hpos := chunkWidth_pos
  cases cs with
  | nil => cases h
  | cons c ds =>
    rw [List.length_cons] at h
    have hwidth : (ds.take (chunkWidth - 1)).length = chunkWidth - 1 :=
      List.length_take_of_le (by omega)
    have hsplit := List.take_append_drop (chunkWidth - 1) ds
    generalize ds.take (chunkWidth - 1) = window, ds.drop (chunkWidth - 1) = rest at hwidth hsplit
    subst hsplit
    by_cases hspace : ' ' ∈ window
    · -- the last space is the first one from the end
      obtain ⟨back, front, hback, hnot⟩ := List.eq_append_cons_of_mem (List.mem_reverse.2 hspace)
      obtain rfl : window = front.reverse ++ ' ' :: back.reverse := by
        simpa using congrArg List.reverse hback
      simp only [List.length_append, List.length_cons, List.length_reverse] at hwidth h
      refine ⟨c :: front.reverse,
        ' ' :: (back.reverse ++ rest), by simp, List.cons_ne_nil _ _, .inr ?_⟩
      refine ⟨?_, back.reverse ++ rest, rfl, ?_, ?_⟩
      · rw [List.length_cons, List.length_reverse]
        omega
      · simp only [List.length_append, List.length_cons, List.length_reverse]
        omega
      · rw [List.length_cons, List.length_reverse, show chunkWidth - 1 - (front.length + 1)
          = back.length by omega,
          ← List.length_reverse, List.take_left, List.mem_reverse]
        exact hnot
    · refine ⟨c :: window, rest, rfl, List.cons_ne_nil _ _, .inl ⟨?_, hspace⟩⟩
      rw [List.length_cons]
      omega

theorem chunkLines_of_fits {cs : List Char} (hne : cs ≠ []) (h : cs.length ≤ chunkWidth) :
    chunkLines cs = [cs] := by
  rw [chunkLines, dif_neg (by omega), if_neg (by simpa using hne)]

theorem chunkLines_append {line gap rest : List Char} (hne : line ≠ []) (hbehind : gap ++ rest ≠ [])
    (hcut : IsFull line ∨ EndsAtSpace line (gap ++ rest)) (hgap : ∀ c ∈ gap, Text.isBlank c = true)
    (hrest : ∀ c ∈ rest.head?, Text.isBlank c = false) :
    chunkLines (line ++ (gap ++ rest)) = line :: chunkLines rest := by
  have hdrop : (gap ++ rest).dropWhile Text.isBlank = rest := by
    rw [List.dropWhile_append_of_pos hgap]
    cases rest with
    | nil => rfl
    | cons c rest => rw [List.dropWhile_cons_of_neg (by simp [hrest c rfl])]
  rw [chunkLines, dif_pos (length_append_of_cut hbehind hcut), cutAt_append hne hcut,
    List.take_left, List.drop_left, hdrop]

namespace Wrapped

variable {l : WrappedLine} {after : List WrappedLine}

theorem nil : Wrapped [] := ⟨List.forall_mem_nil _, List.forall_mem_nil _, by simp⟩

theorem tail (h : Wrapped (l :: after)) : Wrapped after where
  fits x hx := h.fits x (List.mem_cons_of_mem _ hx)
  blank x hx := h.blank x (List.mem_cons_of_mem _ hx)
  ends x others hx := h.ends x others (hx.trans (List.suffix_cons l after))

theorem cons (hfits : l.letters.length ≤ chunkWidth) (hblank : ∀ c ∈ l.gap, Text.isBlank c = true)
    (hbefore : l.Before after) (hafter : Wrapped after) : Wrapped (l :: after) where
  fits := List.forall_mem_cons.2 ⟨hfits, hafter.fits⟩
  blank := List.forall_mem_cons.2 ⟨hblank, hafter.blank⟩
  ends x others hx := by
    rcases List.suffix_cons_iff.1 hx with heq | hx
    · obtain ⟨rfl, rfl⟩ := List.cons.inj heq
      exact hbefore
    · exact hafter.ends x others hx

end Wrapped

theorem rejoined_cons (l : WrappedLine) (after : List WrappedLine) :
    rejoined (l :: after) = l.letters ++ (l.gap ++ rejoined after) := by
  simp [rejoined]

theorem rejoined_eq_nil_iff {ls : List WrappedLine} (hne : ∀ l ∈ ls, l.letters ≠ []) :
    rejoined ls = [] ↔ ls = [] := by
  cases ls with
  | nil => simp [rejoined]
  | cons l after => simp [rejoined_cons, hne l List.mem_cons_self]

/-- There is one way to wrap a text. -/
theorem Wrapped.chunkLines_rejoined {ls : List WrappedLine} (h : Wrapped ls)
    (hne : ∀ l ∈ ls, l.letters ≠ []) : chunkLines (rejoined ls) = ls.map (·.letters) := by
  induction ls with
  | nil =>
    rw [rejoined, List.flatMap_nil, chunkLines]
    rfl
  | cons l after ih =>
    obtain ⟨hl, hafter⟩ := List.forall_mem_cons.1 hne
    have hbefore := h.ends l after List.suffix_rfl
    have hrest := ih h.tail hafter
    rw [rejoined_cons, List.map_cons, ← hrest]
    by_cases hlast : l.gap ++ rejoined after = []
    · obtain ⟨-, hnil⟩ := List.append_eq_nil_iff.1 hlast
      rw [hlast, List.append_nil, chunkLines_of_fits hl (h.fits l List.mem_cons_self), hrest,
        (rejoined_eq_nil_iff hafter).1 hnil]
      rfl
    · refine chunkLines_append hl hlast ?_ (h.blank l List.mem_cons_self) hbefore.starts
      by_cases hgap : l.gap = []
      · refine .inl (hbefore.full hgap ?_)
        rintro rfl
        exact hlast (by rw [hgap]; rfl)
      · exact hbefore.latest hgap

theorem exists_wrapped (cs : List Char) :
    ∃ ls, rejoined ls = cs ∧ Wrapped ls ∧ ∀ l ∈ ls, l.letters ≠ [] := by
  induction hn : cs.length using Nat.strongRecOn generalizing cs with
  | ind n ih =>
    by_cases hnil : cs = []
    · exact ⟨[], hnil.symm, .nil, List.forall_mem_nil _⟩
    by_cases hlong : chunkWidth < cs.length
    · obtain ⟨line, behind, rfl, hline, hcut⟩ := exists_cut hlong
      have hsplit := List.takeWhile_append_dropWhile (p := Text.isBlank) (l := behind)
      have hstarts : ∀ c ∈ (behind.dropWhile Text.isBlank).head?, Text.isBlank c = false := by
        intro c hc
        have hnot := List.head?_dropWhile_not Text.isBlank behind
        rw [hc] at hnot
        simpa using hnot
      have hshort : (behind.dropWhile Text.isBlank).length < n := by
        have hle := (List.dropWhile_suffix (l := behind) Text.isBlank).length_le
        have hpos := List.length_pos_iff.2 hline
        rw [← hn, List.length_append]
        omega
      obtain ⟨ls, hls, hwrapped, hne⟩ := ih _ hshort _ rfl
      refine ⟨⟨line, behind.takeWhile Text.isBlank⟩ :: ls, ?_, ?_,
        List.forall_mem_cons.2 ⟨hline, hne⟩⟩
      · rw [rejoined_cons, hls, hsplit]
      · refine .cons (length_le_of_cut hcut) (List.all_eq_true.1 List.all_takeWhile)
          ⟨?_, ?_, hls ▸ hstarts⟩ hwrapped
        · intro hgap hafter
          refine hcut.resolve_right fun hspace => ?_
          obtain ⟨-, more, rfl, -⟩ := hspace
          simp [Text.isBlank_space] at hgap
        · intro _
          rw [hls, hsplit]
          exact hcut
    · refine ⟨[⟨cs, []⟩], by simp [rejoined], ?_, by simpa using hnil⟩
      exact .cons (by simpa using hlong) (List.forall_mem_nil _)
        ⟨by simp, by simp, by simp [rejoined]⟩ .nil

theorem Wrapped.eq_of_rejoined_eq_nil {ls : List WrappedLine} (h : Wrapped ls) (hne : ls ≠ [])
    (hnil : rejoined ls = []) : ls = [⟨[], []⟩] := by
  obtain ⟨⟨letters, gap⟩, after, rfl⟩ := List.exists_cons_of_ne_nil hne
  obtain ⟨rfl, hbehind⟩ := List.append_eq_nil_iff.1 ((rejoined_cons _ _).symm.trans hnil)
  obtain ⟨rfl, -⟩ := List.append_eq_nil_iff.1 hbehind
  cases after with
  | nil => rfl
  | cons next others =>
    have hfull := (h.ends _ _ List.suffix_rfl).full rfl (List.cons_ne_nil _ _)
    exact absurd hfull.1 (Nat.ne_of_lt chunkWidth_pos)

/-- The lines of a literal are the only way to wrap it: none is too long or, if there is a text,
empty; the text is made up of the lines and of blanks behind them; and a line without blanks behind
it is full, unless it is the last. -/
theorem chunks_eq_iff_wrapped (s : String) (lines : List String) :
    chunks s = lines ↔ ∃ ls, ls ≠ [] ∧ lines = ls.map (fun l => .ofList l.letters) ∧
      rejoined ls = s.toList ∧ (∀ l ∈ ls, l.letters = [] → s = "") ∧ Wrapped ls := by
  unfold chunks
  split
  · next hs =>
    subst hs
    constructor
    · rintro rfl
      refine ⟨[⟨[], []⟩], List.cons_ne_nil _ _, rfl, rfl, fun _ _ _ => rfl, ?_⟩
      exact .cons (Nat.zero_le _) (List.forall_mem_nil _)
        ⟨by simp, by simp, by simp [rejoined]⟩ .nil
    · rintro ⟨ls, hne, rfl, hcovers, -, hwrapped⟩
      rw [hwrapped.eq_of_rejoined_eq_nil hne hcovers]
      rfl
  · next hs =>
    constructor
    · rintro rfl
      obtain ⟨ls, hcovers, hwrapped, hfilled⟩ := exists_wrapped s.toList
      refine ⟨ls, ?_, ?_, hcovers, fun l hl hnil => absurd hnil (hfilled l hl), hwrapped⟩
      · rintro rfl
        exact hs (String.toList_eq_nil_iff.1 hcovers.symm)
      · rw [← hcovers, hwrapped.chunkLines_rejoined hfilled, List.map_map]
        rfl
    · rintro ⟨ls, -, rfl, hcovers, hfilled, hwrapped⟩
      have hne : ∀ l ∈ ls, l.letters ≠ [] := fun l hl hnil => hs (hfilled l hl hnil)
      rw [← hcovers, hwrapped.chunkLines_rejoined hne, List.map_map]
      rfl

end VippDocdef.Docdef
