import Mathlib.Data.List.Chain
import Mathlib.Data.Set.Function
import VippDocdef.Docdef.Interpolation

/-! Markers in texts. There is one way to cut a text into markers and the literals between them, and
the pieces can be read off the expressions that are made of them, whatever the literals hold. -/

set_option autoImplicit false

namespace VippDocdef.Docdef

def IsMarkerName (name : List Char) : Prop :=
  ∃ c cs, name = c :: cs ∧ isMarkerStart c = true ∧ cs.all isMarkerChar = true

def markerOf (name : List Char) : List Char := '$' :: '$' :: (name ++ ['.'])

def HasMarker (text : List Char) : Prop := ∃ name, IsMarkerName name ∧ markerOf name <:+: text

theorem isMarkerChar_of_start {c : Char} (h : isMarkerStart c = true) : isMarkerChar c = true := by
  simp only [isMarkerStart, Bool.or_eq_true] at h
  simp only [isMarkerChar, Char.isAlphanum, Bool.or_eq_true]
  exact h.imp_left .inl

theorem IsMarkerName.letters {name : List Char} (h : IsMarkerName name) :
    ∀ c ∈ name, isMarkerChar c = true := by
  obtain ⟨c, cs, rfl, hc, hcs⟩ := h
  exact List.forall_mem_cons.2 ⟨isMarkerChar_of_start hc, List.all_eq_true.1 hcs⟩

theorem IsMarkerName.takeWhile_append {name rest : List Char} (h : IsMarkerName name)
    (hrest : ∀ c ∈ rest.head?, isMarkerChar c = false) :
    (name ++ rest).takeWhile isMarkerChar = name := by
  have hnil : rest.takeWhile isMarkerChar = [] := by
    cases rest with
    | nil => rfl
    | cons c rest => simp [hrest c rfl]
  rw [List.takeWhile_append_of_pos h.letters, hnil, List.append_nil]

theorem IsMarkerName.append_inj {name name' rest rest' : List Char} (h : IsMarkerName name)
    (h' : IsMarkerName name') (hrest : ∀ c ∈ rest.head?, isMarkerChar c = false)
    (hrest' : ∀ c ∈ rest'.head?, isMarkerChar c = false) (heq : name ++ rest = name' ++ rest') :
    name = name' ∧ rest = rest' := by
  have hname : name = name' := by
    rw [← h.takeWhile_append hrest, heq, h'.takeWhile_append hrest']
  subst hname
  exact ⟨rfl, List.append_cancel_left heq⟩

theorem marker?_markerOf {name : List Char} (h : IsMarkerName name) (rest : List Char) :
    marker? (markerOf name ++ rest) = some (name, rest) := by
  obtain ⟨c, cs, rfl, hc, hcs⟩ := h
  have hletters := List.all_eq_true.1 hcs
  have hpoint : isMarkerChar '.' = false := by decide
  have htake : (cs ++ '.' :: rest).takeWhile isMarkerChar = cs := by
    rw [List.takeWhile_append_of_pos hletters, List.takeWhile_cons_of_neg (by simp [hpoint]),
      List.append_nil]
  have hdrop : (cs ++ '.' :: rest).dropWhile isMarkerChar = '.' :: rest := by
    rw [List.dropWhile_append_of_pos hletters, List.dropWhile_cons_of_neg (by simp [hpoint])]
  simp [markerOf, marker?, hc, htake, hdrop]

theorem marker?_eq_some_iff {cs name rest : List Char} :
    marker? cs = some (name, rest) ↔ IsMarkerName name ∧ cs = markerOf name ++ rest := by
  refine ⟨fun h => ?_, fun h => h.2 ▸ marker?_markerOf h.1 rest⟩
  unfold marker? at h
  split at h
  · next c ds =>
    split at h
    · next hc =>
      split at h
      · next r hdrop =>
        obtain ⟨rfl, rfl⟩ := Prod.mk.inj (Option.some.inj h)
        refine ⟨⟨c, _, rfl, hc, List.all_takeWhile⟩, ?_⟩
        have hsplit := List.takeWhile_append_dropWhile (p := isMarkerChar) (l := ds)
        rw [hdrop] at hsplit
        simp [markerOf, hsplit]
      · cases h
    · cases h
  · cases h

theorem IsMarkerName.dollar_not_mem {name : List Char} (h : IsMarkerName name) :
    '$' ∉ name ++ ['.'] := by
  intro hmem
  rcases List.mem_append.1 hmem with hname | hpoint
  · exact absurd (h.letters _ hname) (by decide)
  · exact absurd hpoint (by decide)

namespace Piece

def source : Piece → List Char
  | .literal text => text
  | .variable name => markerOf name

def Named : Piece → Prop
  | .literal _ => True
  | .variable name => IsMarkerName name

end Piece

/-- Markers, and literals between them that are not empty and hold no marker. -/
structure WellCut (ps : List Piece) : Prop where
  nonempty : ∀ text, .literal text ∈ ps → text ≠ []
  apart : ps.IsChain fun p q => p.isVariable || q.isVariable
  unmarked : ∀ text, .literal text ∈ ps → ¬ HasMarker text
  named : ∀ p ∈ ps, p.Named

namespace WellCut

variable {p : Piece} {ps : List Piece}

theorem nil : WellCut [] := ⟨by simp, .nil, by simp, by simp⟩

theorem tail (h : WellCut (p :: ps)) : WellCut ps where
  nonempty text htext := h.nonempty text (List.mem_cons_of_mem _ htext)
  apart := h.apart.tail
  unmarked text htext := h.unmarked text (List.mem_cons_of_mem _ htext)
  named q hq := h.named q (List.mem_cons_of_mem _ hq)

theorem variable_cons {name : List Char} (hname : IsMarkerName name) (h : WellCut ps) :
    WellCut (.variable name :: ps) where
  nonempty text htext := h.nonempty text ((List.mem_cons.1 htext).resolve_left (by simp))
  apart := List.isChain_cons.2 ⟨fun _ _ => rfl, h.apart⟩
  unmarked text htext := h.unmarked text ((List.mem_cons.1 htext).resolve_left (by simp))
  named := List.forall_mem_cons.2 ⟨hname, h.named⟩

theorem literal_cons {text : List Char} (hne : text ≠ []) (htext : ¬ HasMarker text)
    (hnext : ∀ q ∈ ps.head?, q.isVariable = true) (h : WellCut ps) :
    WellCut (.literal text :: ps) where
  nonempty := by
    intro text' hmem
    rcases List.mem_cons.1 hmem with heq | hmem
    · rw [Piece.literal.inj heq]
      exact hne
    · exact h.nonempty text' hmem
  apart := List.isChain_cons.2 ⟨fun q hq => by simp [hnext q hq], h.apart⟩
  unmarked := by
    intro text' hmem
    rcases List.mem_cons.1 hmem with heq | hmem
    · rw [Piece.literal.inj heq]
      exact htext
    · exact h.unmarked text' hmem
  named := List.forall_mem_cons.2 ⟨trivial, h.named⟩

theorem head_of_literal {text : List Char} (h : WellCut (.literal text :: ps)) :
    ∀ q ∈ ps.head?, q.isVariable = true := by
  intro q hq
  simpa [Piece.isVariable] using (List.isChain_cons.1 h.apart).1 q hq

end WellCut

theorem source_cons (c : Char) (ps : List Piece) :
    (Piece.cons c ps).flatMap Piece.source = c :: ps.flatMap Piece.source := by
  unfold Piece.cons
  split <;> simp [Piece.source]

theorem not_hasMarker_singleton (c : Char) : ¬ HasMarker [c] := by
  rintro ⟨name, -, hmarker⟩
  have hlength := hmarker.length_le
  simp [markerOf] at hlength

theorem not_hasMarker_cons {c : Char} {text rest : List Char} (h : ¬ HasMarker text)
    (hnone : marker? (c :: (text ++ rest)) = none) : ¬ HasMarker (c :: text) := by
  rintro ⟨name, hname, hmarker⟩
  rcases List.infix_cons_iff.1 hmarker with hstart | hmarker
  · obtain ⟨tail, htail⟩ := hstart
    have hsome := marker?_markerOf hname (tail ++ rest)
    rw [← List.append_assoc, htail, List.cons_append, hnone] at hsome
    cases hsome
  · exact h ⟨name, hname, hmarker⟩

theorem WellCut.cons {c : Char} {ps : List Piece} (h : WellCut ps)
    (hnone : marker? (c :: ps.flatMap Piece.source) = none) : WellCut (Piece.cons c ps) := by
  rcases ps with _ | ⟨_ | _, ps⟩
  · exact .literal_cons (by simp) (not_hasMarker_singleton c) (by simp) h
  · next text =>
    have htext := h.unmarked text List.mem_cons_self
    rw [List.flatMap_cons, Piece.source] at hnone
    exact .literal_cons (by simp) (not_hasMarker_cons htext hnone) h.head_of_literal h.tail
  · exact .literal_cons (by simp) (not_hasMarker_singleton c) (by simp [Piece.isVariable]) h

theorem wellCut_pieces (cs : List Char) :
    WellCut (pieces cs) ∧ (pieces cs).flatMap Piece.source = cs := by
  fun_induction pieces cs with
  | case1 => exact ⟨.nil, rfl⟩
  | case2 c cs name rest hmarker _ ih =>
    obtain ⟨hname, hsplit⟩ := marker?_eq_some_iff.1 hmarker
    exact ⟨ih.1.variable_cons hname, by rw [List.flatMap_cons, ih.2, Piece.source, hsplit]⟩
  | case3 c cs hnone ih =>
    rw [← ih.2] at hnone
    exact ⟨ih.1.cons hnone, by rw [source_cons, ih.2]⟩

theorem pieces_of_marker? {cs name rest : List Char} (h : marker? cs = some (name, rest)) :
    pieces cs = .variable name :: pieces rest := by
  cases cs with
  | nil => simp [marker?] at h
  | cons c cs =>
    rw [pieces]
    split
    · next heq =>
      rw [h] at heq
      obtain ⟨rfl, rfl⟩ := Prod.mk.inj (Option.some.inj heq)
      rfl
    · next heq => simp [h] at heq

theorem pieces_cons_of_none {c : Char} {cs : List Char} (h : marker? (c :: cs) = none) :
    pieces (c :: cs) = Piece.cons c (pieces cs) := by
  rw [pieces]
  split
  · next heq => simp [h] at heq
  · rfl

/-- A marker does not start inside another one. -/
theorem IsMarkerName.not_overlap {name text excess : List Char} (h : IsMarkerName name)
    (htext : text ≠ [])
    (hexcess : excess ≠ []) (heq : markerOf name = text ++ excess) (rest : List Char) :
    ¬ ['$', '$'] <+: excess ++ rest := by
  rintro ⟨tail, htail⟩
  obtain ⟨d, excess, rfl⟩ := List.exists_cons_of_ne_nil hexcess
  obtain ⟨rfl, hnext⟩ := List.cons.inj htail
  rcases text with _ | ⟨d, _ | ⟨d', text⟩⟩
  · exact htext rfl
  · -- the first letter of the name would be the second dollar sign
    have hname : name ++ ['.'] = excess := (List.cons.inj (List.cons.inj heq).2).2
    obtain ⟨c, cs, rfl, hc, -⟩ := h
    rw [← hname] at hnext
    obtain ⟨rfl, -⟩ := List.cons.inj hnext
    exact absurd hc (by decide)
  · have hname : name ++ ['.'] = text ++ '$' :: excess := (List.cons.inj (List.cons.inj heq).2).2
    exact h.dollar_not_mem (by simp [hname])

/-- A marker that starts in a literal does not end behind it. -/
theorem WellCut.marker?_eq_none {text : List Char} {ps : List Piece}
    (h : WellCut (.literal text :: ps)) :
    marker? (text ++ ps.flatMap Piece.source) = none := by
  rw [Option.eq_none_iff_forall_ne_some]
  rintro ⟨name, rest⟩ hsome
  obtain ⟨hname, hsplit⟩ := marker?_eq_some_iff.1 hsome
  have hunmarked : ¬ markerOf name <+: text := fun hmarker =>
    h.unmarked text List.mem_cons_self ⟨name, hname, hmarker.isInfix⟩
  rcases List.append_eq_append_iff.1 hsplit with ⟨excess, hmarker, hps⟩ | ⟨left, htext, -⟩
  · have hexcess : excess ≠ [] := by
      rintro rfl
      rw [List.append_nil] at hmarker
      exact hunmarked (hmarker ▸ List.prefix_refl _)
    -- the marker goes on in what follows the literal, which starts with a marker of its own
    rcases ps with _ | ⟨_ | name', ps⟩
    · exact hexcess (List.append_eq_nil_iff.1 hps.symm).1
    · exact absurd (h.head_of_literal _ rfl) (by simp [Piece.isVariable])
    · refine hname.not_overlap (h.nonempty text List.mem_cons_self) hexcess hmarker rest ?_
      rw [← hps]
      exact ⟨_, rfl⟩
  · exact hunmarked (htext ▸ List.prefix_append _ _)

theorem WellCut.literal_tail {c : Char} {text : List Char} {ps : List Piece}
    (h : WellCut (.literal (c :: text) :: ps)) (hne : text ≠ []) :
    WellCut (.literal text :: ps) := by
  refine .literal_cons hne ?_ h.head_of_literal h.tail
  rintro ⟨name, hname, hmarker⟩
  exact h.unmarked _ List.mem_cons_self
    ⟨name, hname, hmarker.trans (List.suffix_cons c text).isInfix⟩

theorem pieces_literal {text : List Char} {ps : List Piece} (h : WellCut (.literal text :: ps))
    (hps : pieces (ps.flatMap Piece.source) = ps) :
    pieces (text ++ ps.flatMap Piece.source) = .literal text :: ps := by
  induction text with
  | nil => exact absurd rfl (h.nonempty [] List.mem_cons_self)
  | cons c text ih =>
    have hnone : marker? (c :: (text ++ ps.flatMap Piece.source)) = none := h.marker?_eq_none
    rw [List.cons_append, pieces_cons_of_none hnone]
    cases text with
    | nil =>
      rw [List.nil_append, hps]
      rcases ps with _ | ⟨_ | _, ps⟩
      · rfl
      · exact absurd (h.head_of_literal _ rfl) (by simp [Piece.isVariable])
      · rfl
    | cons d text =>
      rw [ih (h.literal_tail (by simp))]
      rfl

theorem WellCut.pieces_source {ps : List Piece} (h : WellCut ps) :
    pieces (ps.flatMap Piece.source) = ps := by
  induction ps with
  | nil => simp [pieces]
  | cons p ps ih =>
    cases p with
    | literal text => exact pieces_literal h (ih h.tail)
    | «variable» name =>
      have hname : IsMarkerName name := h.named _ List.mem_cons_self
      rw [List.flatMap_cons, Piece.source, pieces_of_marker? (marker?_markerOf hname _), ih h.tail]

theorem pieces_eq_iff {text : List Char} {ps : List Piece} :
    pieces text = ps ↔ WellCut ps ∧ ps.flatMap Piece.source = text := by
  constructor
  · rintro rfl
    exact wellCut_pieces text
  · rintro ⟨h, rfl⟩
    exact h.pieces_source

theorem any_isVariable_pieces (text : List Char) :
    (pieces text).any Piece.isVariable = true ↔ HasMarker text := by
  obtain ⟨hcut, hsource⟩ := wellCut_pieces text
  generalize pieces text = ps at hcut hsource
  subst hsource
  constructor
  · intro hany
    obtain ⟨p, hp, hvariable⟩ := List.any_eq_true.1 hany
    cases p with
    | literal text => cases hvariable
    | «variable» name =>
      obtain ⟨before, after, rfl⟩ := List.append_of_mem hp
      refine ⟨name, hcut.named _ hp, before.flatMap Piece.source, after.flatMap Piece.source, ?_⟩
      simp [Piece.source]
  · intro hmarker
    rcases ps with _ | ⟨text | name, _ | ⟨p, ps⟩⟩
    · obtain ⟨name, -, hmarker⟩ := hmarker
      simp [markerOf] at hmarker
    · rw [List.flatMap_cons, List.flatMap_nil, List.append_nil] at hmarker
      exact absurd hmarker (hcut.unmarked text List.mem_cons_self)
    · simp [hcut.head_of_literal p rfl]
    · rfl
    · rfl

def Separated (rest : List Char) : Prop := ∀ c ∈ rest.head?, c = ' '

/-- Before a blank, a piece and the end of it can be told from its letters. -/
def Framed (write : Piece → List Char) : Prop :=
  ∀ ⦃p q : Piece⦄ ⦃x y : List Char⦄, p.Named → q.Named → Separated x → Separated y →
    write p ++ x = write q ++ y → p = q ∧ x = y

theorem Framed.join_injective {write : Piece → List Char} (h : Framed write)
    (hne : ∀ p, p.Named → write p ≠ [])
    {mark : List Char} {ps qs : List Piece} (hps : ∀ p ∈ ps, p.Named) (hqs : ∀ q ∈ qs, q.Named)
    (heq : (' ' :: mark).intercalate (ps.map write) = (' ' :: mark).intercalate (qs.map write)) :
    ps = qs := by
  -- a list of pieces is one piece, followed by nothing or by a blank and the others
  have hsplit (p : Piece) (ps : List Piece) : ∃ rest, Separated rest ∧
      (' ' :: mark).intercalate ((p :: ps).map write) = write p ++ rest ∧
      (ps = [] ∧ rest = [] ∨ ps ≠ [] ∧ rest = ' ' :: mark ++ (' ' :: mark).intercalate
        (ps.map write)) := by
    cases ps with
    | nil => exact ⟨[], by simp [Separated], by simp, .inl ⟨rfl, rfl⟩⟩
    | cons q ps => exact ⟨_, by simp [Separated], by simp, .inr ⟨by simp, rfl⟩⟩
  induction ps generalizing qs with
  | nil =>
    cases qs with
    | nil => rfl
    | cons q qs =>
      obtain ⟨rest, -, hjoin, -⟩ := hsplit q qs
      rw [hjoin] at heq
      exact absurd (List.append_eq_nil_iff.1 heq.symm).1 (hne q (hqs q List.mem_cons_self))
  | cons p ps ih =>
    obtain ⟨x, hx, hjoin, hcases⟩ := hsplit p ps
    rw [hjoin] at heq
    cases qs with
    | nil => exact absurd (List.append_eq_nil_iff.1 heq).1 (hne p (hps p List.mem_cons_self))
    | cons q qs =>
      obtain ⟨y, hy, hjoin', hcases'⟩ := hsplit q qs
      rw [hjoin'] at heq
      obtain ⟨rfl, rfl⟩ := h (hps p List.mem_cons_self) (hqs q List.mem_cons_self) hx hy heq
      rcases hcases with ⟨rfl, rfl⟩ | ⟨-, rfl⟩
      · rcases hcases' with ⟨rfl, -⟩ | ⟨-, hy⟩
        · rfl
        · cases hy
      · rcases hcases' with ⟨-, hy⟩ | ⟨-, hy⟩
        · cases hy
        · rw [ih (fun p hp => hps p (List.mem_cons_of_mem _ hp)) (fun q hq =>
            hqs q (List.mem_cons_of_mem _ hq))
            (List.append_cancel_left hy)]

theorem escape_append_inj {a b x y : List Char} (hx : Separated x) (hy : Separated y)
    (h : escape a ++ '\'' :: x = escape b ++ '\'' :: y) : a = b ∧ x = y := by
  have hnext {x : List Char} (hx : Separated x) (z : List Char) : x ≠ '\'' :: z := by
    rintro rfl
    exact absurd (hx '\'' rfl) (by decide)
  induction a generalizing b with
  | nil =>
    cases b with
    | nil => simpa [escape] using h
    | cons d b =>
      by_cases hd : d = '\''
      · simp only [escape, hd, if_true, List.nil_append, List.cons_append, List.cons.injEq,
          true_and] at h
        exact absurd h (hnext hx _)
      · simp [escape, hd, Ne.symm hd] at h
  | cons c a ih =>
    cases b with
    | nil =>
      by_cases hc : c = '\''
      · simp only [escape, hc, if_true, List.nil_append, List.cons_append, List.cons.injEq,
          true_and] at h
        exact absurd h.symm (hnext hy _)
      · simp [escape, hc] at h
    | cons d b =>
      have hhead (e : Char) (es : List Char) : ∃ more, escape (e :: es) = e :: more := by
        by_cases he : e = '\'' <;> simp [escape, he]
      obtain ⟨_, hc⟩ := hhead c a
      obtain ⟨_, hd⟩ := hhead d b
      obtain rfl : c = d := by
        rw [hc, hd] at h
        exact (List.cons.inj h).1
      have hrest : escape a ++ '\'' :: x = escape b ++ '\'' :: y := by
        by_cases hc : c = '\'' <;> simpa [escape, hc] using h
      obtain ⟨rfl, rfl⟩ := ih hrest
      exact ⟨rfl, rfl⟩

theorem quote_append_inj {a b : List Char} {x y : List Char} (hx : Separated x) (hy : Separated y)
    (h : (quote (.ofList a)).toList ++ x = (quote (.ofList b)).toList ++ y) : a = b ∧ x = y := by
  simp only [quote, String.toList_append, String.toList_ofList] at h
  exact escape_append_inj hx hy (by simpa using h)

theorem Separated.not_marker {x : List Char} (h : Separated x) :
    ∀ c ∈ x.head?, isMarkerChar c = false := by
  intro c hc
  rw [h c hc]
  decide

theorem IsMarkerName.head_ne {name : List Char} (h : IsMarkerName name) {c : Char}
    (hc : isMarkerStart c = false) (x y : List Char) : name ++ x ≠ c :: y := by
  obtain ⟨d, ds, rfl, hd, -⟩ := h
  rintro heq
  obtain ⟨rfl, -⟩ := List.cons.inj heq
  rw [hd] at hc
  cases hc

namespace Piece

def operand : Piece → String
  | .literal text => quote (.ofList text)
  | .variable name => .ofList name

def item : Piece → String
  | .literal text => quote (.ofList text)
  | .variable name => "(" ++ .ofList name ++ ")"

theorem toList_quote (text : List Char) :
    (quote (.ofList text)).toList = '\'' :: (escape text ++ ['\'']) := by simp [quote]

theorem framed_operand : Framed fun p => p.operand.toList := by
  intro p q x y hp hq hx hy h
  cases p with
  | literal a =>
    cases q with
    | literal b =>
      obtain ⟨rfl, rfl⟩ := quote_append_inj hx hy h
      exact ⟨rfl, rfl⟩
    | «variable» name =>
      simp only [operand, toList_quote, String.toList_ofList] at h
      exact absurd h.symm (IsMarkerName.head_ne hq (by decide) _ _)
  | «variable» name =>
    cases q with
    | literal b =>
      simp only [operand, toList_quote, String.toList_ofList] at h
      exact absurd h (IsMarkerName.head_ne hp (by decide) _ _)
    | «variable» name' =>
      simp only [operand, String.toList_ofList] at h
      obtain ⟨rfl, rfl⟩ := IsMarkerName.append_inj hp hq hx.not_marker hy.not_marker h
      exact ⟨rfl, rfl⟩

theorem framed_item : Framed fun p => p.item.toList := by
  have hparen (name : List Char) : (Piece.variable name).item.toList = '(' :: (name ++ [')']) := by
    simp [item]
  intro p q x y hp hq hx hy h
  cases p with
  | literal a =>
    cases q with
    | literal b =>
      obtain ⟨rfl, rfl⟩ := quote_append_inj hx hy h
      exact ⟨rfl, rfl⟩
    | «variable» name =>
      simp [item, toList_quote] at h
  | «variable» name =>
    cases q with
    | literal b =>
      simp [item, toList_quote] at h
    | «variable» name' =>
      have hend (z : List Char) : ∀ c ∈ (')' :: z).head?, isMarkerChar c = false := by
        rintro c ⟨⟩
        decide
      simp only [hparen, List.cons_append, List.append_assoc, List.nil_append, List.cons.injEq,
        true_and] at h
      obtain ⟨rfl, hrest⟩ := IsMarkerName.append_inj hp hq (hend x) (hend y) h
      exact ⟨rfl, (List.cons.inj hrest).2⟩

end Piece

theorem interpolate?_eq (s : String) : interpolate? s =
    if (pieces s.toList).any Piece.isVariable then
      some (" ! ".intercalate ((pieces s.toList).map Piece.operand))
    else none := by
  unfold interpolate?
  congr 4

theorem textItems_eq (s : String) :
    textItems s = " ".intercalate ((pieces s.toList).map Piece.item) := by
  unfold textItems
  congr 2

theorem eq_of_pieces_eq {s t : String} (h : pieces s.toList = pieces t.toList) : s = t := by
  apply String.toList_injective
  rw [← (wellCut_pieces s.toList).2, h, (wellCut_pieces t.toList).2]

theorem eq_of_join_eq (mark : String) {write : Piece → String}
    (h : Framed fun p => (write p).toList)
    (hne : ∀ p, p.Named → (write p).toList ≠ []) {s t : String}
    (heq : (" " ++ mark).intercalate ((pieces s.toList).map write)
      = (" " ++ mark).intercalate ((pieces t.toList).map write)) : s = t := by
  have hlist := congrArg String.toList heq
  simp only [String.toList_intercalate, List.map_map, String.toList_append] at hlist
  exact eq_of_pieces_eq (h.join_injective hne (wellCut_pieces s.toList).1.named
    (wellCut_pieces t.toList).1.named hlist)

/-- A text is cut in the only way that puts all of its markers, and nothing else, into variables. An
expression is made of it if it has a marker, and no other text gives the same expression; nor the
same items. -/
theorem interpolation_lossless :
    (∀ (text : List Char) (ps : List Piece),
      pieces text = ps ↔ WellCut ps ∧ ps.flatMap Piece.source = text) ∧
    (∀ s : String, (interpolate? s).isSome = true ↔ HasMarker s.toList) ∧
    Set.InjOn interpolate? {s | HasMarker s.toList} ∧
    Function.Injective textItems := by
  refine ⟨fun _ _ => pieces_eq_iff, fun s => ?_, fun s hs t ht heq => ?_, fun s t heq => ?_⟩
  · rw [interpolate?_eq, ← any_isVariable_pieces]
    split <;> simp_all
  · rw [interpolate?_eq, interpolate?_eq, if_pos ((any_isVariable_pieces _).2 hs),
      if_pos ((any_isVariable_pieces _).2 ht)] at heq
    refine eq_of_join_eq "! " Piece.framed_operand ?_ (Option.some.inj heq)
    rintro (text | name) hname
    · simp [Piece.operand, Piece.toList_quote]
    · obtain ⟨c, cs, rfl, -, -⟩ := hname
      simp [Piece.operand]
  · rw [textItems_eq, textItems_eq] at heq
    refine eq_of_join_eq "" Piece.framed_item ?_ heq
    rintro (text | name) -
    · simp [Piece.item, Piece.toList_quote]
    · simp [Piece.item]

/-- Only the second dollar sign starts a marker; a name starts with no digit and ends with a
point. -/
example : pieces "$$$A.$$1.$$B".toList
    = [.literal ['$'], .variable ['A'], .literal "$$1.$$B".toList] := by
  decide +kernel

end VippDocdef.Docdef
