import VippDocdef.Proofs.CaseRegions
import VippDocdef.Proofs.Ownership

/-! The end of a case region. A region ends at the first `ENDCASE` outside its blocks, unless a
label still waits for its block there: that label takes the next block behind the region, and the
region goes on. -/

set_option autoImplicit false

namespace VippDocdef

def Unended (inner : List Token) : Prop :=
  ∀ (before : List Token) (t : Token) (after : List Token), inner = before ++ t :: after →
    t.isWord "ENDCASE" = true → Bracket.brace.level 0 before ≠ 0

/-- The last label outside the blocks has no block of its own. -/
def AwaitsBlock (inner : List Token) : Prop :=
  ∃ (before : List Token) (l : Token) (after : List Token) (key : String),
    inner = before ++ l :: after ∧
    Bracket.brace.level 0 before = 0 ∧ l.caseLabel? = some key ∧ ∀ t ∈ after,
    t.isDelimiter "\x7b" = false

theorem Unended.behind {front inner : List Token} (h : Unended (front ++ inner))
    (hfront : Bracket.brace.level 0 front = 0) : Unended inner := by
  rintro before t after rfl ht hlevel
  refine h (front ++ before) t after (List.append_assoc front before _).symm ht ?_
  rw [Bracket.level_append, hfront, hlevel]

theorem not_opening_of_label {t : Token} {key : String} (h : t.caseLabel? = some key) :
    t.isDelimiter "\x7b" = false := by
  rw [← Bool.not_eq_true]
  intro ho
  have hstep := RegionStep.ofToken_eq_label_iff.2 h
  rw [Regions.ofToken_opening ho] at hstep
  cases hstep

namespace Regions

def Waiting (key : String) (ts : List Token) : Prop :=
  ∃ (l : Token) (after : List Token), ts = l :: after ∧ l.caseLabel? = some key ∧
    ∀ t ∈ after, t.isDelimiter "\x7b" = false

theorem not_opening_of_skip {t : Token} (h : RegionStep.ofToken t = .skip) :
    t.isDelimiter "\x7b" = false := by
  rw [← Bool.not_eq_true]
  intro ho
  rw [ofToken_opening ho] at h
  cases h

section Levels

variable {ts : List Token} {r : Regions}

theorem Piece.level_eq (h : Piece ts r) : Bracket.brace.level 0 ts = 0 := by
  cases h with
  | skip skipped =>
    exact Bracket.level_of_no_opening (List.forall_mem_singleton.2 (not_opening_of_skip skipped))
  | block opening balanced closing => exact Bracket.level_block opening balanced closing []
  | @labeled l o c key gap body label bare opening balanced closing =>
    have hl := not_opening_of_label (RegionStep.ofToken_eq_label_iff.1 label)
    have hfront : Bracket.brace.level 0 (l :: gap) = 0 :=
      Bracket.level_of_no_opening (List.forall_mem_cons.2 ⟨hl, bare⟩)
    rw [← List.cons_append, Bracket.level_append, hfront]
    exact Bracket.level_block opening balanced closing []

theorem Stretch.level_eq (h : Stretch ts r) : Bracket.brace.level 0 ts = 0 := by
  induction h with
  | nil => rfl
  | cons piece _ ih => rw [Bracket.level_append, piece.level_eq, ih]

theorem Piece.ne_nil (h : Piece ts r) : ts ≠ [] := by cases h <;> simp

end Levels

theorem endCase_of_leave {t : Token} (h : RegionStep.ofToken t = .leave) :
    t.isWord "ENDCASE" = true := by
  unfold RegionStep.ofToken at h
  split at h
  · assumption
  · split at h
    · cases h
    · split at h <;> cases h

theorem opening_of_brace {t : Token} (h : RegionStep.ofToken t = .brace) :
    t.isDelimiter "\x7b" = true := by
  unfold RegionStep.ofToken at h
  split at h
  · cases h
  · split at h
    · cases h
    · split at h
      · assumption
      · cases h

theorem exists_gap (ts : List Token) : (∀ t ∈ ts, t.isDelimiter "\x7b" = false) ∨
    ∃ (gap : List Token) (o : Token) (after : List Token), ts = gap ++ o :: after ∧
      (∀ t ∈ gap, t.isDelimiter "\x7b" = false) ∧ o.isDelimiter "\x7b" = true := by
  induction ts with
  | nil => exact .inl (List.forall_mem_nil _)
  | cons t ts ih =>
    cases ht : t.isDelimiter "\x7b" with
    | true => exact .inr ⟨[], t, ts, rfl, List.forall_mem_nil _, ht⟩
    | false =>
      rcases ih with h | ⟨gap, o, after, rfl, hgap, ho⟩
      · exact .inl (List.forall_mem_cons.2 ⟨ht, h⟩)
      · exact .inr ⟨t :: gap, o, after, rfl, List.forall_mem_cons.2 ⟨ht, hgap⟩, ho⟩

/-- What stands at the front of a region that has not ended: a piece, or a label that waits for its
block. -/
theorem exists_piece {t : Token} {ts : List Token} (hlevel : Bracket.brace.level 0 (t :: ts) = 0)
    (h : Unended (t :: ts)) :
    (∃ (first rest : List Token) (r : Regions), t :: ts = first ++ rest ∧ Piece first r) ∨
      ∃ key, Waiting key (t :: ts) := by
  cases hstep : RegionStep.ofToken t with
  | leave => exact absurd rfl (h [] t ts rfl (endCase_of_leave hstep))
  | skip => exact .inl ⟨[t], ts, {}, rfl, .skip hstep⟩
  | label key =>
    have hlabel := RegionStep.ofToken_eq_label_iff.1 hstep
    rcases exists_gap ts with hnone | ⟨gap, o, after, rfl, hgap, ho⟩
    · exact .inr ⟨key, t, ts, rfl, hlabel, hnone⟩
    · have hfront : Bracket.brace.level 0 (t :: gap) = 0 :=
        Bracket.level_of_no_opening (List.forall_mem_cons.2 ⟨not_opening_of_label hlabel, hgap⟩)
      rw [← List.cons_append, Bracket.level_append, hfront, Bracket.level_cons,
        Bracket.step_opening ho] at hlevel
      obtain ⟨body, c, rest, rfl, hbody, hc, -⟩ := Bracket.exists_block hlevel
      refine .inl ⟨t :: (gap ++ o :: (body ++ [c])), rest,
        _, by simp, .labeled hstep hgap ho hbody hc⟩
  | brace =>
    have ho := opening_of_brace hstep
    rw [Bracket.level_cons, Bracket.step_opening ho] at hlevel
    obtain ⟨body, c, rest, rfl, hbody, hc, -⟩ := Bracket.exists_block hlevel
    exact .inl ⟨t :: (body ++ [c]), rest, _, by simp, .block ho hbody hc⟩

/-- A region up to its end is a stretch, or one with a label behind it that waits for its block. -/
theorem exists_stretch {inner : List Token} (hlevel : Bracket.brace.level 0 inner = 0)
    (h : Unended inner) :
    ∃ (front back : List Token) (r : Regions), inner = front ++ back ∧ Stretch front r ∧
      (back = [] ∨ ∃ key, Waiting key back) := by
  induction hn : inner.length using Nat.strong_induction_on generalizing inner with
  | h n ih =>
    cases inner with
    | nil => exact ⟨[], [], {}, rfl, .nil, .inl rfl⟩
    | cons t ts =>
      rcases exists_piece hlevel h with ⟨first, rest, r, hsplit, hpiece⟩ | hwaiting
      · rw [hsplit] at hlevel h hn
        have hrest : Bracket.brace.level 0 rest = 0 := by
          rwa [Bracket.level_append, hpiece.level_eq] at hlevel
        have hshorter : rest.length < n := by
          have hpos := List.length_pos_iff.2 hpiece.ne_nil
          rw [List.length_append] at hn
          omega
        obtain ⟨front, back, s, rfl, hstretch, hback⟩ :=
          ih _ hshorter hrest (h.behind hpiece.level_eq) rfl
        exact ⟨first ++ front, back,
          r ++ s, by rw [hsplit, List.append_assoc], .cons hpiece hstretch, hback⟩
      · exact ⟨[], t :: ts, {}, rfl, .nil, .inr hwaiting⟩

theorem split_behind_block {body after us before : List Token} {c l : Token}
    (hbody : Bracket.brace.Balanced body) (hc : c.isDelimiter "\x7d" = true)
    (hsplit : body ++ c :: us = before ++ l :: after) (hlevel : Bracket.brace.level 1 before = 0) :
    ∃ between, us = between ++ l :: after ∧ Bracket.brace.level 0 between = 0 := by
  rcases List.append_eq_append_iff.1 hsplit with ⟨between, rfl, hbetween⟩ | ⟨_, rfl, -⟩
  · rw [Bracket.level_append, hbody.level_eq] at hlevel
    cases between with
    | nil => cases hlevel
    | cons d between =>
      obtain ⟨rfl, rfl⟩ := List.cons.inj hbetween
      rw [Bracket.level_cons, Bracket.step_closing hc] at hlevel
      exact ⟨between, rfl, hlevel⟩
  · -- inside the block more is open than in front of it
    have hwithin : Bracket.brace.Within 0 before := fun start hstart =>
      hbody.within start (hstart.trans (List.prefix_append _ _))
    have hle : 1 ≤ Bracket.brace.level 1 before := hwithin.le_level
    omega

theorem awaitsBlock_behind {front body us : List Token} {o c : Token}
    (hfront : ∀ t ∈ front, t.isDelimiter "\x7b" = false) (ho : o.isDelimiter "\x7b" = true)
    (hbody : Bracket.brace.Balanced body) (hc : c.isDelimiter "\x7d" = true)
    (h : AwaitsBlock (front ++ o :: (body ++ c :: us))) : AwaitsBlock us := by
  obtain ⟨before, l, after, key, hsplit, hlevel, hlabel, hafter⟩ := h
  have hbare : ∀ t ∈ l :: after, t.isDelimiter "\x7b" = false :=
    List.forall_mem_cons.2 ⟨not_opening_of_label hlabel, hafter⟩
  have hnot : o ∉ l :: after := fun hmem => by
    rw [hbare o hmem] at ho
    cases ho
  rcases List.append_eq_append_iff.1 hsplit with ⟨between, rfl, hbetween⟩ | ⟨bs, -, hbs⟩
  · cases between with
    | nil =>
      rw [List.nil_append] at hbetween
      exact absurd (hbetween ▸ List.mem_cons_self) hnot
    | cons d between =>
      obtain ⟨rfl, hinside⟩ := List.cons.inj hbetween
      rw [Bracket.level_append, Bracket.level_of_no_opening hfront, Bracket.level_cons,
        Bracket.step_opening ho] at hlevel
      obtain ⟨between, rfl, hlevel⟩ := split_behind_block hbody hc hinside hlevel
      exact ⟨between, l, after, key, rfl, hlevel, hlabel, hafter⟩
  · exact absurd (hbs ▸ List.mem_append_right bs List.mem_cons_self) hnot

theorem Piece.awaitsBlock {ts us : List Token} {r : Regions} (h : Piece ts r)
    (hawaits : AwaitsBlock (ts ++ us)) :
    AwaitsBlock us := by
  cases h with
  | @skip t skipped =>
    obtain ⟨before, l, after, key, hsplit, hlevel, hlabel, hafter⟩ := hawaits
    rcases List.cons_eq_append_iff.1 hsplit with ⟨rfl, hnil⟩ | ⟨between, rfl, hbetween⟩
    · obtain ⟨rfl, -⟩ := List.cons.inj hnil
      rw [RegionStep.ofToken_eq_label_iff.2 hlabel] at skipped
      cases skipped
    · have hfirst : Bracket.brace.level 0 [t] = 0 := (Piece.skip skipped).level_eq
      rw [← List.singleton_append, Bracket.level_append, hfirst] at hlevel
      exact ⟨between, l, after, key, hbetween, hlevel, hlabel, hafter⟩
  | @block o c body opening balanced closing =>
    rw [List.cons_append, List.append_assoc] at hawaits
    exact awaitsBlock_behind (List.forall_mem_nil _) opening balanced closing hawaits
  | @labeled l o c key gap body label bare opening balanced closing =>
    have hl := not_opening_of_label (RegionStep.ofToken_eq_label_iff.1 label)
    have hsplit : l :: (gap ++ o :: (body ++ [c])) ++ us = l :: gap ++ o :: (body ++ c :: us) := by
      simp
    rw [hsplit] at hawaits
    exact awaitsBlock_behind (List.forall_mem_cons.2 ⟨hl, bare⟩) opening balanced closing hawaits

theorem Stretch.not_awaitsBlock {ts : List Token} {r : Regions} (h : Stretch ts r) :
    ¬ AwaitsBlock ts := by
  induction h with
  | nil =>
    rintro ⟨before, l, after, key, hsplit, -⟩
    simp at hsplit
  | cons piece _ ih => exact fun hawaits => ih (piece.awaitsBlock hawaits)

theorem Waiting.awaitsBlock {front back : List Token} {r : Regions} {key : String}
    (h : Waiting key back) (hfront : Stretch front r) : AwaitsBlock (front ++ back) := by
  obtain ⟨l, after, rfl, hlabel, hafter⟩ := h
  exact ⟨front, l, after, key, rfl, hfront.level_eq, hlabel, hafter⟩

theorem exists_of_afterBrace? {ts rest : List Token} (h : afterBrace? ts = some rest) :
    ∃ (gap : List Token) (o : Token), ts = gap ++ o :: rest := by
  induction ts with
  | nil => cases h
  | cons t ts ih =>
    simp only [afterBrace?] at h
    split at h
    · obtain rfl := Option.some.inj h
      exact ⟨[], t, rfl⟩
    · obtain ⟨gap, o, rfl⟩ := ih h
      exact ⟨t :: gap, o, rfl⟩

structure DrawnFrom (r : Regions) (ts : List Token) : Prop where
  outside : r.outside ⊆ ts
  bodies : ∀ entry ∈ r.labeled, entry.2 ⊆ ts

theorem DrawnFrom.mono {r : Regions} {ts us : List Token} (h : r.DrawnFrom ts) (hsub : ts ⊆ us) :
    r.DrawnFrom us :=
  ⟨List.Subset.trans h.outside hsub,
    fun entry hentry => List.Subset.trans (h.bodies entry hentry) hsub⟩

theorem splitBracket_subset (opening : String) (ts : List Token) :
    (splitBracket opening ts).1 ⊆ ts ∧ (splitBracket opening ts).2 ⊆ ts :=
  List.append_subset.1 (splitBracket_sublist opening ts).subset

theorem drawnFrom_read (inside : Bool) (ts : List Token) : (read inside ts).DrawnFrom ts := by
  fun_induction read inside ts with
  | case1 => exact ⟨List.Subset.refl _, List.forall_mem_nil _⟩
  | case2 _ t rest _ _ ih =>
    exact ih.mono (List.Subset.trans (List.tail_sublist rest).subset (List.subset_cons_self t rest))
  | case3 _ t rest _ _ r ih =>
    have hrest := ih.mono (List.subset_cons_self t rest)
    exact ⟨List.cons_subset.2 ⟨List.mem_cons_self, hrest.outside⟩, hrest.bodies⟩
  | case4 _ t rest _ _ ih => exact ih.mono (List.subset_cons_self t rest)
  | case5 _ t rest _ _ ih => exact ih.mono (List.subset_cons_self t rest)
  | case6 _ t rest _ key _ body hbody _ _ split r ih =>
    obtain ⟨gap, o, rfl⟩ := exists_of_afterBrace? hbody
    have hsub : body ⊆ t :: (gap ++ o :: body) :=
      List.subset_cons_of_subset t
        (List.subset_append_of_subset_right gap (List.subset_cons_self o body))
    obtain ⟨hinside, hbehind⟩ := splitBracket_subset "\x7b" body
    have hrest := ih.mono (List.Subset.trans hbehind hsub)
    exact ⟨hrest.outside, List.forall_mem_cons.2 ⟨List.Subset.trans hinside hsub, hrest.bodies⟩⟩
  | case7 => exact ⟨List.nil_subset _, List.forall_mem_singleton.2 (List.nil_subset _)⟩
  | case8 _ t rest _ _ _ r ih =>
    have hrest :=
      ih.mono (List.Subset.trans (List.tail_sublist rest).subset (List.subset_cons_self t rest))
    exact ⟨hrest.outside, List.forall_mem_cons.2 ⟨List.nil_subset _, hrest.bodies⟩⟩
  | case9 _ t rest _ _ _ _ split r ih =>
    have hrest :=
      ih.mono (List.Subset.trans (splitBracket_subset "\x7b" rest).2 (List.subset_cons_self t rest))
    exact ⟨hrest.outside, hrest.bodies⟩

theorem outside_ofBlock (body : List Token) : (ofBlock body).outside = [] := by
  unfold ofBlock
  split <;> rfl

theorem Stretch.outside_eq {ts : List Token} {r : Regions} (h : Stretch ts r) : r.outside = [] := by
  induction h with
  | nil => rfl
  | cons piece _ ih =>
    rw [outside_append, ih, List.append_nil]
    cases piece with
    | skip _ => rfl
    | block _ _ _ => exact outside_ofBlock _
    | labeled _ _ _ _ _ => rfl

theorem outside_behindLabel (key : String) (t : Token) (ts : List Token) :
    (behindLabel key (t :: ts)).outside ⊆ ts := by
  unfold behindLabel
  split
  · next body hbody =>
    obtain ⟨gap, o, hsplit⟩ := exists_of_afterBrace? hbody
    have hbody : body ⊆ ts := by
      rcases List.cons_eq_append_iff.1 hsplit with ⟨-, hnil⟩ | ⟨gap, -, rfl⟩
      · obtain ⟨-, rfl⟩ := List.cons.inj hnil
        exact List.Subset.refl _
      · exact List.subset_append_of_subset_right gap (List.subset_cons_self o body)
    have hdrawn := drawnFrom_read true (splitBracket "\x7b" body).2
    exact List.Subset.trans hdrawn.outside
      (List.Subset.trans (splitBracket_subset "\x7b" body).2 hbody)
  · exact List.nil_subset _

theorem Waiting.read_append {key : String} {ts : List Token} (h : Waiting key ts) {e : Token}
    (he : e.isWord "ENDCASE" = true) (post : List Token) :
    read true (ts ++ e :: post) = behindLabel key post := by
  obtain ⟨l, after, rfl, hlabel, hafter⟩ := h
  have hgap : ∀ t ∈ after ++ [e], t.isDelimiter "\x7b" = false := by
    refine List.forall_mem_append.2 ⟨hafter, List.forall_mem_singleton.2 ?_⟩
    rw [← Bool.not_eq_true]
    intro ho
    have hstep := ofToken_endCase he
    rw [ofToken_opening ho] at hstep
    cases hstep
  have hsplit : after ++ e :: post = after ++ [e] ++ post := by simp
  rw [List.cons_append, read_label (RegionStep.ofToken_eq_label_iff.2 hlabel), behindLabel, hsplit,
    afterBrace?_append hgap, behindLabel]

end Regions

/-- From `CASE PREFIX` to the first `ENDCASE` outside the blocks. -/
structure CaseRegion where
  first : Token
  second : Token
  inner : List Token
  last : Token
  begins : first.isWord "CASE" = true ∧ second.isWord "PREFIX" = true
  ends : last.isWord "ENDCASE" = true
  level : Bracket.brace.level 0 inner = 0
  unended : Unended inner

namespace CaseRegion

def tokens (g : CaseRegion) : List Token := g.first :: g.second :: (g.inner ++ [g.last])

theorem tokens_append (g : CaseRegion) (post : List Token) :
    g.tokens ++ post = g.first :: g.second :: (g.inner ++ g.last :: post) := by
  simp [tokens]

theorem head_tokens_append (g : CaseRegion) (post : List Token) :
    ∀ t ∈ (g.tokens ++ post).head?, t.isWord "PREFIX" = false := by
  rintro t ⟨⟩
  exact Regions.not_prefix_of_case g.begins.1

variable (g : CaseRegion)

theorem read_ended {r : Regions} (h : Regions.Stretch g.inner r) (post : List Token) :
    Regions.read false (g.tokens ++ post) = r ++ Regions.read false post := by
  rw [tokens_append, Regions.read_opens g.begins.1 g.begins.2, h.read_append,
    Regions.read_leave (Regions.ofToken_endCase g.ends)]

theorem read_waiting {front back : List Token} {r : Regions} {key : String}
    (hinner : g.inner = front ++ back)
    (h : Regions.Stretch front r) (hwaiting : Regions.Waiting key back) (post : List Token) :
    Regions.read false (g.tokens ++ post) = r ++ Regions.behindLabel key post := by
  rw [tokens_append, Regions.read_opens g.begins.1 g.begins.2, hinner, List.append_assoc,
    h.read_append, hwaiting.read_append g.ends]

theorem stretch_of_not_awaitsBlock (h : ¬ AwaitsBlock g.inner) :
    Regions.Stretch g.inner (Regions.read true g.inner) := by
  obtain ⟨front, back, r, hinner, hstretch, rfl | ⟨key, hwaiting⟩⟩ :=
    Regions.exists_stretch g.level g.unended
  · rw [List.append_nil] at hinner
    rw [hinner, hstretch.read_eq]
    exact hstretch
  · exact absurd (hinner ▸ hwaiting.awaitsBlock hstretch) h

end CaseRegion

/-- The tokens of a document up to a place outside all regions, if every label so far has its
block. -/
inductive Settled : List Token → Prop where
  | plain {ts : List Token} (plain : Regions.Plain ts) : Settled ts
  | region {pre seg : List Token} (g : CaseRegion) (before : Settled pre)
      (served : ¬ AwaitsBlock g.inner)
      (plain : Regions.Plain seg) : Settled (pre ++ (g.tokens ++ seg))

theorem Settled.read_append {pre more : List Token} (h : Settled pre)
    (hmore : ∀ t ∈ more.head?, t.isWord "PREFIX" = false) :
    Regions.read false (pre ++ more) = Regions.ofTokens pre ++ Regions.read false more := by
  induction h generalizing more with
  | plain plain =>
    rw [Regions.read_plain plain hmore, Regions.ofTokens, Regions.read_plain_all plain]
  | @region pre seg g before served plain ih =>
    have hread (post : List Token) : Regions.read false (pre ++ (g.tokens ++ post))
        = Regions.ofTokens pre ++ (Regions.read true g.inner ++ Regions.read false post) := by
      rw [ih (g.head_tokens_append post), g.read_ended (g.stretch_of_not_awaitsBlock served)]
    rw [List.append_assoc, List.append_assoc, hread, Regions.read_plain plain hmore,
      show Regions.ofTokens (pre ++ (g.tokens ++ seg)) = _ from hread seg,
      Regions.read_plain_all plain]
    simp only [Regions.append_assoc]

theorem head_of_opensRegion {rest : List Token} (h : rest = [] ∨ opensRegion rest = true) :
    ∀ t ∈ rest.head?, t.isWord "PREFIX" = false := by
  intro t ht
  rcases h with rfl | hopens
  · cases ht
  · unfold opensRegion at hopens
    split at hopens
    · obtain rfl := Option.some.inj ht
      exact Regions.not_prefix_of_case (Bool.and_eq_true_iff.1 hopens).1
    · cases hopens

/-- What stands behind the first `ENDCASE` outside the blocks of a region, up to a further region,
comes to stand outside and in no case, unless a label waits for its block there. That label takes
the next block, as if nothing stood in between. -/
theorem region_left_iff {pre seg rest : List Token} (hpre : Settled pre) (g : CaseRegion)
    (hseg : Regions.Plain seg) (hrest : rest = [] ∨ opensRegion rest = true)
    (hnodup : (pre ++ (g.tokens ++ (seg ++ rest))).Nodup) :
    let r : Regions := Regions.ofTokens (pre ++ (g.tokens ++ (seg ++ rest)))
    (((∀ t ∈ seg, t ∈ r.outside) ∧ ∀ t ∈ seg, ∀ entry ∈ r.labeled, t ∉ entry.2)
      ↔ seg = [] ∨ ¬ AwaitsBlock g.inner) ∧
    (¬ AwaitsBlock g.inner → r = Regions.ofTokens pre ++ (Regions.read true g.inner ++
      ({ outside := seg } ++ Regions.ofTokens rest))) ∧
    (AwaitsBlock g.inner → ∃ (before : List Token) (l : Token) (after : List Token) (key : String),
      g.inner = before ++ l :: after ∧ l.caseLabel? = some key ∧
        r = Regions.ofTokens pre
          ++ (Regions.read true before ++ Regions.behindLabel key (seg ++ rest))) := by
  intro r
  have hapart : ∀ t ∈ seg, t ∉ pre ∧ t ∉ g.inner ∧ t ∉ rest := by
    intro t ht
    simp only [CaseRegion.tokens] at hnodup
    grind
  have hr : r = Regions.ofTokens pre ++ Regions.read false (g.tokens ++ (seg ++ rest)) :=
    hpre.read_append (g.head_tokens_append _)
  by_cases hawaits : AwaitsBlock g.inner
  · obtain ⟨front, back, s, hinner, hstretch, hback⟩ := Regions.exists_stretch g.level g.unended
    obtain ⟨key, hwaiting⟩ : ∃ key, Regions.Waiting key back := by
      refine hback.resolve_left ?_
      rintro rfl
      rw [List.append_nil] at hinner
      exact hstretch.not_awaitsBlock (hinner ▸ hawaits)
    rw [g.read_waiting hinner hstretch hwaiting] at hr
    refine ⟨⟨fun hleft => .inl ?_, fun hor => ?_⟩, fun hnot => absurd hawaits hnot, fun _ => ?_⟩
    · cases seg with
      | nil => rfl
      | cons t seg =>
        have hmem := hleft.1 t List.mem_cons_self
        rw [hr, Regions.outside_append, Regions.outside_append, hstretch.outside_eq,
          List.nil_append, List.mem_append] at hmem
        rcases hmem with hmem | hmem
        · exact absurd ((Regions.drawnFrom_read false pre).outside hmem)
            (hapart t List.mem_cons_self).1
        · have hbehind : t ∉ seg ++ rest := by grind
          exact absurd (Regions.outside_behindLabel key t (seg ++ rest) hmem) hbehind
    · obtain rfl := hor.resolve_right (not_not_intro hawaits)
      exact ⟨List.forall_mem_nil _, List.forall_mem_nil _⟩
    · obtain ⟨l, after, rfl, hlabel, -⟩ := hwaiting
      exact ⟨front, l, after, key, hinner, hlabel, by rw [hr, hstretch.read_eq]⟩
  · rw [g.read_ended (g.stretch_of_not_awaitsBlock hawaits),
      Regions.read_plain hseg (head_of_opensRegion hrest)] at hr
    refine ⟨⟨fun _ => .inr hawaits, fun _ => ⟨fun t ht => ?_, fun t ht entry hentry => ?_⟩⟩,
      fun _ => hr, fun h => absurd h hawaits⟩
    · rw [hr]
      simp [ht]
    · obtain ⟨hfront, hinner, hback⟩ := hapart t ht
      rw [hr] at hentry
      simp only [Regions.labeled_append, List.nil_append, List.mem_append] at hentry
      rcases hentry with hentry | hentry | hentry
      · exact fun hmem => hfront ((Regions.drawnFrom_read false pre).bodies entry hentry hmem)
      · exact fun hmem => hinner ((Regions.drawnFrom_read true g.inner).bodies entry hentry hmem)
      · exact fun hmem => hback ((Regions.drawnFrom_read false rest).bodies entry hentry hmem)

theorem nodup_significant (source : String) : (significant source).Nodup :=
  ((Lexeme.pairwise_before_ofText source).imp fun h heq => h.ne (congrArg Token.pos heq)).filter _

/-- An `ENDCASE` inside the block of the last label, and a definition between two regions. -/
theorem region_left_iff_between :
    let token (kind : TokenKind) (text : String) (offset : Nat) : Token :=
      ⟨kind, text, ⟨1, offset + 1⟩, offset⟩
    let inner : List Token :=
      [token .literal "(A)" 12, token .delimiter "\x7b" 16, token .keyword "ENDCASE" 18,
      token .delimiter "\x7d" 26]
    let seg : List Token :=
      [token .variable "/S" 36, token .delimiter "\x7b" 39, token .delimiter "\x7d" 41,
      token .keyword "XGFRESDEF" 43]
    let rest : List Token :=
      [token .keyword "CASE" 53, token .keyword "PREFIX" 58, token .literal "(B)" 65]
    let ts : List Token := token .keyword "CASE" 0 :: token .keyword "PREFIX" 5 ::
      (inner ++ token .keyword "ENDCASE" 28 :: (seg ++ rest))
    significant "CASE PREFIX (A) \x7b ENDCASE \x7d ENDCASE /S \x7b \x7d XGFRESDEF CASE PREFIX (B)"
      = ts ∧
    Bracket.brace.level 0 inner = 0 ∧ Unended inner ∧ ¬ AwaitsBlock inner ∧ Regions.Plain seg ∧
    (∀ t ∈ seg, t ∈ (Regions.ofTokens ts).outside) ∧
      ∀ t ∈ seg, ∀ entry ∈ (Regions.ofTokens ts).labeled, t ∉ entry.2 := by
  intro token inner seg rest ts
  have hts :
      significant "CASE PREFIX (A) \x7b ENDCASE \x7d ENDCASE /S \x7b \x7d XGFRESDEF CASE PREFIX (B)"
        = ts := by
    decide +kernel
  have hnodup : ts.Nodup := hts ▸ nodup_significant _
  have houtside : Bracket.brace.level 0 inner = 0 := by decide
  have hfirst : Unended inner := by
    intro before t after hsplit ht
    rcases before with _ | ⟨a, _ | ⟨b, _ | ⟨d, _ | ⟨f, before⟩⟩⟩⟩ <;>
      simp only [inner, List.nil_append, List.cons_append, List.cons.injEq] at hsplit
    · simp [← hsplit.1, token, Token.isWord] at ht
    · simp [← hsplit.2.1, token, Token.isWord] at ht
    · rw [← hsplit.1, ← hsplit.2.1]
      decide
    · simp [← hsplit.2.2.2.1, token, Token.isWord] at ht
    · simp at hsplit
  have hlabel : (token .literal "(A)" 12).caseLabel? = some "A" := by decide +kernel
  have hpiece :=
    Regions.Piece.labeled (RegionStep.ofToken_eq_label_iff.2 hlabel) (List.forall_mem_nil _)
    (by decide : (token .delimiter "\x7b" 16).isDelimiter "\x7b" = true)
    (by decide : Bracket.brace.Balanced [token .keyword "ENDCASE" 18])
    (by decide : (token .delimiter "\x7d" 26).isDelimiter "\x7d" = true)
  have hawaits : ¬ AwaitsBlock inner := (Regions.Stretch.cons hpiece .nil).not_awaitsBlock
  have hseg : Regions.Plain seg := by simp [Regions.Plain, seg, token, Token.isWord]
  let g : CaseRegion :=
    ⟨token .keyword "CASE" 0, token .keyword "PREFIX" 5, inner, token .keyword "ENDCASE" 28,
    ⟨by decide, by decide⟩, by decide, houtside, hfirst⟩
  have hpre : Settled [] := .plain .nil
  have hrest : rest = [] ∨ opensRegion rest = true := .inr (by decide)
  have hleft := (region_left_iff hpre g hseg hrest hnodup).1.2 (.inr hawaits)
  exact ⟨hts, houtside, hfirst, hawaits, hseg, hleft⟩

/-- A label without a block takes the block of a definition behind the region, and nothing comes to
stand outside. -/
theorem label_takes_block_behind :
    let token (kind : TokenKind) (text : String) (offset : Nat) : Token :=
      ⟨kind, text, ⟨1, offset + 1⟩, offset⟩
    let inner : List Token := [token .literal "(A)" 12]
    let seg : List Token :=
      [token .variable "/S" 24, token .delimiter "\x7b" 27, token .literal "(x)" 29,
      token .identifier "SH" 33, token .delimiter "\x7d" 36, token .keyword "XGFRESDEF" 38]
    let ts : List Token := token .keyword "CASE" 0 :: token .keyword "PREFIX" 5 ::
      (inner ++ token .keyword "ENDCASE" 16 :: seg)
    significant "CASE PREFIX (A) ENDCASE /S \x7b (x) SH \x7d XGFRESDEF" = ts ∧
    Bracket.brace.level 0 inner = 0 ∧ Unended inner ∧ Regions.Plain seg ∧
    Regions.ofTokens ts
      = ⟨[], [], [("A", [token .literal "(x)" 29, token .identifier "SH" 33])]⟩ := by
  intro token inner seg ts
  have hfirst : Unended inner := by
    intro before t after hsplit ht
    have ht' : t ∈ inner := hsplit ▸ List.mem_append_right before List.mem_cons_self
    rw [List.mem_singleton.1 ht'] at ht
    cases ht
  have hseg : Regions.Plain seg := by simp [Regions.Plain, seg, token, Token.isWord]
  have hlabel : (token .literal "(A)" 12).caseLabel? = some "A" := by decide +kernel
  have hwaiting : Regions.Waiting "A" inner := ⟨_, [], rfl, hlabel, List.forall_mem_nil _⟩
  let g : CaseRegion :=
    ⟨token .keyword "CASE" 0, token .keyword "PREFIX" 5, inner, token .keyword "ENDCASE" 16,
    ⟨by decide, by decide⟩, by decide, by decide, hfirst⟩
  have hread : Regions.ofTokens ts = {} ++ Regions.behindLabel "A" seg :=
    g.read_waiting rfl .nil hwaiting seg
  have hlast : Regions.read true [token .keyword "XGFRESDEF" 38] = {} := by
    rw [Regions.read_skip (by decide +kernel), Regions.read_nil]
  have hbehind : Regions.behindLabel "A" seg
      = ⟨[], [], [("A", [token .literal "(x)" 29, token .identifier "SH" 33])]⟩ ++
        Regions.read true [token .keyword "XGFRESDEF" 38] := rfl
  refine ⟨by decide +kernel, by decide, hfirst, hseg, ?_⟩
  rw [hread, hbehind, hlast]
  rfl

end VippDocdef
