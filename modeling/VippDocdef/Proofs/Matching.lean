import VippDocdef.Pattern.Reader

/-! What patterns match. The stretches of text that belong to a pattern are given by rules, one for
each way of building it, and the search for a match finds a stretch exactly if there is one. -/

set_option autoImplicit false

namespace VippDocdef.Pattern

/-- `p.Spans before cs after`: between the characters `before` and `after`, the stretch `cs` belongs
to the pattern. -/
inductive Spans : Pattern → Option Char → List Char → Option Char → Prop where
  | empty (before after : Option Char) : Spans .empty before [] after
  | char {s : CharSet} {c : Char} (mem : s.mem c = true) (before after : Option Char) :
      Spans (.char s) before [c] after
  | anchor {a : Anchor} {before after : Option Char} (holds : a.holds before after = true) :
      Spans (.anchor a) before [] after
  | seq {p q : Pattern} {before after : Option Char} {cs ds : List Char}
      (first : Spans p before cs (ds.head?.or after))
        (second : Spans q (cs.getLast?.or before) ds after) :
      Spans (.seq p q) before (cs ++ ds) after
  | left {p q : Pattern} {before after : Option Char} {cs : List Char}
      (first : Spans p before cs after) :
      Spans (.alt p q) before cs after
  | right {p q : Pattern} {before after : Option Char} {cs : List Char}
      (second : Spans q before cs after) :
      Spans (.alt p q) before cs after
  | none (p : Pattern) (before after : Option Char) : Spans (.star p) before [] after
  | more {p : Pattern} {before after : Option Char} {cs ds : List Char}
      (first : Spans p before cs (ds.head?.or after))
      (others : Spans (.star p) (cs.getLast?.or before) ds after) :
      Spans (.star p) before (cs ++ ds) after

theorem getLast?_cons_or (c : Char) (cs : List Char) (before : Option Char) :
    (c :: cs).getLast?.or before = cs.getLast?.or (some c) := by
  cases cs with
  | nil => rfl
  | cons d ds =>
    rw [List.getLast?_cons_cons]
    cases h : (d :: ds).getLast? with
    | none => simp at h
    | some x => rfl

theorem Spans.seq_nil {p q : Pattern} {before after : Option Char} {cs : List Char}
    (first : p.Spans before [] (cs.head?.or after)) (second : q.Spans before cs after) :
    (Pattern.seq p q).Spans before cs after :=
  @Spans.seq p q before after [] cs first second

theorem nullable_iff {p : Pattern} {before after : Option Char} :
    p.nullable before after = true ↔ p.Spans before [] after := by
  induction p with
  | empty => exact iff_of_true rfl (.empty before after)
  | char s => exact iff_of_false (by simp [nullable]) fun h => by cases h
  | anchor a =>
    refine ⟨.anchor, fun h => ?_⟩
    cases h with
    | anchor holds => exact holds
  | seq p q hp hq =>
    simp only [nullable, Bool.and_eq_true, hp, hq]
    constructor
    · rintro ⟨hp, hq⟩
      exact .seq_nil hp hq
    · intro h
      generalize hnil : [] = cs at h
      cases h with
      | seq first second =>
        obtain ⟨rfl, rfl⟩ := List.append_eq_nil_iff.1 hnil.symm
        exact ⟨first, second⟩
  | alt p q hp hq =>
    simp only [nullable, Bool.or_eq_true, hp, hq]
    refine ⟨fun h => h.elim .left .right, fun h => ?_⟩
    cases h with
    | left first => exact .inl first
    | right second => exact .inr second
  | star p => exact iff_of_true rfl (.none p before after)

theorem spans_followedBy {p q : Pattern} {before after : Option Char} {cs : List Char} :
    (p.followedBy q).Spans before cs after ↔ (Pattern.seq p q).Spans before cs after := by
  unfold followedBy
  split
  · constructor
    · intro h
      exact .seq_nil (.empty _ _) h
    · intro h
      cases h with
      | seq first second =>
        cases first with
        | empty => exact second
  · rfl

theorem exists_rests_followedBy {p q : Pattern} {before after : Option Char} {c : Char}
    {cs : List Char}
    (hp : ∀ {after : Option Char} {cs : List Char},
      p.Spans before (c :: cs) after ↔ ∃ r ∈ p.rests before c, r.Spans (some c) cs after) :
    (∃ r ∈ (p.rests before c).map (·.followedBy q), r.Spans (some c) cs after) ↔
      ∃ ds fs, ds ++ fs = cs ∧ p.Spans before (c :: ds) (fs.head?.or after) ∧
        q.Spans ((c :: ds).getLast?.or before) fs after := by
  simp only [getLast?_cons_or, hp]
  constructor
  · rintro ⟨r, hr, hspans⟩
    obtain ⟨p', hp', rfl⟩ := List.mem_map.1 hr
    cases spans_followedBy.1 hspans with
    | @seq _ _ _ _ ds fs first second => exact ⟨ds, fs, rfl, ⟨p', hp', first⟩, second⟩
  · rintro ⟨ds, fs, rfl, ⟨r, hr, hspans⟩, second⟩
    exact ⟨_, List.mem_map_of_mem hr, spans_followedBy.2 (.seq hspans second)⟩

/-- A stretch that starts with `c` goes on with one of the rests behind it. -/
theorem spans_cons_iff {p : Pattern} {before after : Option Char} {c : Char} {cs : List Char} :
    p.Spans before (c :: cs) after ↔ ∃ r ∈ p.rests before c, r.Spans (some c) cs after := by
  induction p generalizing before after cs with
  | empty => exact iff_of_false (fun h => by cases h) (by simp [rests])
  | char s =>
    constructor
    · intro h
      cases h with
      | char mem => exact ⟨.empty, by simp [rests, mem], .empty _ _⟩
    · rintro ⟨r, hr, hspans⟩
      by_cases hmem : s.mem c = true
      · obtain rfl : r = .empty := by simpa [rests, hmem] using hr
        cases hspans with
        | empty => exact .char hmem _ _
      · simp [rests, hmem] at hr
  | anchor a => exact iff_of_false (fun h => by cases h) (by simp [rests])
  | seq p q hp hq =>
    simp only [rests, List.mem_append, or_and_right, exists_or, exists_rests_followedBy hp]
    constructor
    · intro h
      generalize hcs : c :: cs = es at h
      cases h with
      | @seq _ _ _ _ ds fs first second =>
        cases ds with
        | nil =>
          obtain rfl : c :: cs = fs := hcs
          have hnull : p.nullable before (some c) = true := nullable_iff.2 first
          obtain ⟨r, hr, hspans⟩ := hq.1 second
          exact .inr ⟨r, by rwa [if_pos hnull], hspans⟩
        | cons d ds =>
          obtain ⟨rfl, rfl⟩ := List.cons.inj hcs
          exact .inl ⟨ds, fs, rfl, first, second⟩
    · rintro (⟨ds, fs, rfl, first, second⟩ | ⟨r, hr, hspans⟩)
      · exact .seq first second
      · split at hr
        · next hnull => exact .seq_nil (nullable_iff.1 hnull) (hq.2 ⟨r, hr, hspans⟩)
        · cases hr
  | alt p q hp hq =>
    simp only [rests, List.mem_append, or_and_right, exists_or, ← hp, ← hq]
    refine ⟨fun h => ?_, fun h => h.elim .left .right⟩
    cases h with
    | left first => exact .inl first
    | right second => exact .inr second
  | star p hp =>
    rw [rests, exists_rests_followedBy hp]
    constructor
    · intro h
      generalize hcs : c :: cs = es at h
      generalize hstar : Pattern.star p = q at h
      -- Rounds that span nothing are passed over; the first other one starts with the character.
      induction h with
      | @more q before after ds fs first others _ ih =>
        obtain rfl := Pattern.star.inj hstar
        cases ds with
        | nil => exact ih hcs rfl
        | cons d ds =>
          obtain ⟨rfl, rfl⟩ := List.cons.inj hcs
          exact ⟨ds, fs, rfl, first, others⟩
      | none => cases hcs
      | _ => cases hstar
    · rintro ⟨ds, fs, rfl, first, others⟩
      exact .more first others

def Begins (p : Pattern) (before : Option Char) (cs : List Char) : Prop :=
  ∃ ds fs, cs = ds ++ fs ∧ p.Spans before ds fs.head?

theorem begins_nil {p : Pattern} {before : Option Char} :
    p.Begins before [] ↔ p.nullable before none = true := by
  rw [nullable_iff]
  constructor
  · rintro ⟨ds, fs, hnil, hspans⟩
    obtain ⟨rfl, rfl⟩ := List.append_eq_nil_iff.1 hnil.symm
    exact hspans
  · exact fun h => ⟨[], [], rfl, h⟩

theorem begins_cons {p : Pattern} {before : Option Char} {c : Char} {cs : List Char} :
    p.Begins before (c :: cs) ↔
      p.nullable before (some c) = true ∨ ∃ r ∈ p.rests before c, r.Begins (some c) cs := by
  rw [nullable_iff]
  constructor
  · rintro ⟨ds, fs, hcs, hspans⟩
    cases ds with
    | nil =>
      obtain rfl : c :: cs = fs := hcs
      exact .inl hspans
    | cons d ds =>
      obtain ⟨rfl, rfl⟩ := List.cons.inj hcs
      obtain ⟨r, hr, hrest⟩ := spans_cons_iff.1 hspans
      exact .inr ⟨r, hr, ds, fs, rfl, hrest⟩
  · rintro (h | ⟨r, hr, ds, fs, rfl, hrest⟩)
    · exact ⟨[], c :: cs, rfl, h⟩
    · exact ⟨c :: ds, fs, rfl, spans_cons_iff.2 ⟨r, hr, hrest⟩⟩

def Occurs (p : Pattern) (before : Option Char) (cs : List Char) : Prop :=
  ∃ front rest, cs = front ++ rest ∧ p.Begins (front.getLast?.or before) rest

theorem occurs_nil {p : Pattern} {before : Option Char} :
    p.Occurs before [] ↔ p.Begins before [] := by
  constructor
  · rintro ⟨front, rest, hnil, hbegins⟩
    obtain ⟨rfl, rfl⟩ := List.append_eq_nil_iff.1 hnil.symm
    exact hbegins
  · exact fun h => ⟨[], [], rfl, h⟩

theorem occurs_cons {p : Pattern} {before : Option Char} {c : Char} {cs : List Char} :
    p.Occurs before (c :: cs) ↔ p.Begins before (c :: cs) ∨ p.Occurs (some c) cs := by
  constructor
  · rintro ⟨front, rest, hcs, hbegins⟩
    cases front with
    | nil =>
      obtain rfl : c :: cs = rest := hcs
      exact .inl hbegins
    | cons d front =>
      obtain ⟨rfl, rfl⟩ := List.cons.inj hcs
      rw [getLast?_cons_or] at hbegins
      exact .inr ⟨front, rest, rfl, hbegins⟩
  · rintro (h | ⟨front, rest, rfl, hbegins⟩)
    · exact ⟨[], c :: cs, rfl, h⟩
    · exact ⟨c :: front, rest, rfl, by rwa [getLast?_cons_or]⟩

theorem matchFrom_iff {p : Pattern} {before : Option Char} {live : List Pattern} {cs : List Char} :
    matchFrom p before live cs = true ↔ p.Occurs before cs ∨ ∃ r ∈ live, r.Begins before cs := by
  induction cs generalizing before live with
  | nil => simp [matchFrom, occurs_nil, begins_nil]
  | cons c cs ih =>
    have hrests : (∃ r ∈ ((p :: live).flatMap (·.rests before c)).eraseDups, r.Begins (some c) cs) ↔
        (∃ r ∈ p.rests before c, r.Begins (some c) cs) ∨
          ∃ q ∈ live, ∃ r ∈ q.rests before c, r.Begins (some c) cs := by
      simp only [List.mem_eraseDups, List.mem_flatMap, List.mem_cons]
      grind
    simp only [matchFrom, Bool.or_eq_true, ih, hrests, occurs_cons, begins_cons, List.any_cons,
      List.any_eq_true, and_or_left, exists_or]
    grind

/-- There is a match exactly if a stretch of the text belongs to the pattern. -/
theorem isMatch_iff {p : Pattern} {text : String} :
    p.isMatch text = true ↔
      ∃ front cs back, text.toList = front ++ (cs ++ back) ∧
      p.Spans front.getLast? cs back.head? := by
  simp only [isMatch, matchFrom_iff, Occurs, Begins, Option.or_none, List.not_mem_nil, false_and,
    exists_false, or_false]
  constructor
  · rintro ⟨front, _, htext, cs, back, rfl, hspans⟩
    exact ⟨front, cs, back, htext, hspans⟩
  · rintro ⟨front, cs, back, htext, hspans⟩
    exact ⟨front, _, htext, cs, back, rfl, hspans⟩

/-- Whatever stands around it, a stretch belongs to the pattern exactly if it is like this. -/
def Spells (p : Pattern) (like : List Char → Prop) : Prop :=
  ∀ before cs after, p.Spans before cs after ↔ like cs

theorem Spells.isMatch_iff {p : Pattern} {like : List Char → Prop} (h : p.Spells like)
    {text : String} :
    p.isMatch text = true ↔ ∃ cs, like cs ∧ cs <:+: text.toList := by
  simp only [Pattern.isMatch_iff, h _ _ _]
  constructor
  · rintro ⟨front, cs, back, htext, hlike⟩
    exact ⟨cs, hlike, front, back, by simp [htext]⟩
  · rintro ⟨cs, hlike, front, back, htext⟩
    exact ⟨front, cs, back, by simp [← htext], hlike⟩

theorem spells_char (s : CharSet) :
    (Pattern.char s).Spells fun cs => ∃ c, s.mem c = true ∧ cs = [c] := by
  intro before cs after
  constructor
  · intro h
    cases h with
    | char mem => exact ⟨_, mem, rfl⟩
  · rintro ⟨c, mem, rfl⟩
    exact .char mem _ _

theorem Spells.alt {p q : Pattern} {like like' : List Char → Prop} (hp : p.Spells like)
    (hq : q.Spells like') : (Pattern.alt p q).Spells fun cs => like cs ∨ like' cs := by
  intro before cs after
  constructor
  · intro h
    cases h with
    | left first => exact .inl ((hp _ _ _).1 first)
    | right second => exact .inr ((hq _ _ _).1 second)
  · exact fun h => h.elim (fun h => .left ((hp _ _ _).2 h)) fun h => .right ((hq _ _ _).2 h)

theorem spells_star (s : CharSet) :
    (Pattern.star (.char s)).Spells fun cs => ∀ c ∈ cs, s.mem c = true := by
  intro before cs after
  constructor
  · intro h
    generalize hstar : Pattern.star (.char s) = q at h
    induction h with
    | more first others _ ih =>
      obtain rfl := Pattern.star.inj hstar
      cases first with
      | char mem => exact List.forall_mem_cons.2 ⟨mem, ih rfl⟩
    | none => exact List.forall_mem_nil _
    | _ => cases hstar
  · intro h
    induction cs generalizing before with
    | nil => exact .none _ _ _
    | cons c cs ih =>
      obtain ⟨hc, hcs⟩ := List.forall_mem_cons.1 h
      rw [← List.singleton_append]
      exact .more (.char hc _ _) (ih _ hcs)

theorem mem_single {c d : Char} : (CharSet.single c).mem d = true ↔ d = c := by
  simp only [CharSet.single, CharSet.mem, Text.inRanges, List.any_cons, List.any_nil, Bool.or_false,
    Bool.and_eq_true, decide_eq_true_eq]
  rw [← Char.toNat_inj]
  omega

def Joined (like like' : List Char → Prop) (cs : List Char) : Prop :=
  ∃ ds fs, cs = ds ++ fs ∧ like ds ∧ like' fs

theorem joined_assoc {like like' like'' : List Char → Prop} {cs : List Char} :
    Joined (Joined like like') like'' cs ↔ Joined like (Joined like' like'') cs := by
  constructor
  · rintro ⟨_, gs, rfl, ⟨ds, fs, rfl, hds, hfs⟩, hgs⟩
    exact ⟨ds, fs ++ gs, by simp, hds, fs, gs, rfl, hfs, hgs⟩
  · rintro ⟨ds, _, rfl, hds, fs, gs, rfl, hfs, hgs⟩
    exact ⟨ds ++ fs, gs, by simp, ⟨ds, fs, rfl, hds, hfs⟩, hgs⟩

theorem joined_nil {like : List Char → Prop} {cs : List Char} :
    Joined (· = []) like cs ↔ like cs := by
  constructor
  · rintro ⟨_, fs, rfl, rfl, h⟩
    exact h
  · exact fun h => ⟨[], cs, rfl, rfl, h⟩

theorem Spells.followedBy {p q : Pattern} {like like' : List Char → Prop} (hp : p.Spells like)
    (hq : q.Spells like') : (p.followedBy q).Spells (Joined like like') := by
  intro before cs after
  rw [spans_followedBy]
  constructor
  · intro h
    cases h with
    | seq first second => exact ⟨_, _, rfl, (hp _ _ _).1 first, (hq _ _ _).1 second⟩
  · rintro ⟨ds, fs, rfl, hds, hfs⟩
    exact .seq ((hp _ _ _).2 hds) ((hq _ _ _).2 hfs)

def row (items : List Pattern) : Pattern := items.foldl followedBy .empty

/-- Behind any pattern, the items in a row add a stretch like this. -/
def RowSpells (items : List Pattern) (like : List Char → Prop) : Prop :=
  ∀ (p : Pattern) (like' : List Char → Prop), p.Spells like' →
    (items.foldl Pattern.followedBy p).Spells (Joined like' like)

theorem RowSpells.spells {items : List Pattern} {like : List Char → Prop}
    (h : RowSpells items like) :
    (row items).Spells like := by
  have hempty : Pattern.empty.Spells (· = []) := by
    intro before cs after
    constructor
    · intro h
      cases h
      rfl
    · rintro rfl
      exact .empty _ _
  intro before cs after
  rw [row, h _ _ hempty before cs after, joined_nil]

theorem Spells.row {q : Pattern} {like : List Char → Prop} (h : q.Spells like) :
    RowSpells [q] like :=
  fun _ _ hp => hp.followedBy h

theorem RowSpells.congr {items : List Pattern} {like like' : List Char → Prop}
    (h : RowSpells items like) (hlike : ∀ cs, like cs ↔ like' cs) : RowSpells items like' := by
  obtain rfl : like = like' := funext fun cs => propext (hlike cs)
  exact h

theorem RowSpells.append {a b : List Pattern} {like like' : List Char → Prop}
    (ha : RowSpells a like) (hb : RowSpells b like') : RowSpells (a ++ b) (Joined like like') := by
  intro p like'' hp before cs after
  rw [List.foldl_append, hb _ _ (ha _ _ hp) before cs after, joined_assoc]

def letters (word : String) : List Pattern := word.toList.map fun c => .char (.single c)

theorem rowSpells_letters (word : String) : RowSpells (letters word) (· = word.toList) := by
  unfold letters
  induction word.toList with
  | nil =>
    intro p like hp before cs after
    rw [List.map_nil, List.foldl_nil, hp before cs after]
    simp [Joined]
  | cons c rest ih =>
    have hc : (Pattern.char (.single c)).Spells (· = [c]) := by
      intro before cs after
      rw [spells_char _ before cs after]
      simp [mem_single]
    intro p like hp before cs after
    have h := hc.row.append ih p like hp before cs after
    simpa [Joined] using h

def oneOf : List String → Pattern
  | [] => .char .none
  | first :: more => more.foldl (fun p word => .alt p (row (letters word))) (row (letters first))

theorem spells_oneOf (words : List String) :
    (oneOf words).Spells fun cs => ∃ word ∈ words, cs = word.toList := by
  have hmore (more : List String) {p : Pattern} {like : List Char → Prop} (hp : p.Spells like) :
      (more.foldl (fun p word => .alt p (row (letters word))) p).Spells fun cs =>
        like cs ∨ ∃ word ∈ more, cs = word.toList := by
    induction more generalizing p like with
    | nil => simpa [Spells] using hp
    | cons word more ih =>
      intro before cs after
      rw [List.foldl_cons, ih (hp.alt (rowSpells_letters word).spells) before cs after]
      simp [or_assoc]
  cases words with
  | nil =>
    intro before cs after
    rw [oneOf, spells_char _ before cs after]
    simp [CharSet.none, CharSet.mem, Text.inRanges]
  | cons first more =>
    intro before cs after
    rw [oneOf, hmore more (rowSpells_letters first).spells before cs after]
    simp

end VippDocdef.Pattern
