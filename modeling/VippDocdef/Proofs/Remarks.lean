import VippDocdef.Proofs.Independence
import VippDocdef.Proofs.Positions

/-! Comments with texts of the source in them. Mangled assignments, unknown words and names of
subroutines are put into comments as they stand. The comments of a walk reach to the end of their
lines if none of these texts has the end of a comment in it, and then only. -/

set_option autoImplicit false

namespace VippDocdef.Docdef

def Opens (text : String) : Prop := ['/', '*'] <+: text.toList

def Closes (text : List Char) : Prop := ['*', '/'] <:+: text

/-- A line that starts with a comment ends with it too, and the comment does not end before. -/
def Inert (text : String) : Prop :=
  Opens text → ['*', '/'] <:+ text.toList ∧ ¬ Closes text.toList.dropLast

theorem closes_append {a b : List Char} (h : a.getLast? ≠ some '*' ∨ b.head? ≠ some '/') :
    Closes (a ++ b) ↔ Closes a ∨ Closes b := by
  unfold Closes
  rw [List.infix_append_iff_ne_nil, ← or_assoc, or_iff_left]
  rintro ⟨front, back, hfront, hback, heq, hends, hstarts⟩
  -- both signs would stand where the two meet
  obtain ⟨rfl, rfl⟩ : front = ['*'] ∧ back = ['/'] := by
    rcases front with _ | ⟨c, _ | ⟨d, front⟩⟩
    · exact absurd rfl hfront
    · obtain ⟨rfl, rfl⟩ := List.cons.inj heq
      exact ⟨rfl, rfl⟩
    · have hrest : [] = front ++ back := (List.cons.inj (List.cons.inj heq).2).2
      exact absurd (List.append_eq_nil_iff.1 hrest.symm).2 hback
  obtain ⟨init, rfl⟩ := hends
  obtain ⟨rest, rfl⟩ := hstarts
  simp at h

theorem closes_of_occurs {text : List Char} (h : Text.occurs ['*', '/'] text = false) :
    ¬ Closes text := by
  intro hcloses
  rw [Text.occurs_iff.2 hcloses] at h
  cases h

theorem not_closes_of_not_mem {text : List Char} (h : '*' ∉ text) : ¬ Closes text :=
  fun hcloses => h (hcloses.subset List.mem_cons_self)

theorem inert_comment_iff {text : String} :
    Inert ("/* " ++ text ++ " */") ↔ ¬ Closes text.toList := by
  have hlist :
      ("/* " ++ text ++ " */").toList = ['/', '*', ' '] ++ text.toList ++ [' ', '*', '/'] := by simp
  have hdrop : (['/', '*', ' '] ++ text.toList ++ [' ', '*', '/']).dropLast
      = ['/', '*', ' '] ++ (text.toList ++ [' ', '*']) := by
    rw [List.append_assoc, List.dropLast_append_of_ne_nil (by simp),
      List.dropLast_append_of_ne_nil (by simp)]
    rfl
  have hfirst : ¬ Closes ['/', '*', ' '] := closes_of_occurs (by decide)
  have hlast : ¬ Closes [' ', '*'] := closes_of_occurs (by decide)
  have hcloses : Closes (['/', '*', ' '] ++ (text.toList ++ [' ', '*'])) ↔ Closes text.toList := by
    rw [closes_append (.inl (by decide)), closes_append (.inr (by decide)), or_iff_right hfirst,
      or_iff_left hlast]
  unfold Inert Opens
  rw [hlist, hdrop, hcloses]
  constructor
  · intro h
    exact (h ⟨' ' :: (text.toList ++ [' ', '*', '/']), by simp⟩).2
  · intro h _
    exact ⟨⟨['/', '*', ' '] ++ text.toList ++ [' '], by simp⟩, h⟩

theorem inert_of_not_opens {text : String} (h : ¬ Opens text) : Inert text :=
  fun hopens => absurd hopens h

theorem inert_append {head : String} (h : isApart ['/', '*'] head = true) (rest : String) :
    Inert (head ++ rest) := by
  refine inert_of_not_opens fun hopens => not_isPrefix_append h rest ?_
  obtain ⟨more, hmore⟩ := hopens
  rw [← hmore]
  exact List.prefix_append _ _

/-- Whether the end of a comment stands at the end of a text, and only there. The bytes of the text
are compared. -/
def endsOnce : List UInt8 → Bool
  | [a, b] => a == 42 && b == 47
  | a :: b :: rest => !(a == 42 && b == 47) && endsOnce (b :: rest)
  | _ => false

theorem isSuffix_of_endsOnce {bs : List UInt8} (h : endsOnce bs = true) :
    [42, 47] <:+ bs ∧ ¬ [42, 47] <:+: bs.dropLast := by
  fun_induction endsOnce bs with
  | case1 a b =>
    obtain ⟨rfl, rfl⟩ : a = 42 ∧ b = 47 := by simpa using h
    exact ⟨List.suffix_refl _, by decide⟩
  | case2 a b rest _ ih =>
    rw [Bool.and_eq_true] at h
    obtain ⟨hends, hnone⟩ := ih h.2
    refine ⟨hends.trans (List.suffix_cons a _), fun hwithin => ?_⟩
    rw [List.dropLast_cons_of_ne_nil (by simp)] at hwithin
    rcases List.infix_cons_iff.1 hwithin with hstart | hinside
    · have hpair : [42, 47] <+: a :: b :: rest :=
        hstart.trans (List.cons_prefix_cons.2 ⟨rfl, List.dropLast_prefix _⟩)
      obtain ⟨rfl, hnext⟩ := List.cons_prefix_cons.1 hpair
      obtain ⟨rfl, _⟩ := List.cons_prefix_cons.1 hnext
      simp at h
    · exact hnone hinside
  | case3 => cases h

theorem utf8EncodeChar_cases (c : Char) :
    (String.utf8EncodeChar c = [UInt8.ofNat c.toNat] ∧ c.toNat < 128) ∨
      ∃ bs b, String.utf8EncodeChar c = bs ++ [b] ∧ 128 ≤ b.toNat := by
  unfold String.utf8EncodeChar
  dsimp only
  split
  · next h => exact .inl ⟨rfl, Nat.lt_succ_of_le h⟩
  split
  · exact .inr ⟨[_], _, rfl, by rw [UInt8.toNat_ofNat']; omega⟩
  split
  · exact .inr ⟨[_, _], _, rfl, by rw [UInt8.toNat_ofNat']; omega⟩
  · exact .inr ⟨[_, _, _], _, rfl, by rw [UInt8.toNat_ofNat']; omega⟩

theorem eq_append_of_bytes {cs : List Char} {bs : List UInt8} {c : Char} (hc : c.toNat < 128)
    (h : bytes cs = bs ++ [UInt8.ofNat c.toNat]) :
    ∃ front, cs = front ++ [c] ∧ bytes front = bs := by
  have hval {n : Nat} (hn : n < 128) : (UInt8.ofNat n).toNat = n := by
    rw [UInt8.toNat_ofNat']
    omega
  rcases List.eq_nil_or_concat cs with rfl | ⟨front, d, rfl⟩
  · simp [bytes] at h
  · have hsplit : bytes front ++ String.utf8EncodeChar d = bs ++ [UInt8.ofNat c.toNat] := by
      simpa [bytes] using h
    rcases utf8EncodeChar_cases d with ⟨hd, hsmall⟩ | ⟨more, b, hd, hlarge⟩
    · rw [hd] at hsplit
      obtain ⟨hfront, hbyte⟩ := List.append_inj' hsplit rfl
      have hnat : d.toNat = c.toNat := by
        rw [← hval hsmall, ← hval hc, (List.cons.inj hbyte).1]
      exact ⟨front, by rw [Char.toNat_inj.1 hnat, List.concat_eq_append], hfront⟩
    · rw [hd, ← List.append_assoc] at hsplit
      obtain ⟨_, hbyte⟩ := List.append_inj' hsplit rfl
      rw [(List.cons.inj hbyte).1, hval hc] at hlarge
      omega

def isInert (text : String) : Bool :=
  let text := text.toByteArray.data.toList
  !(bytes ['/', '*']).isPrefixOf text || endsOnce text

theorem inert_of_isInert {text : String} (h : isInert text = true) : Inert text := by
  intro hopens
  have hstart : (bytes ['/', '*']).isPrefixOf (bytes text.toList) = true :=
    List.isPrefixOf_iff_prefix.2 (bytes_isPrefix hopens)
  have hends : endsOnce (bytes text.toList) = true := by
    rw [bytes_toList] at hstart ⊢
    simpa [isInert, hstart] using h
  obtain ⟨⟨init, hinit⟩, hnone⟩ := isSuffix_of_endsOnce hends
  obtain ⟨front, hfront, hbytes⟩ :
      ∃ front, text.toList = front ++ ['/'] ∧ bytes front = init ++ [42] :=
    eq_append_of_bytes (by decide) (by rw [← hinit, List.append_assoc]; rfl)
  obtain ⟨more, rfl, _⟩ : ∃ more, front = more ++ ['*'] ∧ bytes more = init :=
    eq_append_of_bytes (by decide) hbytes
  rw [hfront, List.dropLast_concat, List.append_assoc]
  refine ⟨List.suffix_append _ _, fun hcloses => hnone ?_⟩
  obtain ⟨before, after, hlist⟩ := hcloses
  rw [← hinit,
    show init ++ [42, 47] = init ++ [42] ++ [47] by simp, List.dropLast_concat, ← hbytes, ← hlist]
  exact ⟨bytes before, bytes after, by simp [bytes]; rfl⟩

theorem throughout_fixed {lines : List Line} (h : (texts lines).all isInert = true) :
    Throughout Inert lines :=
  fun text htext => inert_of_isInert (List.all_eq_true.1 h text htext)

@[simp] theorem inert_empty : Inert "" := inert_of_isInert (by decide)

theorem inert_dropLeading (name rest : String) (hrest : rest.toList.head? ≠ some '/') :
    Inert (Text.dropLeading '/' name ++ rest) := by
  refine inert_of_not_opens fun hopens => ?_
  obtain ⟨more, hmore⟩ := hopens
  have hhead : (Text.dropLeading '/' name ++ rest).toList.head? = some '/' := by simp [← hmore]
  rw [String.toList_append, Text.dropLeading, String.toList_ofList] at hhead
  cases hdrop : name.toList.dropWhile (· == '/') with
  | nil => exact hrest (by simpa [hdrop] using hhead)
  | cons c cs =>
    have hc := List.head?_dropWhile_not (· == '/') name.toList
    simp [hdrop] at hc hhead
    exact hc hhead

def statementHeads : List String :=
  ["USE FORMAT SR_", "OUTPUT ", "FONT ", "POSITION ", "COLOR ", "ALIGN ", ";", "TEXT", "WIDTH ",
    "NORMAL", "'", "    FONT ", "    POSITION (SAME) (", "POSY = ", "POSX = ", "BOX", "HEIGHT ",
    "THICKNESS ", "RULE", "DIRECTION ", "LENGTH ", "SEGMENT ", "IMAGE '", "SCALE ",
    "POSITION (POSX+", "CREATEOBJECT IOBDLL(IOBDEFS)", "POSITION (SAME) (SAME)", "PARAMETERS",
    "('FILENAME'='", "('OBJECTTYPE'='1')", "('OTHERTYPES'='", "('XOBJECTAREASIZE'='",
    "('YOBJECTAREASIZE'='", "('OBJECTMAPPING'='2');"]

namespace Statement

section Like

variable {like : String → Prop}

theorem throughout_clauses {head : String} {below : List String} :
    Throughout like (clauses head below) ↔ like head ∧ ∀ t ∈ below, like t := by
  rw [Throughout, texts_clauses, List.forall_mem_cons]

variable (hheads : ∀ head ∈ statementHeads, ∀ rest, like (head ++ rest))

include hheads

theorem like_of_mem {head : String} (h : head ∈ statementHeads) : like head := by
  simpa using hheads head h ""

theorem like_place (place : Place) : like place.clause := by
  rw [Place.clause, String.append_assoc, String.append_assoc]
  exact hheads _ (by decide) _

theorem like_widthClause (width : Float) : like (widthClause width) := by
  rw [widthClause, String.append_assoc]
  exact hheads _ (by decide) _

theorem like_anchoredClause (x y : Float) : like (anchoredClause x y) := by
  unfold anchoredClause
  simp (disch := decide) only [String.append_assoc, hheads]

theorem like_colorClause (color : Option String) : ∀ t ∈ colorClause color, like t := by
  cases color with
  | none => exact List.forall_mem_nil _
  | some c => exact List.forall_mem_singleton.2 (hheads _ (by decide) c)

theorem like_alignClause (align : Option Alignment) : ∀ t ∈ alignClause align, like t := by
  cases align with
  | none => exact List.forall_mem_nil _
  | some a => exact List.forall_mem_singleton.2 (hheads _ (by decide) a.keyword)

theorem like_runClauses {runs : List (String × String)} (h : ∀ t ∈ runs.map (·.2), like t) :
    ∀ t ∈ runClauses runs, like t := by
  intro t ht
  obtain ⟨run, hrun, hline⟩ := List.mem_flatMap.1 ht
  rcases List.mem_pair.1 hline with rfl | rfl
  · rw [String.append_assoc]
    exact hheads _ (by decide) _
  · exact h _ (List.mem_map_of_mem hrun)

theorem like_quotedLines (texts : List String) : ∀ t ∈ quotedLines texts, like t := by
  have hquote (s rest : String) : like (quote s ++ rest) := by
    rw [quote, String.append_assoc, String.append_assoc]
    exact hheads _ (by decide) _
  fun_induction quotedLines texts with
  | case1 => exact List.forall_mem_nil _
  | case2 last => exact List.forall_mem_singleton.2 (hquote last ";")
  | case3 first rest _ ih => exact List.forall_mem_cons.2 ⟨by simpa using hquote first "", ih⟩

theorem throughout_lines {st : Statement} (hown : ∀ t ∈ st.ownLines, like t) :
    Throughout like st.lines := by
  have hwhole {head : String} (h : head ∈ statementHeads) : like head := like_of_mem hheads h
  cases st with
  | plain text => simpa [lines] using hown text List.mem_cons_self
  | routine name => simp (disch := decide) [lines, String.append_assoc, hheads]
  | output content font place color align =>
    refine throughout_clauses.2 ⟨hheads _ (by decide) content, ?_⟩
    simp only [List.forall_mem_append, List.forall_mem_cons]
    refine ⟨⟨⟨?_, like_place hheads place, List.forall_mem_nil _⟩, like_colorClause hheads color⟩,
      ?_, List.forall_mem_nil _⟩
    · rw [String.append_assoc]
      exact hheads _ (by decide) _
    · rcases align with _ | _ | _ | _ | _ <;>
        simp (disch := decide) only [String.append_assoc, hheads, hwhole]
  | column items font place width align =>
    refine throughout_clauses.2 ⟨hwhole (by decide), ?_⟩
    have hitems := hown items List.mem_cons_self
    simp only [List.forall_mem_append, List.forall_mem_cons]
    exact ⟨⟨⟨like_place hheads place, like_widthClause hheads width, List.forall_mem_nil _⟩,
      like_alignClause hheads align⟩, hheads _ (by decide) font, hwhole (by decide), hitems,
      hwhole (by decide), List.forall_mem_nil _⟩
  | switched runs place =>
    refine throughout_clauses.2 ⟨hwhole (by decide), ?_⟩
    simp only [List.forall_mem_append, List.forall_mem_cons]
    exact ⟨⟨like_place hheads place, like_runClauses hheads hown⟩, hwhole (by decide),
      List.forall_mem_nil _⟩
  | switchedRight runs place width =>
    refine throughout_clauses.2 ⟨hwhole (by decide), ?_⟩
    simp only [List.forall_mem_append, List.forall_mem_cons]
    refine ⟨⟨⟨⟨like_place hheads place, ?_⟩, hheads "ALIGN " (by decide) "RIGHT",
      List.forall_mem_nil _⟩, like_runClauses hheads hown⟩, hwhole (by decide),
      List.forall_mem_nil _⟩
    cases width with
    | none => exact List.forall_mem_nil _
    | some w => exact List.forall_mem_singleton.2 (like_widthClause hheads w)
  | baseline texts font align =>
    refine throughout_clauses.2 ⟨hwhole (by decide), ?_⟩
    simp only [List.forall_mem_append, List.forall_mem_cons]
    refine ⟨⟨⟨⟨hheads "POSITION " (by decide) "SAME SAME BASELINE", ?_⟩, hheads _ (by decide) font,
      List.forall_mem_nil _⟩, like_alignClause hheads align⟩, like_quotedLines hheads texts⟩
    split
    · exact List.forall_mem_singleton.2 (like_widthClause hheads _)
    · exact List.forall_mem_nil _
  | emptyLine font y =>
    refine throughout_flush.2 ?_
    simp only [List.forall_mem_cons]
    refine ⟨hheads "OUTPUT " (by decide) "''", ?_, ?_, List.forall_mem_nil _⟩
    · exact hheads "    FONT " (by decide) (font ++ " NORMAL")
    · exact hheads "    POSITION (SAME) (" (by decide) (y ++ ");")
  | anchor =>
    refine throughout_flush.2 ?_
    simp only [List.forall_mem_cons]
    exact ⟨hheads "POSY = " (by decide) "$SL_CURRY;", hheads "POSX = " (by decide) "$SL_CURRX;",
      List.forall_mem_nil _⟩
  | box x y width height stroke =>
    refine throughout_clauses.2 ⟨hwhole (by decide), ?_⟩
    simp only [List.forall_mem_append, List.forall_mem_cons]
    refine ⟨⟨⟨like_anchoredClause hheads x y, like_widthClause hheads width, ?_,
      List.forall_mem_nil _⟩, like_colorClause hheads stroke.color⟩, ?_, List.forall_mem_nil _⟩
    · rw [String.append_assoc]
      exact hheads _ (by decide) _
    · split
      · next shade _ =>
        exact hheads "THICKNESS " (by decide) s!"0 TYPE {stroke.lineType} SHADE {shade};"
      · exact hheads "THICKNESS " (by decide) s!"MEDIUM TYPE {stroke.lineType};"
  | rule x y length across thickness stroke =>
    refine throughout_clauses.2 ⟨hwhole (by decide), ?_⟩
    simp only [List.forall_mem_append, List.forall_mem_cons]
    refine ⟨⟨⟨like_anchoredClause hheads x y, hheads _ (by decide) _, List.forall_mem_nil _⟩,
      like_colorClause hheads stroke.color⟩, ?_, ?_, hwhole (by decide), List.forall_mem_nil _⟩
    · rw [String.append_assoc]
      exact hheads _ (by decide) _
    · simp (disch := decide) only [String.append_assoc, hheads]
  | segment name place =>
    refine throughout_clauses.2 ⟨hheads _ (by decide) name, List.forall_mem_singleton.2 ?_⟩
    simp (disch := decide) only [Place.clause, String.append_assoc, hheads]
  | image name place scale =>
    refine throughout_clauses.2 ⟨?_, ?_⟩
    · simp (disch := decide) only [String.append_assoc, hheads]
    · simp only [List.forall_mem_cons]
      exact ⟨like_place hheads place, hheads _ (by decide) scale, hwhole (by decide),
        List.forall_mem_nil _⟩
  | object name format area =>
    have harea : ∀ t ∈ areaClauses area, like t := by
      unfold areaClauses
      split
      · simp only [List.forall_mem_cons, String.append_assoc]
        exact ⟨hheads _ (by decide) _, hheads _ (by decide) _, List.forall_mem_nil _⟩
      · exact List.forall_mem_nil _
    have hbelow (ts : List String) (h : ∀ t ∈ ts, like t) : Throughout like (ts.map (⟨2, ·⟩)) := by
      simpa [Throughout, texts] using h
    refine throughout_append.2 ⟨?_, hbelow _ ?_⟩
    · simp only [throughout_cons]
      exact ⟨hwhole (by decide), hwhole (by decide), hwhole (by decide), throughout_nil⟩
    · simp only [List.forall_mem_append, List.forall_mem_cons, String.append_assoc]
      exact ⟨⟨⟨hheads _ (by decide) _, hwhole (by decide), hheads _ (by decide) _,
        List.forall_mem_nil _⟩, harea⟩, hwhole (by decide), List.forall_mem_nil _⟩

end Like

end Statement

/-- The comments among the lines are inert if none of these texts of the source ends one, and then
only. -/
def Wraps (lines : List Line) (remarks : List String) : Prop :=
  Throughout Inert lines ↔ ∀ text ∈ remarks, ¬ Closes text.toList

namespace Wraps

variable {a b : List Line} {remarks more : List String}

theorem none (h : Throughout Inert a) : Wraps a [] := ⟨fun _ => List.forall_mem_nil _, fun _ => h⟩

theorem append (h : Wraps a remarks) (h' : Wraps b more) : Wraps (a ++ b) (remarks ++ more) := by
  unfold Wraps at h h' ⊢
  rw [throughout_append, List.forall_mem_append, h, h']

theorem behind (h : Wraps b remarks) (ha : Throughout Inert a) : Wraps (a ++ b) remarks :=
  (none ha).append h

theorem before (h : Wraps a remarks) (hb : Throughout Inert b) : Wraps (a ++ b) remarks := by
  simpa using h.append (none hb)

theorem indented (h : Wraps a remarks) : Wraps (indented a) remarks := throughout_indented.trans h

theorem one {text : String} (h : Inert text ↔ ∀ r ∈ remarks, ¬ Closes r.toList) :
    Wraps (flush [text]) remarks := by
  unfold Wraps
  rw [throughout_flush, List.forall_mem_singleton, h]

end Wraps

/-- A text of the source between words that have no asterisk. -/
theorem wraps_remark {line label text tail : String}
    (hline : line = "/* " ++ (label ++ (text ++ tail)) ++ " */")
    (hlabel : '*' ∉ label.toList) (htail : '*' ∉ tail.toList)
    (hgap : tail.toList.head? ≠ some '/') :
    Wraps (flush [line]) [text] := by
  have hends : label.toList.getLast? ≠ some '*' := fun hlast => hlabel (List.mem_of_getLast? hlast)
  apply Wraps.one
  rw [hline, inert_comment_iff, String.toList_append, closes_append (.inl hends),
    String.toList_append, closes_append (.inr hgap), or_iff_right (not_closes_of_not_mem hlabel),
    or_iff_left (not_closes_of_not_mem htail), List.forall_mem_singleton]

theorem wraps_labelled {start : String} (label : String) (hstart : start = "/* " ++ label)
    (hlabel : '*' ∉ label.toList)
    (text : String) : Wraps (flush [start ++ text ++ " */"]) [text] := by
  have hline : start ++ text ++ " */" = "/* " ++ (label ++ (text ++ "")) ++ " */" := by
    simp [hstart, String.append_assoc]
  exact wraps_remark hline hlabel (by decide) (by decide)

theorem inert_stepStatement (name sign : String) :
    Inert (Condition.stepStatement (Text.dropLeading '/' name) sign) := by
  unfold Condition.stepStatement
  simp only [String.append_assoc]
  exact inert_dropLeading name _ (by simp [toString])

namespace Condition

theorem inert_hoistStep {state : List String × List String} (h : ∀ t ∈ state.1, Inert t)
    (param : String) :
    ∀ t ∈ (hoistStep state param).1, Inert t := by
  obtain ⟨hoisted, params⟩ := state
  unfold hoistStep
  dsimp only
  split
  · split
    · exact h
    · exact List.forall_mem_cons.2 ⟨inert_stepStatement _ _, h⟩
  · exact h

theorem inert_hoisted (atoms : List String) : ∀ t ∈ (ofAtoms atoms).hoisted, Inert t := by
  have hfold (operands : List String) (state : List String × List String)
      (h : ∀ t ∈ state.1, Inert t) :
      ∀ t ∈ (operands.foldl hoistStep state).1, Inert t := by
    induction operands generalizing state with
    | nil => exact h
    | cons param rest ih => exact ih _ (inert_hoistStep h param)
  unfold ofAtoms
  dsimp only
  split <;> simpa using hfold _ ([], []) (by simp)

theorem inert_ifLine (c : Condition) : Inert c.ifLine := by
  obtain ⟨test, htest⟩ := c.isHeader_ifLine
  rw [htest, String.append_assoc]
  exact inert_append (by decide) _

end Condition

theorem inert_frame : ∀ t ∈ frameTexts, Inert t := by
  have hinert : frameTexts.all isInert = true := by decide
  exact fun t ht => inert_of_isInert (List.all_eq_true.1 hinert t ht)

theorem throughout_frame {text : String} (h : text ∈ frameTexts) :
    Throughout Inert (flush [text]) :=
  throughout_flush.2 (List.forall_mem_singleton.2 (inert_frame text h))

theorem throughout_opening (condition : List String) :
    Throughout Inert (flush (Condition.ofAtoms condition).hoisted
      ++ flush [(Condition.ofAtoms condition).ifLine, "THEN;"]) := by
  simp only [throughout_append, throughout_flush, List.forall_mem_cons]
  exact ⟨Condition.inert_hoisted condition, Condition.inert_ifLine _, inert_frame _ (by decide),
    List.forall_mem_nil _⟩

theorem Flow.wraps {act : Emitter} {record : Action → State → List String}
    (hact : ∀ (a : Action) (s : State), Wraps (act a s).block.lines (record a s)) (f : Flow)
    (s : State) :
    Wraps (f.emit act s).block.lines ((f.handed act s).flatMap fun x => record x.1 x.2) := by
  induction f generalizing s with
  | done => exact .none throughout_nil
  | act a rest ih =>
    rw [Flow.handed, Flow.emit]
    by_cases ha : s.opensOutline a = true
    · simp only [if_pos ha, List.flatMap_cons, Block.lines, Block.lines_append, List.append_nil]
      have hinside := ((hact a s.openOutline).append (ih (act a s.openOutline).state)).indented
      exact (hinside.behind fun t ht => inert_frame t (List.mem_append_right _ ht)).before
        (throughout_frame (by decide))
    · simp only [if_neg ha, List.flatMap_cons, Block.lines_append]
      exact (hact a s).append (ih _)
  | branch condition yes rest hy hr =>
    rw [Flow.lines_branch, Flow.handed, List.flatMap_append]
    refine Wraps.append ?_ (hr _)
    exact ((hy s).indented.behind (throughout_opening condition)).before
      (throughout_frame (by decide))
  | branchElse condition yes no rest hy hn hr =>
    rw [Flow.lines_branchElse, Flow.handed]
    simp only [List.flatMap_append, ← List.append_assoc]
    refine Wraps.append ?_ (hr _)
    have helse : Throughout Inert (flush ["ELSE;"]) := throughout_frame (by decide)
    have hyes := ((hy s).indented.behind (throughout_opening condition)).before helse
    exact (hyes.append (hn _).indented).before (throughout_frame (by decide))
  | scope body rest hb hr =>
    rw [Flow.lines_scope, Flow.handed, List.flatMap_append]
    exact (hb s).append (hr _)
  | stray body rest hb hr =>
    simp only [Flow.handed, Flow.emit, List.flatMap_append, Block.lines, Block.lines_append]
    refine ((hb s).append (hr _)).behind ?_
    simpa [Statement.lines] using inert_of_isInert (by decide : isInert strayElse = true)

def setRemarks (name value : String) : List String :=
  if isMangled name value then [name, value] else []

def assignmentRemarks (a : Assignment) : List String :=
  let target := Text.dropLeading '/' a.target
  match a.op, a.value with
  | .set, some value =>
    if target ∈ ["++", "--", "+", "-", "*"] then setRemarks (Text.dropLeading '/' value) a.target
    else setRemarks target value
  | _, _ => []

def translatedWords : List String :=
  ["SETLSP", "FOR", "ENDFOR", "GETINTV", "CACHE", "CLIP", "ENDCLIP", "PAGEBRK", "NEWFRAME",
    "NEWFRONT", "NEWBACK"]

def commandRemarks (name : String) : List String :=
  if name ∈ translatedWords ∨ name ∈ silentWords then [] else [name]

theorem wraps_setStatement (name value : String) :
    Wraps (flush [setStatement (Text.dropLeading '/' name) value])
      (setRemarks (Text.dropLeading '/' name) value) := by
  unfold setStatement setRemarks
  refine .one ?_
  split
  · -- both sides of the assignment, with fixed signs between them
    have htext (name : String) :
        s!"/* {name} = {value}; */" = "/* " ++ (name ++ (" = " ++ (value ++ ";"))) ++ " */" := by
      simp [← String.toList_inj, toString]
    have hequals : ¬ Closes " = ".toList := not_closes_of_not_mem (by decide)
    have hend : ¬ Closes ";".toList := not_closes_of_not_mem (by decide)
    rw [htext, inert_comment_iff, String.toList_append, closes_append (.inr (by simp)),
      String.toList_append, closes_append (.inl (by decide)), String.toList_append,
      closes_append (.inr (by decide)), or_iff_right hequals, or_iff_left hend, not_or,
      List.forall_mem_cons, List.forall_mem_singleton]
  · refine iff_of_true ?_ (List.forall_mem_nil _)
    split
    · exact inert_stepStatement name "+"
    split
    · exact inert_stepStatement name "-"
    · simp only [String.append_assoc]
      exact inert_dropLeading name _ (by simp)

theorem wraps_assignment (a : Assignment) :
    Wraps (flush (assignStatement? a).toList) (assignmentRemarks a) := by
  have hstep (sign : String) :
      Wraps (flush [Condition.stepStatement (Text.dropLeading '/' a.target) sign]) [] :=
    .one (iff_of_true (inert_stepStatement a.target sign) (List.forall_mem_nil _))
  obtain ⟨op, target, value, initial⟩ := a
  unfold assignStatement? assignmentRemarks
  cases op with
  | increment => exact hstep "+"
  | decrement => exact hstep "-"
  | set =>
    cases value with
    | none => exact .none throughout_nil
    | some value =>
      dsimp only
      split
      · exact wraps_setStatement value target
      · exact wraps_setStatement target value

theorem wraps_unsupported (name : String) : Wraps (flush [unsupported name]) [name] :=
  wraps_labelled "VIPP command not directly supported: " rfl (by decide) name

theorem inert_substringStatement (args : List String) : Inert (substringStatement args) := by
  unfold substringStatement
  split
  · simp only [String.append_assoc]
    exact inert_dropLeading _ _ (by simp)
  · exact inert_of_isInert (by decide)

theorem wraps_genericLines (name : String) (args : List String) :
    Wraps (flush (genericLines name args)) (commandRemarks name) := by
  unfold genericLines
  split
  · refine .none ?_
    split
    · simp (disch := decide) [String.append_assoc, inert_append]
    · simp (disch := decide) [inert_of_isInert]
  · refine .none ?_
    simp (disch := decide) [String.append_assoc, inert_append]
  · exact .none (throughout_fixed (by decide))
  · exact .none (throughout_flush.2 (List.forall_mem_singleton.2 (inert_substringStatement args)))
  · exact .none throughout_nil
  iterate 6 exact .none (throughout_fixed (by decide))
  · have hother : name ∉ translatedWords := by
      simp only [translatedWords, List.mem_cons, List.not_mem_nil, or_false, not_or]
      exact ⟨‹_›, ‹_›, ‹_›, ‹_›, ‹_›, ‹_›, ‹_›, ‹_›, ‹_›, ‹_›, ‹_›⟩
    unfold commandRemarks
    by_cases hsilent : name ∈ silentWords
    · rw [if_pos (List.contains_iff_mem.2 hsilent), if_pos (.inr hsilent)]
      exact .none throughout_nil
    · rw [if_neg (by simpa using hsilent), if_neg (by simp [hother, hsilent])]
      exact wraps_unsupported name

def Emission.Unremarked (r : Emission) : Prop :=
  ∃ ss : List Statement, r.block = .ofList ss ∧ ∀ st ∈ ss, ∀ t ∈ st.ownLines, Inert t

theorem inert_heads : ∀ head ∈ statementHeads, ∀ rest, Inert (head ++ rest) := by
  have hapart : statementHeads.all (isApart ['/', '*']) = true := by decide
  exact fun head hhead => inert_append (List.all_eq_true.1 hapart head hhead)

theorem Emission.Unremarked.wraps {r : Emission} (h : r.Unremarked) : Wraps r.block.lines [] := by
  obtain ⟨ss, hblock, hown⟩ := h
  rw [hblock]
  refine .none ?_
  clear hblock
  induction ss with
  | nil => exact throughout_nil
  | cons st rest ih =>
    obtain ⟨hst, hrest⟩ := List.forall_mem_cons.1 hown
    exact throughout_append.2 ⟨Statement.throughout_lines inert_heads hst, ih hrest⟩

theorem unremarked_quiet (s : State) : (Emission.quiet s).Unremarked :=
  ⟨[], rfl, List.forall_mem_nil _⟩

theorem unremarked_one {st : Statement} (h : ∀ t ∈ st.ownLines, Inert t) (s : State) :
    (Emission.one st s).Unremarked :=
  ⟨[st], rfl, List.forall_mem_singleton.2 h⟩

theorem inert_textItems (text : String) : Inert (textItems text) := by
  have hitem (p : Piece) (rest : String) : Inert (p.item ++ rest) := by
    cases p <;> simp (disch := decide) only [Piece.item, quote, String.append_assoc, inert_append]
  rw [textItems_eq]
  cases pieces text.toList with
  | nil => exact inert_of_isInert (by decide)
  | cons p ps =>
    cases ps with
    | nil =>
      rw [List.map_cons, List.map_nil, String.intercalate_singleton]
      simpa using hitem p ""
    | cons q qs =>
      rw [List.map_cons, List.map_cons, String.intercalate_cons_cons, String.append_assoc]
      exact hitem p _

namespace State

variable (s : State) (e : Env)

theorem unremarked_printPlain (text : String) (align : Option Alignment) :
    (s.printPlain e text align).Unremarked := by
  unfold printPlain
  split
  · exact unremarked_one (List.forall_mem_nil _) _
  split
  · exact unremarked_one (List.forall_mem_nil _) _
  · exact unremarked_one (List.forall_mem_nil _) _

theorem unremarked_printSwitched (segments : List (String × String)) (align : Option Alignment) :
    (s.printSwitched e segments align).Unremarked := by
  refine unremarked_one (fun t ht => ?_) _
  have hrun : ∃ segment : String × String, textItems segment.2 = t := by
    split at ht <;>
    · simp only [Statement.ownLines, List.mem_map] at ht
      obtain ⟨run, ⟨segment, -, rfl⟩, rfl⟩ := ht
      exact ⟨segment, rfl⟩
  obtain ⟨segment, rfl⟩ := hrun
  exact inert_textItems segment.2

theorem unremarked_emitText (o : TextOutput) : (s.emitText e o).Unremarked := by
  unfold emitText
  split
  · exact unremarked_quiet s
  · refine unremarked_one (List.forall_mem_singleton.2 ?_) _
    simp (disch := decide) only [String.append_assoc, inert_append]
  · exact unremarked_one (List.forall_mem_nil _) _
  · refine unremarked_one (List.forall_mem_singleton.2 ?_) _
    exact inert_textItems _
  unfold printLiteral
  split
  · exact s.unremarked_printPlain e _ _
  · split
    · exact s.unremarked_printPlain e _ _
    · exact (s.withFont _).unremarked_printPlain e _ _
  · exact s.unremarked_printSwitched e _ _

theorem unremarked_emitNewLine (amount : Option String) : (s.emitNewLine amount).Unremarked := by
  unfold emitNewLine
  split
  · split
    · exact unremarked_quiet _
    · exact unremarked_one (List.forall_mem_nil _) _
  · exact unremarked_one (List.forall_mem_nil _) _

theorem unremarked_emitImage (c : ResourceCall) : (s.emitImage c).Unremarked := by
  unfold emitImage
  split
  · exact unremarked_quiet s
  · exact unremarked_one (List.forall_mem_nil _) _

theorem unremarked_emitBox (args : List String) : (s.emitBox e args).Unremarked := by
  unfold emitBox
  split
  · refine ⟨_, rfl, fun st hst => ?_⟩
    have hown : st.ownLines = [] := by
      rcases List.mem_append.1 hst with hanchor | hshape
      · rw [mem_anchorStatements hanchor]
        rfl
      · exact (shape?_cases (Option.mem_toList.1 hshape)).1
    rw [hown]
    exact List.forall_mem_nil _
  · exact unremarked_quiet s

def recursive? (c : ResourceCall) : Option String :=
  let file := segmentFile s.sec.cache c.name
  let name := (segmentKind file).1
  if c.kind = .segment ∧ file ≠ "" ∧ (segmentKind file).2 = .bare ∧ name ∈ s.expanding then
    ((e.project.subroutine? name).filter (·.length ≤ e.settings.inlineThreshold)).map fun _ => name
  else none

def ownRemarks : Action → List String
  | .assign a => assignmentRemarks a
  | .generic name _ => commandRemarks name
  | .call c => (s.recursive? e c).toList
  | _ => []

/-- The texts of an action that are put into comments; a comment stands over what an expanded
subroutine writes. -/
def remarks (inside : List Command → State → List String) (a : Action) : List String :=
  match s.expands? e a with
  | some (name, body) => name :: inside body (s.within name)
  | none => s.ownRemarks e a

end State

def remarksNested (e : Env) : (depth : Nat) → List Command → State → List String
  | 0, _, _ => []
  | depth + 1, cs, s =>
    ((Flow.ofCommands cs).handed (e.emitter (emitNested e depth)) s).flatMap fun x =>
      x.2.remarks e (remarksNested e depth) x.1

namespace State

variable {s : State} {e : Env} {expand : Expansion}

theorem lines_plain (texts : List String) (t : State) :
    (Emission.many (texts.map .plain) t).block.lines = flush texts := by
  induction texts with
  | nil => rfl
  | cons text rest ih => exact congrArg (Line.mk 0 text :: ·) ih

theorem wraps_recursiveNote (name : String) :
    Wraps (flush [s!"/* Recursive subroutine call: {name} */"]) [name] :=
  wraps_labelled "Recursive subroutine call: " rfl (by decide) name

theorem wraps_emitCall {c : ResourceCall} (h : s.expands? e (.call c) = none) :
    Wraps (s.emitAction e expand (.call c)).block.lines (s.recursive? e c).toList := by
  have silent {r : Emission} (hnone : s.recursive? e c = none) (hr : r.Unremarked) :
      Wraps r.block.lines (s.recursive? e c).toList := by
    rw [hnone]
    exact hr.wraps
  unfold emitAction
  dsimp only
  split
  · next hkind =>
    unfold emitSegment
    dsimp only
    split
    · next hfile => exact silent (by simp [recursive?, hfile]) (unremarked_quiet _)
    · next hfile =>
      unfold emitFile
      split
      · next stem hsegment =>
        unfold emitSubroutine
        dsimp only
        split
        · next hnone =>
          exact silent (by simp [recursive?, hsegment, hnone])
            (unremarked_one (List.forall_mem_nil _) _)
        · next body hbody =>
          split
          · next hlong =>
            refine silent ?_ (unremarked_one (List.forall_mem_nil _) _)
            simp [recursive?, hsegment, hbody, Option.filter_some, hlong]
          · next hshort =>
            -- a short subroutine that is not expanded is being expanded
            have hstack : stem ∈ s.expanding := by
              by_contra hfresh
              simp [expands?, hkind, hfile, hsegment, hfresh, hbody] at h
              exact hshort h
            have hrecursive : s.recursive? e c = some stem := by
              simp [recursive?, hkind, hfile, hsegment, hstack, hbody, Option.filter_some,
                not_lt.1 hshort]
            rw [hrecursive]
            simp only [enter?, List.contains_iff_mem.2 hstack, if_true]
            exact wraps_recursiveNote stem
      · next hsegment =>
        exact silent (by simp [recursive?, hsegment]) (unremarked_one (List.forall_mem_nil _) _)
      · next hsegment =>
        exact silent (by simp [recursive?, hsegment]) (unremarked_one (List.forall_mem_nil _) _)
      · next hsegment =>
        exact silent (by simp [recursive?, hsegment]) (unremarked_one (List.forall_mem_nil _) _)
  · next hkind => exact silent (by simp [recursive?, hkind]) (s.unremarked_emitImage c)

theorem wraps_ownRemarks {a : Action} (h : s.expands? e a = none) :
    Wraps (s.emitAction e expand a).block.lines (s.ownRemarks e a) := by
  cases a with
  | assign a =>
    have hlines := lines_plain (assignStatement? a).toList s
    rw [← Option.toList_map] at hlines
    exact hlines ▸ wraps_assignment a
  | text o => exact (s.unremarked_emitText e o).wraps
  | call c => exact wraps_emitCall h
  | move x y => exact (unremarked_quiet _).wraps
  | newLine amount => exact (s.unremarked_emitNewLine amount).wraps
  | box args => exact (s.unremarked_emitBox e args).wraps
  | font name => exact (unremarked_quiet _).wraps
  | color name => exact (unremarked_quiet _).wraps
  | generic name args =>
    unfold emitAction emitGeneric
    rw [lines_plain]
    exact wraps_genericLines name args

theorem wraps_inlineNote (name : String) (n : Nat) :
    Wraps (flush [s!"/* Inlined subroutine: {name} ({n} commands) */"]) [name] := by
  let tail : String := s!" ({n} commands)"
  have htext : s!"/* Inlined subroutine: {name} ({n} commands) */"
      = "/* " ++ ("Inlined subroutine: " ++ (name ++ tail)) ++ " */" := by
    simp [← String.toList_inj, toString, tail]
  have htail : '*' ∉ tail.toList := by
    intro hmem
    have hdigit : '*' ∈ Nat.toDigits 10 n := by
      simpa [tail, toString, Nat.repr_eq_ofList_toDigits] using hmem
    exact absurd (Nat.isDigit_of_mem_toDigits (by omega) (by omega) hdigit) (by decide)
  exact wraps_remark htext (by decide) htail (by simp [tail, toString])

theorem wraps_remarks {inside : List Command → State → List String}
    (hexpand : ∀ cs t, Wraps (expand cs t).block.lines (inside cs t)) (a : Action) :
    Wraps (s.emitAction e expand a).block.lines (s.remarks e inside a) := by
  cases hexpands : s.expands? e a with
  | none =>
    rw [remarks, hexpands]
    exact wraps_ownRemarks hexpands
  | some found =>
    obtain ⟨name, body⟩ := found
    rw [emitAction_of_expands? hexpands, remarks, hexpands]
    exact (wraps_inlineNote name body.length).append (hexpand body (s.within name))

end State

theorem wraps_emitNested (e : Env) (depth : Nat) (cs : List Command) (s : State) :
    Wraps (emitNested e depth cs s).block.lines (remarksNested e depth cs s) := by
  induction depth generalizing cs s with
  | zero => exact .none throughout_nil
  | succ depth ih => exact Flow.wraps (fun a t => State.wraps_remarks ih a) (Flow.ofCommands cs) s

end VippDocdef.Docdef
