import VippDocdef.Proofs.Enclosures
import VippDocdef.Proofs.Grouping
import VippDocdef.Proofs.Retention

/-! Strings in comparisons. A string in parentheses is one operand and comes out as the literal it
stands for. A string in quotes is cut at its blanks like the rest of a condition, and comes out
whole only if each of its words is written as it is. -/

set_option autoImplicit false

namespace VippDocdef.Docdef

open Condition

def blanks (cs : List Char) : Nat := cs.countP Text.isBlank

theorem blanks_append (a b : List Char) : blanks (a ++ b) = blanks a + blanks b :=
  List.countP_append

theorem blanks_cons (c : Char) (cs : List Char) : blanks (c :: cs) = blanks [c] + blanks cs :=
  blanks_append [c] cs

theorem blanks_cons_of_blank {c : Char} (h : Text.isBlank c = true) (cs : List Char) :
    blanks (c :: cs) = blanks cs + 1 := List.countP_cons_of_pos h

theorem blanks_cons_of_not_blank {c : Char} (h : Text.isBlank c = false) (cs : List Char) :
    blanks (c :: cs) = blanks cs := List.countP_cons_of_neg (by simp [h])

theorem blanks_reverse (cs : List Char) : blanks cs.reverse = blanks cs := List.countP_reverse

/-- The blanks of words that are joined, and one more. -/
def weight : List String → Nat
  | [] => 0
  | w :: ws => blanks w.toList + 1 + weight ws

theorem blanks_join {words : List String} (h : words ≠ []) :
    blanks (" ".intercalate words).toList + 1 = weight words := by
  induction words with
  | nil => exact absurd rfl h
  | cons w rest ih =>
    cases rest with
    | nil => rw [String.intercalate_singleton]; rfl
    | cons w' rest =>
      have hblank : blanks " ".toList = 1 := by decide
      rw [String.intercalate_cons_cons, String.toList_append, String.toList_append, blanks_append,
        blanks_append, hblank, weight, ← ih (by simp)]
      omega

theorem weight_sublist {a b : List String} (h : a.Sublist b) :
    weight a ≤ weight b ∧ (weight a = weight b → a = b) := by
  induction h with
  | slnil => exact ⟨Nat.le_refl _, fun _ => rfl⟩
  | cons w _ ih =>
    simp only [weight]
    exact ⟨by omega, fun heq => by omega⟩
  | cons_cons w _ ih =>
    simp only [weight]
    exact ⟨by omega, fun heq => congrArg _ (ih.2 (by omega))⟩

theorem weight_eq_of_forall₂ {a b : List String}
    (h : List.Forall₂ (fun v w => blanks v.toList = blanks w.toList) a b) :
    weight a = weight b := by
  induction h with
  | nil => rfl
  | cons hhead _ ih => rw [weight, weight, hhead, ih]

theorem eq_of_append_blank {p q x y : List Char} {c d : Char} (hc : Text.isBlank c = true)
    (hd : Text.isBlank d = true) (hcount : blanks p = blanks q) (h : p ++ c :: x = q ++ d :: y) :
    p = q ∧ c = d ∧ x = y := by
  induction p generalizing q with
  | nil =>
    cases q with
    | nil => exact ⟨rfl, List.cons.inj h⟩
    | cons b q =>
      obtain ⟨rfl, -⟩ := List.cons.inj h
      rw [blanks_cons_of_blank hc] at hcount
      cases hcount
  | cons a p ih =>
    cases q with
    | nil =>
      obtain ⟨rfl, -⟩ := List.cons.inj h
      rw [blanks_cons_of_blank hd] at hcount
      cases hcount
    | cons b q =>
      obtain ⟨rfl, htail⟩ := List.cons.inj h
      rw [blanks_cons, blanks_cons a q] at hcount
      obtain ⟨rfl, hrest⟩ := ih (Nat.add_left_cancel hcount) htail
      exact ⟨rfl, hrest⟩

section Cutting

variable {σ : Type} {step : σ → Char → σ} {resting : σ → Bool}

theorem mem_addOperand {word : List Char} {rest : List String} {q : String}
    (h : q ∈ addOperand word rest) :
    q = .ofList word.reverse ∨ q ∈ rest := by
  unfold addOperand at h
  split at h
  · exact .inr h
  · exact List.mem_cons.1 h

theorem addOperand_of_ne_nil {word : List Char} (h : word ≠ []) (rest : List String) :
    addOperand word rest = .ofList word.reverse :: rest := by
  simp [addOperand, h]

theorem weight_addOperand (word : List Char) (rest : List String) :
    weight (addOperand word rest) ≤ blanks word + 1 + weight rest := by
  unfold addOperand
  split
  · omega
  · rw [weight, String.toList_ofList, blanks_reverse]

theorem weight_cutFrom (s : σ) (word cs : List Char) :
    weight (cutFrom step resting s word cs) ≤ blanks word + blanks cs + 1 := by
  induction cs generalizing s word with
  | nil => exact weight_addOperand word []
  | cons c rest ih =>
    rw [cutFrom]
    split
    · next hcut =>
      have hhead := weight_addOperand word (cutFrom step resting s [] rest)
      have htail := ih s []
      rw [blanks_cons_of_blank (Bool.and_eq_true_iff.1 hcut).1]
      have hnil : blanks [] = 0 := rfl
      omega
    · have htail := ih (step s c) (c :: word)
      rw [blanks_cons] at htail ⊢
      omega

/-- A part fills the text, or else a blank is beside it. -/
theorem exists_of_mem_cutFrom {s : σ} {word cs : List Char} {q : String}
    (h : q ∈ cutFrom step resting s word cs) :
    ∃ front back, word.reverse ++ cs = front ++ q.toList ++ back ∧
      (blanks front = 0 → front = []) ∧ (blanks back = 0 → back = []) := by
  induction cs generalizing s word with
  | nil =>
    rcases mem_addOperand h with rfl | hnil
    · exact ⟨[], [], by simp, fun _ => rfl, fun _ => rfl⟩
    · cases hnil
  | cons c rest ih =>
    rw [cutFrom] at h
    split at h
    · next hcut =>
      have hblank := (Bool.and_eq_true_iff.1 hcut).1
      rcases mem_addOperand h with rfl | htail
      · refine ⟨[], c :: rest, by simp, fun _ => rfl, fun hzero => ?_⟩
        rw [blanks_cons_of_blank hblank] at hzero
        cases hzero
      · obtain ⟨front, back, heq, -, hback⟩ := ih htail
        refine ⟨word.reverse ++ c :: front, back, ?_, fun hzero => ?_, hback⟩
        · rw [List.reverse_nil, List.nil_append] at heq
          simp [heq]
        · rw [blanks_append, blanks_cons_of_blank hblank] at hzero
          omega
    · obtain ⟨front, back, heq, hsides⟩ := ih h
      exact ⟨front, back, by simpa using heq, hsides⟩

theorem exists_last_cutFrom {c : Char} (hc : Text.isBlank c = false) (s : σ) (word cs : List Char) :
    ∃ init x, cutFrom step resting s word (cs ++ [c]) = init ++ [.ofList (x ++ [c])] := by
  induction cs generalizing s word with
  | nil => exact ⟨[], word.reverse, by simp [cutFrom, hc, addOperand]⟩
  | cons d rest ih =>
    rw [List.cons_append, cutFrom]
    split
    · obtain ⟨init, x, heq⟩ := ih s []
      rw [heq]
      unfold addOperand
      split
      · exact ⟨init, x, rfl⟩
      · exact ⟨_ :: init, x, rfl⟩
    · exact ih (step s d) (d :: word)

theorem cutFrom_ne_nil {c : Char} (hc : Text.isBlank c = false) {s : σ} {word cs : List Char}
    (h : c ∈ word ++ cs) :
    cutFrom step resting s word cs ≠ [] := by
  have hword {word : List Char} (h : c ∈ word) (rest : List String) :
      addOperand word rest ≠ [] := by
    rw [addOperand_of_ne_nil (List.ne_nil_of_mem h)]
    exact List.cons_ne_nil _ _
  induction cs generalizing s word with
  | nil => exact hword (by simpa using h) []
  | cons d rest ih =>
    rw [cutFrom]
    split
    · next hcut =>
      rcases List.mem_append.1 h with hmem | hmem
      · exact hword hmem _
      · have hne : c ≠ d := by
          rintro rfl
          simp [hc] at hcut
        have hrest : c ∈ [] ++ rest := List.mem_of_ne_of_mem hne hmem
        unfold addOperand
        split
        · exact ih hrest
        · exact List.cons_ne_nil _ _
    · exact ih (by simpa [or_left_comm] using h)

/-- If no blank is lost, the parts are determined by their blanks. -/
theorem cutFrom_eq_of_join_eq {s : σ} {word cs : List Char} {words : List String}
    (hweight : weight (cutFrom step resting s word cs) = blanks word + blanks cs + 1)
    (hcount : List.Forall₂ (fun v w => blanks v.toList = blanks w.toList)
      (cutFrom step resting s word cs) words)
    (h : word.reverse ++ cs = (" ".intercalate words).toList) :
    cutFrom step resting s word cs = words := by
  induction cs generalizing s word words with
  | nil =>
    rcases eq_or_ne word [] with rfl | hword
    · cases hweight
    · rw [cutFrom, addOperand_of_ne_nil hword] at hcount ⊢
      obtain ⟨w, rest, -, hrest, rfl⟩ := List.forall₂_cons_left_iff.1 hcount
      cases hrest
      rw [List.append_nil, String.intercalate_singleton] at h
      rw [h, String.ofList_toList]
  | cons c rest ih =>
    rw [cutFrom] at hweight hcount ⊢
    split at hweight
    · next hcut =>
      rw [if_pos hcut] at hcount ⊢
      have hblank := (Bool.and_eq_true_iff.1 hcut).1
      have htail : weight (cutFrom step resting s [] rest) ≤ blanks [] + blanks rest + 1 :=
        weight_cutFrom s [] rest
      have hnil : blanks [] = 0 := rfl
      rw [blanks_cons_of_blank hblank] at hweight
      rcases eq_or_ne word [] with rfl | hword
      · -- a blank with no word before it would be lost
        have hlost : weight (addOperand [] (cutFrom step resting s [] rest))
          = weight (cutFrom step resting s [] rest) := rfl
        omega
      · rw [addOperand_of_ne_nil hword] at hweight hcount ⊢
        obtain ⟨w, words, hw, hwords, rfl⟩ := List.forall₂_cons_left_iff.1 hcount
        rw [weight, String.toList_ofList, blanks_reverse] at hweight
        have hne : words ≠ [] := by
          rintro rfl
          rw [List.forall₂_nil_right_iff.1 hwords, weight] at hweight
          omega
        rw [String.intercalate_cons_of_ne_nil hne, String.toList_append, String.toList_append,
          List.append_assoc] at h
        rw [String.toList_ofList] at hw
        obtain ⟨hfirst, -, hrest⟩ := eq_of_append_blank hblank Text.isBlank_space hw h
        rw [ih (by omega) hwords hrest, hfirst, String.ofList_toList]
    · next hcut =>
      rw [if_neg hcut] at hcount ⊢
      rw [blanks_cons] at hweight
      refine ih ?_ hcount ?_
      · rw [blanks_cons]
        omega
      · simpa using h

end Cutting

theorem blanks_escape (cs : List Char) : blanks (escape cs) = blanks cs := by
  have hquote : Text.isBlank '\'' = false := by decide
  induction cs with
  | nil => rfl
  | cons c rest ih =>
    rw [escape]
    split
    · next hc => rw [hc, blanks_cons_of_not_blank hquote, blanks_cons_of_not_blank hquote,
        blanks_cons_of_not_blank hquote, ih]
    · rw [blanks_cons, blanks_cons c rest, ih]

theorem blanks_quote (text : String) : blanks (quote text).toList = blanks text.toList := by
  have hquote : blanks "'".toList = 0 := by decide
  rw [quote, String.toList_append, String.toList_append, blanks_append, blanks_append, hquote,
    String.toList_ofList, blanks_escape]
  omega

theorem eq_of_unparen? {word inner : String} (h : unparen? word = some inner) :
    word = "(" ++ inner ++ ")" := by
  obtain ⟨rest, hrest, hinner⟩ := Option.bind_eq_some_iff.1 h
  rw [Text.eq_of_stripPrefix? hrest, Text.eq_of_stripSuffix? hinner, String.append_assoc]

theorem blanks_term (word : String) : blanks (term word).toList = blanks word.toList := by
  unfold term
  split
  · next name hname =>
    have hslash : blanks "/".toList = 0 := by decide
    rw [Text.eq_of_stripPrefix? hname, String.toList_append, blanks_append, hslash, Nat.zero_add]
  · split
    · next inner hinner =>
      have hopen : blanks "(".toList = 0 := by decide
      have hclose : blanks ")".toList = 0 := by decide
      rw [eq_of_unparen? hinner, blanks_quote, String.toList_append, String.toList_append,
        blanks_append, blanks_append, hopen, hclose]
      omega
    · rfl

theorem blanks_of_isOperator {word : String} (h : isOperator word = true) :
    blanks word.toList = 0 := by
  rw [blanks, List.countP_eq_zero]
  intro c hc hblank
  have hletter := isWordChar_of_isLower (isLower_of_isOperator h hc)
  simp [isWordChar, hblank] at hletter

theorem mem_of_logical? {word symbol : String} (h : logical? word = some symbol) :
    symbol ∈ ["AND", "OR", "NOT"] := by
  unfold logical? at h
  split at h <;> cases h <;> decide

theorem Writes.blanks_eq {o u : String} (h : Writes o u) : blanks o.toList = blanks u.toList := by
  cases h with
  | relation hsymbol =>
    have hfree : ∀ symbol ∈ relations, blanks symbol.toList = 0 := by decide
    rw [blanks_of_isOperator (by simp [isOperator, hsymbol]),
      hfree u (mem_relations_of_comparison? hsymbol)]
  | logical hsymbol =>
    have hfree : ∀ symbol ∈ ["AND", "OR", "NOT"], blanks symbol.toList = 0 := by decide
    rw [blanks_of_isOperator (by simp [isOperator, hsymbol]), hfree u (mem_of_logical? hsymbol)]
  | term => exact (blanks_term o).symm
  | wrapped =>
    have hname : s!"NOSPACE({o})".toList = "NOSPACE(".toList ++ (o.toList ++ ")".toList) := by
      simp [toString]
    have hopen : blanks "NOSPACE(".toList = 0 := by decide
    have hclose : blanks ")".toList = 0 := by decide
    rw [hname, blanks_append, blanks_append, hopen, hclose]
    omega

theorem Writes.quote_mem {o u : String} (h : Writes o u) (hquote : '\'' ∈ o.toList) :
    '\'' ∈ u.toList := by
  have hoperator : isOperator o = false := isOperator_of_mem (by decide) hquote
  cases h with
  | relation hsymbol => simp [comparison?_eq_none hoperator] at hsymbol
  | logical hsymbol => simp [logical?_eq_none hoperator] at hsymbol
  | term =>
    unfold Docdef.term
    split
    · next name hname =>
      rw [Text.eq_of_stripPrefix? hname] at hquote
      simpa using hquote
    · split
      · simp [quote]
      · exact hquote
  | wrapped => simp [toString, hquote]

theorem foldl_hoistStep_sublist (words hoisted top below : List String) :
    ∃ hoisted' top' below', words.foldl hoistStep (hoisted, top ++ below)
      = (hoisted', top' ++ below') ∧
      below' <:+ below ∧ top'.reverse.Sublist (top.reverse ++ words.filter (!isStep ·)) := by
  induction words generalizing hoisted top below with
  | nil => exact ⟨hoisted, top, below, rfl, List.suffix_refl _, by simp⟩
  | cons word rest ih =>
    rw [List.foldl_cons]
    cases hword : isStep word with
    | false =>
      rw [hoistStep_of_not_isStep hword, List.filter_cons_of_pos (by simp [hword])]
      obtain ⟨hoisted', top', below', heq, hbelow, htop⟩ := ih hoisted (word :: top) below
      exact ⟨hoisted', top', below', heq, hbelow, by simpa using htop⟩
    | true =>
      rw [List.filter_cons_of_neg (by simp [hword])]
      cases top with
      | nil =>
        cases below with
        | nil =>
          rw [List.append_nil, hoistStep_nil hword]
          exact ih hoisted [] []
        | cons operand below =>
          obtain ⟨statement, -, hstep⟩ := hoistStep_of_isStep hword hoisted operand below
          obtain ⟨hoisted', top', below', heq, hbelow, htop⟩ := ih (statement :: hoisted) [] below
          rw [List.nil_append, hstep]
          exact ⟨hoisted', top', below', heq, hbelow.trans (List.suffix_cons _ _), htop⟩
      | cons operand top =>
        obtain ⟨statement, -, hstep⟩ := hoistStep_of_isStep hword hoisted operand (top ++ below)
        obtain ⟨hoisted', top', below', heq, hbelow, htop⟩ := ih (statement :: hoisted) top below
        rw [List.cons_append, hstep]
        refine ⟨hoisted', top', below', heq, hbelow, htop.trans ?_⟩
        rw [List.reverse_cons, List.append_assoc]
        exact (List.sublist_append_right _ _).append_left _

/-- The text is one closed literal for the scanner. -/
def IsString (text : String) : Prop := Scanned.ofText text = ⟨[⟨.literal, text, {}, 0⟩], []⟩

theorem IsString.exists_stop {c : Char} {rest : List Char} {stop : Option Nat}
    {missing : Unterminated} (h : IsString (.ofList (c :: rest)))
    (hextent : Scan.extent c rest = .closed .literal rest stop missing) :
    ∃ n, stop = some n ∧ rest.length ≤ n := by
  rw [IsString, Scanned.ofText, String.toList_ofList, Scanned.read, hextent, Scanned.add] at h
  obtain ⟨htokens, hwarnings⟩ := Scanned.mk.inj h
  obtain ⟨-, htext, -⟩ := Token.mk.inj (List.cons.inj htokens).1
  cases stop with
  | none => simp [Scan.Extent.closed] at hwarnings
  | some n =>
    have hlength := congrArg (List.length ∘ String.toList) htext
    simp only [Function.comp_apply, String.toList_ofList, List.length_cons, List.length_take,
      Scan.Extent.closed] at hlength
    exact ⟨n, rfl, by omega⟩

theorem openBehind_of_parenEnd? {depth n : Nat} {cs : List Char}
    (h : Scan.parenEnd? depth (cs ++ [')']) = some n) (hn : cs.length + 1 ≤ n) :
    openBehind depth cs = some 0 := by
  induction cs generalizing depth n with
  | nil =>
    cases depth with
    | zero => rfl
    | succ depth => simp [Scan.parenEnd?] at h
  | cons c rest ih =>
    rw [List.length_cons] at hn
    by_cases hopen : c = '('
    · subst hopen
      obtain ⟨m, hm, rfl⟩ := Option.map_eq_some_iff.1 h
      exact ih hm (by omega)
    · by_cases hclose : c = ')'
      · subst hclose
        cases depth with
        | zero =>
          simp [Scan.parenEnd?] at h
          omega
        | succ depth =>
          obtain ⟨m, hm, rfl⟩ := Option.map_eq_some_iff.1 h
          exact ih hm (by omega)
      · have hcons : Scan.parenEnd? depth (c :: (rest ++ [')']))
            = (Scan.parenEnd? depth (rest ++ [')'])).map (· + 1) := by
          simp [Scan.parenEnd?, hclose]
        obtain ⟨m, hm, rfl⟩ := Option.map_eq_some_iff.1 (hcons.symm.trans h)
        simp only [openBehind, hopen, hclose, if_false]
        exact ih hm (by omega)

theorem not_mem_of_quoteEnd? {quote : Char} {n : Nat} {cs : List Char} (hcs : '\\' ∉ cs)
    (h : Scan.quoteEnd? quote (cs ++ [quote]) = some n) (hn : cs.length + 1 ≤ n) : quote ∉ cs := by
  induction cs generalizing n with
  | nil => exact List.not_mem_nil
  | cons c rest ih =>
    obtain ⟨hc, hrest⟩ := not_or.1 (List.mem_cons.not.1 hcs)
    have hcons : Scan.quoteEnd? quote (c :: (rest ++ [quote]))
        = if c = quote then some 1 else (Scan.quoteEnd? quote (rest ++ [quote])).map (· + 1) := by
      simp [Scan.quoteEnd?, Ne.symm hc]
    rw [List.length_cons] at hn
    rw [List.cons_append, hcons] at h
    split at h
    · cases h
      omega
    · next hne =>
      obtain ⟨m, hm, rfl⟩ := Option.map_eq_some_iff.1 h
      exact List.not_mem_cons_of_ne_of_not_mem (Ne.symm hne) (ih hrest hm (by omega))

theorem IsString.balanced {content : String} (h : IsString ("(" ++ content ++ ")")) :
    openBehind 0 content.toList = some 0 := by
  have htext : "(" ++ content ++ ")" = .ofList ('(' :: (content.toList ++ [')'])) := by
    simp [← String.toList_inj]
  rw [htext] at h
  obtain ⟨n, hstop, hn⟩ := h.exists_stop rfl
  exact openBehind_of_parenEnd? hstop (by simpa using hn)

theorem IsString.unquoted {content : String} (h : IsString ("'" ++ content ++ "'"))
    (hslash : '\\' ∉ content.toList) : '\'' ∉ content.toList := by
  have htext : "'" ++ content ++ "'" = .ofList ('\'' :: (content.toList ++ ['\''])) := by
    simp [← String.toList_inj]
  rw [htext] at h
  obtain ⟨n, hstop, hn⟩ := h.exists_stop rfl
  exact not_mem_of_quoteEnd? hslash hstop (by simpa using hn)

def compared (left : Operand) (op text : String) : String := " ".intercalate [left.text, op, text]

def lastOperand? (expression : String) : Option String := (operandsOf expression).getLast?

def quotedWords (content : String) : List String := splitOperands ("'" ++ content ++ "'")

def Untaken (word : String) : Prop :=
  word ∉ ignoredWords ∧ isStep word = false ∧ comparison? word = none

instance (word : String) : Decidable (Untaken word) := inferInstanceAs (Decidable (_ ∧ _))

/-- The words of a string in quotes are a blank apart, are written as they are and test no frame. -/
structure Plain (content : String) : Prop where
  joined : " ".intercalate (quotedWords content) = "'" ++ content ++ "'"
  untaken : ∀ word ∈ quotedWords content, Untaken word
  written : ∀ word ∈ quotedWords content, writeOperand word = word
  untested : frameLeft? (quotedWords content) = none

section Comparison

variable {left : Operand} {relation : Relation} {op : String}

theorem operandsIn_compared (lower : op.toLower = relation.word) (text : String) :
    operandsIn [compared left op text] = left.text :: op :: splitOperands text := by
  have hsolid : ∀ w ∈ [left.text, op], Solid parenStep outside 0 w := by
    simp only [List.forall_mem_cons]
    exact ⟨left.solid, solid_of_isOperator (relation.isOperator_eq lower), List.forall_mem_nil _⟩
  have hfold : foldLogical [compared left op text] = [compared left op text] := rfl
  have hcut := cutFrom_join_append rfl hsolid (List.cons_ne_nil text [])
  rw [String.intercalate_singleton] at hcut
  rw [operandsIn, hfold, String.intercalate_singleton, splitOperands, splitFrom_eq, splitOperands,
    splitFrom_eq]
  exact hcut

theorem remaining_compared (lower : op.toLower = relation.word) (text : String) :
    remaining [compared left op text]
      = (((splitOperands text).filter fun p => !ignoredWords.contains p).foldl hoistStep
          ([], [op, left.text])).2.reverse := by
  have hleft := left.notReserved
  have hop := notReserved_of_isOperator (relation.isOperator_eq lower)
  have hfilter : ((left.text :: op :: splitOperands text).filter fun p => !ignoredWords.contains p)
      = left.text :: op :: (splitOperands text).filter fun p => !ignoredWords.contains p := by
    simp [notIgnored_of_notReserved hleft, notIgnored_of_notReserved hop]
  rw [remaining, operandsIn_compared lower, hfilter, List.foldl_cons, List.foldl_cons,
    hoistStep_of_not_isStep (isStep_of_notReserved hleft),
    hoistStep_of_not_isStep (isStep_of_notReserved hop)]

theorem remaining_of_untaken (lower : op.toLower = relation.word) {text : String}
    (h : ∀ word ∈ splitOperands text, word ∉ ignoredWords ∧ isStep word = false) :
    remaining [compared left op text] = left.text :: op :: splitOperands text := by
  have hfilter :
      ((splitOperands text).filter fun p => !ignoredWords.contains p) = splitOperands text := by
    rw [List.filter_eq_self]
    intro word hword
    simpa using (h word hword).1
  rw [remaining_compared lower, hfilter, foldl_hoistStep fun word hword => (h word hword).2]
  simp

theorem frameLeft?_compared (lower : op.toLower = relation.word) (words : List String) :
    frameLeft? (left.text :: op :: words) = frameLeft? words := by
  rw [frameLeft?_cons left.notReserved,
    frameLeft?_cons (notReserved_of_isOperator (relation.isOperator_eq lower))]

theorem readable_left (hleft : Readable left.written) {word : String} (h : Writes left.text word) :
    Readable word := by
  cases h with
  | relation hsymbol => simp [comparison?_eq_none left.isOperator_text] at hsymbol
  | logical hsymbol => simp [logical?_eq_none left.isOperator_text] at hsymbol
  | term =>
    rw [left.term_text]
    exact hleft
  | wrapped hvariable =>
    obtain ⟨w, rfl, hname⟩ := Operand.eq_word_of_startsVariable hvariable
    rw [Operand.written, hname] at hleft
    exact readable_wrapped hleft

theorem readable_relation (lower : op.toLower = relation.word) {word : String}
    (h : Writes op word) :
    Readable word := by
  have hoperator := relation.isOperator_eq lower
  cases h with
  | relation hsymbol =>
    rw [relation.comparison?_eq lower] at hsymbol
    obtain rfl := Option.some.inj hsymbol
    cases relation <;> exact ⟨by decide, by decide⟩
  | logical hsymbol =>
    have hnone : logical? op = none := by
      unfold logical?
      rw [lower]
      cases relation <;> rfl
    simp [hnone] at hsymbol
  | term hword => simp [hword] at hoperator
  | wrapped hname => simp [isOperator_of_startsVariable hname] at hoperator

theorem lastOperand?_join {front back : List String} (h : ∀ w ∈ front, Readable w)
    (hback : '\'' ∈ (" ".intercalate back).toList) :
    lastOperand? (" ".intercalate (front ++ back)) = lastOperand? (" ".intercalate back) := by
  have hne : back ≠ [] := by
    rintro rfl
    simp at hback
  have hread : operandsOf (" ".intercalate back) ≠ [] :=
    cutFrom_ne_nil (by decide) (List.mem_append_right _ hback)
  have hcut :
      operandsOf (" ".intercalate (front ++ back)) = front ++ operandsOf (" ".intercalate back) :=
    cutFrom_join_append rfl h hne
  rw [lastOperand?, hcut, List.getLast?_append_of_ne_nil _ hread, lastOperand?]

end Comparison

theorem Writes.self {word written : String} (h : Writes word written) (heq : written = word) :
    comparison? word = none ∧ writeOperand word = word := by
  cases h with
  | relation hsymbol =>
    have hnone : ∀ symbol ∈ relations, comparison? symbol = none := by decide +kernel
    rw [← heq, hnone written (mem_relations_of_comparison? hsymbol)] at hsymbol
    cases hsymbol
  | logical hsymbol =>
    have hnone : ∀ symbol ∈ ["AND", "OR", "NOT"], comparison? symbol = none := by decide +kernel
    refine ⟨heq ▸ hnone written (mem_of_logical? hsymbol), ?_⟩
    rw [writeOperand, hsymbol, Option.getD_some, heq]
  | term hword =>
    refine ⟨comparison?_eq_none hword, ?_⟩
    rw [writeOperand, logical?_eq_none hword, Option.getD_none, heq]
  | wrapped =>
    have hlength := congrArg (List.length ∘ String.toList) heq
    simp only [Function.comp_apply, toString, String.toList_append, List.length_append] at hlength
    have hopen : "NOSPACE(".toList.length = 8 := by decide
    omega

theorem quote_of_not_mem {content : String} (h : '\'' ∉ content.toList) :
    quote content = "'" ++ content ++ "'" := by
  have hescape : ∀ cs : List Char, '\'' ∉ cs → escape cs = cs := by
    intro cs hcs
    induction cs with
    | nil => rfl
    | cons c rest ih =>
      obtain ⟨hc, hrest⟩ := not_or.1 (List.mem_cons.not.1 hcs)
      rw [escape, if_neg (Ne.symm hc), ih hrest]
  rw [quote, hescape _ h, String.ofList_toList]

theorem convertFrom_of_none {rest : List String} (h : ∀ word ∈ rest, comparison? word = none)
    (done : List String) :
    convertFrom done rest = done.reverse ++ rest := by
  induction rest generalizing done with
  | nil => rw [convertFrom, List.append_nil]
  | cons word rest ih =>
    obtain ⟨hword, hrest⟩ := List.forall_mem_cons.1 h
    rw [convertFrom, hword, ih hrest]
    simp

section Quoted

variable {left : Operand} {relation : Relation} {op content : String}

theorem convertOperators_compared (left : Operand) (lower : op.toLower = relation.word)
    {words : List String} (h : ∀ word ∈ words, comparison? word = none) :
    ∃ word, convertOperators (left.text :: op :: words) = [word, relation.symbol] ++ words := by
  have hop := relation.comparison?_eq lower
  rw [convertOperators, convertFrom, comparison?_eq_none left.isOperator_text]
  cases words with
  | nil => exact ⟨left.text, by simp [convertFrom, hop]⟩
  | cons next rest =>
    rw [convertFrom, hop]
    dsimp only
    split
    · exact ⟨_, convertFrom_of_none h _⟩
    · exact ⟨_, convertFrom_of_none h _⟩

/-- If no word of a text is taken, the expression ends with these words as they are written. -/
theorem lastOperand?_of_untaken (hleft : Readable left.written) (lower : op.toLower = relation.word)
    {text : String} (h : ∀ word ∈ splitOperands text, Untaken word)
    (hframe : frameLeft? (splitOperands text) = none)
    (hwritten : " ".intercalate ((splitOperands text).map writeOperand) = quote content) :
    lastOperand? (ofAtoms [compared left op text]).expression = some (quote content) := by
  have hremaining : remaining [compared left op text] = left.text :: op :: splitOperands text :=
    remaining_of_untaken lower fun word hword => ⟨(h word hword).1, (h word hword).2.1⟩
  obtain ⟨first, hconvert⟩ :=
    convertOperators_compared left lower fun word hword => (h word hword).2.2
  have hwrites := convertOperators_writes (left.text :: op :: splitOperands text)
  rw [hconvert, List.map_append] at hwrites
  obtain ⟨hfirst, hsecond⟩ := List.forall₂_cons.1 hwrites
  have hfront : ∀ w ∈ [first, relation.symbol].map writeOperand, Readable w :=
    List.forall_mem_cons.2 ⟨readable_left hleft hfirst,
      List.forall_mem_singleton.2 (readable_relation lower (List.forall₂_cons.1 hsecond).1)⟩
  have hback : '\'' ∈ (" ".intercalate ((splitOperands text).map writeOperand)).toList := by
    simp [hwritten, quote]
  have hread : operandsOf (quote content) = [quote content] := by
    have hcut := cutFrom_join rfl (List.forall_mem_singleton.2 (readable_quote content))
    rwa [String.intercalate_singleton] at hcut
  rw [ofAtoms_expression, hremaining, frameLeft?_compared lower, hframe, Option.getD_none, hconvert,
    List.map_append, lastOperand?_join hfront hback, hwritten, lastOperand?, hread]
  rfl

theorem Plain.lastOperand?_eq (h : Plain content) (hcontent : '\'' ∉ content.toList)
    (hleft : Readable left.written) (lower : op.toLower = relation.word) :
    lastOperand? (ofAtoms [compared left op ("'" ++ content ++ "'")]).expression
      = some (quote content) := by
  refine lastOperand?_of_untaken hleft lower h.untaken h.untested ?_
  have hsame : (quotedWords content).map writeOperand = quotedWords content := by
    rw [List.map_congr_left h.written, List.map_id']
  show " ".intercalate ((quotedWords content).map writeOperand) = quote content
  rw [hsame, h.joined, quote_of_not_mem hcontent]

theorem lastOperand?_parenthesized (balanced : openBehind 0 content.toList = some 0)
    (hleft : Readable left.written) (lower : op.toLower = relation.word) :
    lastOperand? (ofAtoms [compared left op ("(" ++ content ++ ")")]).expression
      = some (quote content) := by
  let right : Operand := .literal content balanced
  have hsplit : splitOperands right.text = [right.text] := by
    have hcut := cutFrom_join rfl (List.forall_mem_singleton.2 right.solid)
    rwa [String.intercalate_singleton, ← splitFrom_eq] at hcut
  have hreserved := right.notReserved
  have huntaken : Untaken right.text :=
    ⟨notIgnored_of_notReserved hreserved, isStep_of_notReserved hreserved,
      comparison?_eq_none right.isOperator_text⟩
  show lastOperand? (ofAtoms [compared left op right.text]).expression = some (quote content)
  refine lastOperand?_of_untaken hleft lower ?_ ?_ ?_
  · rw [hsplit]
    exact List.forall_mem_singleton.2 huntaken
  · rw [hsplit]
    exact frameLeft?_of_notReserved (List.forall_mem_singleton.2 hreserved)
  · rw [hsplit, List.map_singleton, String.intercalate_singleton]
    exact writeOperand_operand right

/-- Steps take words from the end of what is before them, but not the last word. -/
theorem exists_remaining (left : Operand) (lower : op.toLower = relation.word) {text : String}
    {front : List Char} (htext : text.toList = front ++ ['\'']) :
    ∃ base kept : List String, remaining [compared left op text] = base ++ kept ∧
      base <+: [left.text, op] ∧
      kept.Sublist (standing (splitOperands text)) ∧ ∃ word ∈ kept, '\'' ∈ word.toList := by
  have hsplit : ∃ init x, splitOperands text = init ++ [.ofList (x ++ ['\''])] := by
    rw [splitOperands, splitFrom_eq, htext]
    exact exists_last_cutFrom (by decide) 0 [] front
  obtain ⟨init, x, hsplit⟩ := hsplit
  have hquote : '\'' ∈ (String.ofList (x ++ ['\''])).toList := by simp
  generalize String.ofList (x ++ ['\'']) = last at hsplit hquote
  have hlast : last ∉ reservedWords := by
    have hfree : ∀ w ∈ reservedWords, '\'' ∉ w.toList := by decide
    exact fun hmem => hfree last hmem hquote
  have hignored := notIgnored_of_notReserved hlast
  have hstep := isStep_of_notReserved hlast
  obtain ⟨hoisted, top, below, hfold, hbelow, htop⟩ :=
    foldl_hoistStep_sublist (init.filter fun p => !ignoredWords.contains p) [] [] [op, left.text]
  rw [List.nil_append] at hfold
  refine ⟨below.reverse, top.reverse ++ [last], ?_, ?_, ?_, last, by simp, hquote⟩
  · rw [remaining_compared lower, hsplit, List.filter_append, List.foldl_append, hfold]
    simp [hignored, hoistStep_of_not_isStep hstep]
  · exact List.reverse_prefix.2 hbelow
  · rw [List.reverse_nil, List.nil_append, List.filter_filter] at htop
    rw [standing, hsplit, List.filter_append]
    refine htop.append ?_
    simp [hstep, hignored]

theorem exists_written (hleft : Readable left.written) (lower : op.toLower = relation.word)
    {text : String} {front : List Char} (htext : text.toList = front ++ ['\''])
    (hframe : IsEmpty (FrameTest (remaining [compared left op text]))) :
    ∃ kept words : List String, kept.Sublist (standing (splitOperands text)) ∧
      List.Forall₂ Writes kept words ∧ words ≠ [] ∧
      lastOperand? (ofAtoms [compared left op text]).expression
        = lastOperand? (" ".intercalate words) := by
  obtain ⟨base, kept, hremaining, hbase, hkept, last, hlast, hquote⟩ :=
    exists_remaining left lower htext
  obtain ⟨words, hwrites, hexpression⟩ := expression_of_isEmpty hframe
  rw [hremaining] at hwrites
  have hfront : List.Forall₂ Writes base (words.take base.length) := by
    simpa using List.forall₂_take base.length hwrites
  have hback : List.Forall₂ Writes kept (words.drop base.length) := by
    simpa using List.forall₂_drop base.length hwrites
  obtain ⟨word, hword, hlastWrites⟩ := exists_of_forall₂ hback hlast
  refine ⟨kept, words.drop base.length, hkept, hback, List.ne_nil_of_mem hword, ?_⟩
  have hreadable : ∀ w ∈ words.take base.length, Readable w := by
    intro w hw
    obtain ⟨source, hsource, hwrite⟩ := exists_of_forall₂ hfront.flip hw
    rcases List.mem_pair.1 (hbase.subset hsource) with rfl | rfl
    · exact readable_left hleft hwrite
    · exact readable_relation lower hwrite
  have hquoted : '\'' ∈ (" ".intercalate (words.drop base.length)).toList :=
    (isInfix_join hword).subset (hlastWrites.quote_mem hquote)
  rw [hexpression, ← lastOperand?_join hreadable hquoted, List.take_append_drop]

/-- A string that is read at the end was written from all of its words, each as it is. -/
theorem eq_of_lastOperand? {text : String} {kept words : List String}
    (hkept : kept.Sublist (standing (splitOperands text)))
    (hwrites : List.Forall₂ Writes kept words) (hne : words ≠ [])
    (h : lastOperand? (" ".intercalate words) = some text) :
    kept = splitOperands text ∧ words = splitOperands text ∧ " ".intercalate words = text := by
  have hblanks : List.Forall₂ (fun v w => blanks v.toList = blanks w.toList) kept words :=
    hwrites.imp fun _ _ hw => hw.blanks_eq
  have hsub : kept.Sublist (splitOperands text) := hkept.trans List.filter_sublist
  have hsplit : splitOperands text = cutFrom parenStep outside 0 [] text.toList := by
    rw [splitOperands, splitFrom_eq]
  have hle : weight (splitOperands text) ≤ blanks [] + blanks text.toList + 1 :=
    hsplit ▸ weight_cutFrom 0 [] _
  have hnil : blanks [] = 0 := rfl
  obtain ⟨front, back, hjoin, hfront, hback⟩ := exists_of_mem_cutFrom (List.mem_of_getLast? h)
  -- what is written has no more blanks than the words, and they have no more than the text
  have hcount := blanks_join hne
  have hweight := weight_eq_of_forall₂ hblanks
  have hsubweight := weight_sublist hsub
  rw [List.reverse_nil, List.nil_append] at hjoin
  rw [hjoin, blanks_append, blanks_append] at hcount
  rw [hfront (by omega), hback (by omega), List.nil_append, List.append_nil, String.toList_inj]
    at hjoin
  obtain rfl := hsubweight.2 (by omega)
  refine ⟨rfl, ?_, hjoin⟩
  rw [hsplit] at hblanks hweight hle hsubweight ⊢
  exact (cutFrom_eq_of_join_eq (by omega) hblanks (by simp [hjoin])).symm

theorem lastOperand?_frameTest (test threshold front : String) :
    lastOperand? (frameTest test threshold) ≠ some (front ++ "'") := by
  have hclose : Text.isBlank ')' = false := by decide
  obtain ⟨init, x, hcut⟩ := exists_last_cutFrom hclose false []
    ("$SL_MAXY" ++ test ++ "$LP_HEIGHT-MM(" ++ threshold).toList
  have hread : operandsOf (frameTest test threshold) = init ++ [.ofList (x ++ [')'])] := by
    rw [operandsOf, frameTest, String.toList_append]
    exact hcut
  rw [lastOperand?, hread, List.getLast?_concat]
  intro heq
  have hlast := congrArg (List.getLast? ∘ String.toList) (Option.some.inj heq)
  simp at hlast

theorem plain_of_lastOperand? (hcontent : '\'' ∉ content.toList) (hleft : Readable left.written)
    (lower : op.toLower = relation.word)
    (h : lastOperand? (ofAtoms [compared left op ("'" ++ content ++ "'")]).expression
      = some (quote content)) :
    Plain content := by
  have htext : ("'" ++ content ++ "'").toList = ('\'' :: content.toList) ++ ['\''] := by simp
  rw [quote_of_not_mem hcontent] at h
  rcases isEmpty_or_nonempty (FrameTest (remaining [compared left op ("'" ++ content ++ "'")]))
    with hframe | ⟨⟨t⟩⟩
  · obtain ⟨kept, words, hkept, hwrites, hne, hlast⟩ := exists_written hleft lower htext hframe
    rw [hlast] at h
    obtain ⟨rfl, rfl, hjoin⟩ := eq_of_lastOperand? hkept hwrites hne h
    have hstanding : ∀ word ∈ quotedWords content, word ∉ ignoredWords ∧ isStep word = false := by
      intro word hword
      have hfilter := (List.mem_filter.1 (hkept.subset hword)).2
      simpa [and_comm] using hfilter
    have hself : ∀ word ∈ quotedWords content, comparison? word = none ∧ writeOperand word = word :=
      fun word hword => (List.forall₂_same.1 hwrites word hword).self rfl
    refine ⟨hjoin, fun word hword => ?_, fun word hword => (hself word hword).2, ?_⟩
    · exact ⟨(hstanding word hword).1, (hstanding word hword).2, (hself word hword).1⟩
    · rw [← frameLeft?_compared lower, ← isEmpty_frameTest_iff]
      rwa [remaining_of_untaken lower hstanding] at hframe
  · rw [t.expression_eq] at h
    obtain ⟨test, threshold, htest⟩ := t.tests.eq_frameTest
    exact absurd (htest ▸ h) (lastOperand?_frameTest test threshold _)

end Quoted

/-- A comparison with a string in parentheses ends with the literal of its content. With a string in
quotes it does so if and only if the content is plain. -/
theorem literal_kept_iff {left : Operand} (hleft : Readable left.written) {relation : Relation}
    {op : String} (lower : op.toLower = relation.word) (content : String) :
    (IsString ("(" ++ content ++ ")") →
      lastOperand? (ofAtoms [compared left op ("(" ++ content ++ ")")]).expression
        = some (quote content)) ∧
    (IsString ("'" ++ content ++ "'") → '\\' ∉ content.toList →
      (lastOperand? (ofAtoms [compared left op ("'" ++ content ++ "'")]).expression
        = some (quote content) ↔ Plain content)) := by
  refine ⟨fun hstring => lastOperand?_parenthesized hstring.balanced hleft lower,
    fun hstring hslash => ?_⟩
  have hcontent := hstring.unquoted hslash
  exact ⟨plain_of_lastOperand? hcontent hleft lower,
    fun h => h.lastOperand?_eq hcontent hleft lower⟩

/-- Words, a connective in capitals and blanks inside parentheses. -/
theorem literal_kept_iff_words :
    let left : Operand := .word { text := "VAR_TERMS" }
    let content : String := "NET 30 AND (no  MM)"
    quotedWords content = ["'NET", "30", "AND", "(no  MM)'"] ∧
    lastOperand? (ofAtoms [compared left "Eq" "(NET 30 AND (no  MM))"]).expression
      = some (quote content) ∧
    lastOperand? (ofAtoms [compared left "Eq" "'NET 30 AND (no  MM)'"]).expression
      = some (quote content) := by
  intro left content
  have hplain : Plain content :=
    ⟨by decide +kernel, by decide +kernel, by decide +kernel, by decide +kernel⟩
  have hleft : Readable left.written := ⟨by decide +kernel, by decide +kernel⟩
  have hkept := literal_kept_iff hleft (by decide +kernel : "Eq".toLower = Relation.eq.word) content
  have hparen : IsString ("(" ++ content ++ ")") := by
    unfold IsString
    decide +kernel
  have hquoted : IsString ("'" ++ content ++ "'") := by
    unfold IsString
    decide +kernel
  exact ⟨by decide +kernel, hkept.1 hparen, (hkept.2 hquoted (by decide)).2 hplain⟩

/-- The unit is dropped out of the string, and a word of it is taken for a connective. -/
theorem quoted_words_changed :
    let content : String := "10 MM and more"
    compared (.word { text := "VAR_SIZE" }) "eq" ("'" ++ content ++ "'")
      = "VAR_SIZE eq '10 MM and more'" ∧
    IsString ("'" ++ content ++ "'") ∧ '\\' ∉ content.toList ∧
    ofAtoms ["VAR_SIZE eq '10 MM and more'"] = ⟨[], "NOSPACE(VAR_SIZE) == '10 AND more'", true⟩ ∧
    lastOperand? "NOSPACE(VAR_SIZE) == '10 AND more'" = some "'10 AND more'" ∧
    quote content = "'10 MM and more'" := by
  intro content
  have hquoted : IsString ("'" ++ content ++ "'") := by
    unfold IsString
    decide +kernel
  exact ⟨by decide +kernel, hquoted, by decide, by decide +kernel, by decide +kernel,
    by decide +kernel⟩

end VippDocdef.Docdef
