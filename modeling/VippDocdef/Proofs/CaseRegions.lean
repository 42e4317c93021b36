import Mathlib.Data.List.Chain
import Mathlib.Data.List.Nodup
import VippDocdef.Document.Build
import VippDocdef.Proofs.Blocks
import VippDocdef.Proofs.Formulas

/-! Case regions. What a region holds is a sequence of stretches that are read as wholes, whatever
stands inside their blocks; a region of labels with their blocks gives exactly these back, and of
several cases with one key the last one counts, in the place of the first. -/

set_option autoImplicit false

namespace VippDocdef

instance : Append Regions where
  append r s := ⟨r.outside ++ s.outside, r.unlabeled ++ s.unlabeled, r.labeled ++ s.labeled⟩

namespace Regions

theorem append_def (r s : Regions) :
    r ++ s = ⟨r.outside ++ s.outside, r.unlabeled ++ s.unlabeled, r.labeled ++ s.labeled⟩ := rfl

@[simp] theorem outside_append (r s : Regions) : (r ++ s).outside = r.outside ++ s.outside := rfl

@[simp] theorem unlabeled_append (r s : Regions) :
    (r ++ s).unlabeled = r.unlabeled ++ s.unlabeled := rfl

@[simp] theorem labeled_append (r s : Regions) : (r ++ s).labeled = r.labeled ++ s.labeled := rfl

@[simp] theorem empty_append (r : Regions) : ({} : Regions) ++ r = r := rfl

@[simp] theorem append_empty (r : Regions) : r ++ ({} : Regions) = r := by
  simp only [append_def, List.append_nil]

theorem append_assoc (r s u : Regions) : r ++ s ++ u = r ++ (s ++ u) := by
  simp only [append_def, List.append_assoc]

/-- What a block without a label gives: a bare pair of braces is the default case. -/
def ofBlock (body : List Token) : Regions :=
  if body = [] then { labeled := [(defaultKey, [])] } else { unlabeled := [body] }

/-- What is read behind a label: the next block is its body, and the region goes on behind it. -/
def behindLabel (key : String) (ts : List Token) : Regions :=
  match afterBrace? ts with
  | some body =>
    { labeled := [(key, (splitBracket "\x7b" body).1)] } ++ read true (splitBracket "\x7b" body).2
  | none => { labeled := [(key, [])] }

variable {t : Token} {ts : List Token}

theorem read_nil (inside : Bool) : read inside [] = {} := by rw [read]

theorem read_outside (h : opensRegion (t :: ts) = false) :
    read false (t :: ts) = { outside := [t] } ++ read false ts := by
  rw [read]
  simp [h, append_def]

theorem read_opens {c p : Token} (hc : c.isWord "CASE" = true) (hp : p.isWord "PREFIX" = true) :
    read false (c :: p :: ts) = read true ts := by
  rw [read]
  simp [opensRegion, hc, hp]

theorem read_leave (h : RegionStep.ofToken t = .leave) : read true (t :: ts) = read false ts := by
  rw [read]
  simp [h]

theorem read_skip (h : RegionStep.ofToken t = .skip) : read true (t :: ts) = read true ts := by
  rw [read]
  simp [h]

theorem read_label {key : String} (h : RegionStep.ofToken t = .label key) :
    read true (t :: ts) = behindLabel key ts := by
  rw [read, behindLabel]
  simp only [h, Bool.not_true, Bool.false_eq_true, if_false]
  split
  · next body hbody =>
    simp only [hbody]
    rfl
  · next hnone =>
    simp only [hnone]

theorem ofToken_opening (h : t.isDelimiter "\x7b" = true) : RegionStep.ofToken t = .brace := by
  have hkind : t.kind = .delimiter := by simpa using (Bool.and_eq_true_iff.1 h).1
  simp [RegionStep.ofToken, Token.isWord, Token.caseLabel?, hkind, h]

theorem read_block {o c : Token} {body after : List Token} (ho : o.isDelimiter "\x7b" = true)
    (hbody : Bracket.brace.Balanced body) (hc : c.isDelimiter "\x7d" = true) :
    read true (o :: (body ++ c :: after)) = ofBlock body ++ read true after := by
  have hsplit : splitBracket "\x7b" (body ++ c :: after) = (body, after) :=
    Bracket.splitBracket_balanced hbody hc after
  rw [read]
  simp only [ofToken_opening ho, Bool.not_true, Bool.false_eq_true, if_false, hsplit]
  cases body with
  | nil => simp [isEmptyBlock, hc, ofBlock, append_def]
  | cons u body =>
    -- a balanced inside does not begin with the delimiter that closes it
    have hu : u.isDelimiter "\x7d" = false := by
      have hfirst := (Bracket.within_cons.1 hbody.within).1
      simpa [Bracket.closing] using hfirst
    simp [isEmptyBlock, hu, ofBlock, append_def]

theorem afterBrace?_append {gap : List Token} (h : ∀ t ∈ gap, t.isDelimiter "\x7b" = false)
    (more : List Token) : afterBrace? (gap ++ more) = afterBrace? more := by
  induction gap with
  | nil => rfl
  | cons t gap ih =>
    obtain ⟨ht, hgap⟩ := List.forall_mem_cons.1 h
    simp [afterBrace?, ht, ih hgap]

/-- A piece of a region that is read as a whole, whatever follows it, and what it gives. -/
inductive Piece : List Token → Regions → Prop where
  | skip {t : Token} (skipped : RegionStep.ofToken t = .skip) : Piece [t] {}
  | block {o c : Token} {body : List Token} (opening : o.isDelimiter "\x7b" = true)
      (balanced : Bracket.brace.Balanced body) (closing : c.isDelimiter "\x7d" = true) :
      Piece (o :: (body ++ [c])) (ofBlock body)
  | labeled {l o c : Token} {key : String} {gap body : List Token}
      (label : RegionStep.ofToken l = .label key) (bare : ∀ t ∈ gap, t.isDelimiter "\x7b" = false)
      (opening : o.isDelimiter "\x7b" = true) (balanced : Bracket.brace.Balanced body)
      (closing : c.isDelimiter "\x7d" = true) :
      Piece (l :: (gap ++ o :: (body ++ [c]))) { labeled := [(key, body)] }

inductive Stretch : List Token → Regions → Prop where
  | nil : Stretch [] {}
  | cons {first rest : List Token} {r s : Regions} (piece : Piece first r) (next : Stretch rest s) :
      Stretch (first ++ rest) (r ++ s)

theorem Piece.read_append {r : Regions} (h : Piece ts r) (more : List Token) :
    read true (ts ++ more) = r ++ read true more := by
  cases h with
  | skip skipped => exact read_skip skipped
  | block opening balanced closing =>
    rw [List.cons_append, List.append_assoc]
    exact read_block opening balanced closing
  | @labeled l o c key gap body label bare opening balanced closing =>
    have hnext : afterBrace? (gap ++ o :: (body ++ c :: more)) = some (body ++ c :: more) := by
      rw [afterBrace?_append bare, afterBrace?, if_pos opening]
    have hsplit : splitBracket "\x7b" (body ++ c :: more) = (body, more) :=
      Bracket.splitBracket_balanced balanced closing more
    rw [List.cons_append, List.append_assoc, List.cons_append, List.append_assoc,
      List.singleton_append, read_label label]
    simp only [behindLabel, hnext, hsplit]

theorem Stretch.read_append {r : Regions} (h : Stretch ts r) (more : List Token) :
    read true (ts ++ more) = r ++ read true more := by
  induction h with
  | nil => rfl
  | cons piece _ ih => rw [List.append_assoc, piece.read_append, ih, Regions.append_assoc]

theorem Stretch.read_eq {r : Regions} (h : Stretch ts r) : read true ts = r := by
  have hread := h.read_append []
  rwa [List.append_nil, read_nil, append_empty] at hread

def Plain (ts : List Token) : Prop :=
  ts.IsChain fun t u => ¬ (t.isWord "CASE" = true ∧ u.isWord "PREFIX" = true)

theorem read_plain (h : Plain ts) {more : List Token}
    (hmore : ∀ t ∈ more.head?, t.isWord "PREFIX" = false) :
    read false (ts ++ more) = { outside := ts } ++ read false more := by
  induction ts with
  | nil => rfl
  | cons t ts ih =>
    obtain ⟨hfirst, hts⟩ := List.isChain_cons.1 h
    have hopens : opensRegion (t :: (ts ++ more)) = false := by
      cases ts with
      | nil =>
        cases more with
        | nil => rfl
        | cons u more => simp [opensRegion, hmore u rfl]
      | cons u ts => simpa [opensRegion] using hfirst u rfl
    rw [List.cons_append, read_outside hopens, ih hts]
    rfl

theorem not_prefix_of_case {c : Token} (h : c.isWord "CASE" = true) :
    c.isWord "PREFIX" = false := by
  have htext : c.text = "CASE" := by simpa using (Bool.and_eq_true_iff.1 h).2
  simp [Token.isWord, htext]

theorem read_region (h : Plain ts) {c p : Token} (hc : c.isWord "CASE" = true)
    (hp : p.isWord "PREFIX" = true) (more : List Token) :
    read false (ts ++ c :: p :: more) = { outside := ts } ++ read true more := by
  have hhead : ∀ t ∈ (c :: p :: more).head?, t.isWord "PREFIX" = false := by
    intro t ht
    obtain rfl := Option.some.inj ht
    exact not_prefix_of_case hc
  rw [read_plain h hhead, read_opens hc hp]

theorem read_plain_all (h : Plain ts) : read false ts = { outside := ts } := by
  have hread : read false (ts ++ []) = { outside := ts } ++ read false [] := read_plain h (by simp)
  rwa [List.append_nil, read_nil, append_empty] at hread

theorem ofToken_endCase (h : t.isWord "ENDCASE" = true) : RegionStep.ofToken t = .leave := by
  simp [RegionStep.ofToken, h]

end Regions

theorem RegionStep.ofToken_eq_label_iff {t : Token} {key : String} :
    RegionStep.ofToken t = .label key ↔ t.caseLabel? = some key := by
  constructor
  · intro h
    unfold RegionStep.ofToken at h
    split at h
    · cases h
    · cases hlabel : t.caseLabel? with
      | some other =>
        simp only [hlabel, RegionStep.label.injEq] at h
        rw [h]
      | none =>
        simp only [hlabel] at h
        split at h <;> cases h
  · intro h
    -- a label is a literal, so it is no word
    have hkind : t.kind = .literal := by
      unfold Token.caseLabel? at h
      split at h
      · assumption
      · cases h
    simp [RegionStep.ofToken, Token.isWord, hkind, h]

/-- A case as it stands in a region: a label, and a block in braces. -/
structure CaseText where
  label : Token
  key : String
  opening : Token
  body : List Token
  closing : Token
  isLiteral : label.kind = .literal
  text_eq : label.text = "(" ++ key ++ ")"
  noSpace : ' ' ∉ key.toList
  noDot : '.' ∉ key.toList
  opens : opening.isDelimiter "\x7b" = true
  balanced : Bracket.brace.Balanced body
  closes : closing.isDelimiter "\x7d" = true

namespace CaseText

def tokens (e : CaseText) : List Token := e.label :: e.opening :: (e.body ++ [e.closing])

def entry (e : CaseText) : String × List Token := (e.key, e.body)

theorem ofToken_label (e : CaseText) : RegionStep.ofToken e.label = .label e.key := by
  rw [RegionStep.ofToken_eq_label_iff, Token.caseLabel?, if_pos e.isLiteral, e.text_eq,
    Docdef.unparen?_paren]
  simp [e.noSpace, e.noDot]

end CaseText

theorem Regions.stretch_cases (entries : List CaseText) :
    Stretch (entries.flatMap CaseText.tokens) { labeled := entries.map CaseText.entry } := by
  induction entries with
  | nil => exact .nil
  | cons e entries ih =>
    exact .cons (.labeled e.ofToken_label (List.forall_mem_nil _) e.opens e.balanced e.closes) ih

theorem map_key_putCase (c : Case) (cases : List Case) : (putCase c cases).map Case.key =
    if c.key ∈ cases.map Case.key then cases.map Case.key else cases.map Case.key ++ [c.key] := by
  induction cases with
  | nil => simp [putCase]
  | cons d ds ih =>
    unfold putCase
    by_cases hkey : d.key = c.key
    · simp [hkey]
    · have hne : c.key ≠ d.key := fun h => hkey h.symm
      simp only [hkey, if_false, List.map_cons, ih, List.mem_cons, hne, false_or]
      split <;> rfl

theorem nodup_map_key_putCase {cases : List Case} (h : (cases.map Case.key).Nodup) (c : Case) :
    ((putCase c cases).map Case.key).Nodup := by
  rw [map_key_putCase]
  split
  · exact h
  · next hkey => exact List.nodup_append'.2 ⟨h, List.nodup_singleton _, by simpa using hkey⟩

theorem mem_putCase_iff {cases : List Case} (h : (cases.map Case.key).Nodup) {c x : Case} :
    x ∈ putCase c cases ↔ x = c ∨ x ∈ cases ∧ x.key ≠ c.key := by
  induction cases with
  | nil => simp [putCase]
  | cons d ds ih =>
    obtain ⟨hd, hds⟩ := List.nodup_cons.1 h
    unfold putCase
    split
    · next hkey =>
      -- the key stands nowhere else
      have hother : ∀ y ∈ ds, y.key ≠ c.key := fun y hy heq =>
        hd (hkey ▸ heq ▸ List.mem_map_of_mem hy)
      grind
    · next hkey => grind

def insertCases (entries : List (String × List Token)) : List Case :=
  entries.foldl (fun cases entry => putCase ⟨entry.1, commandsOf entry.2⟩ cases) []

theorem insertCases_concat (entries : List (String × List Token)) (entry : String × List Token) :
    insertCases (entries ++ [entry])
      = putCase ⟨entry.1, commandsOf entry.2⟩ (insertCases entries) := by
  simp [insertCases]

theorem map_key_insertCases (entries : List (String × List Token)) :
    (insertCases entries).map Case.key = (entries.map Prod.fst).eraseDups := by
  induction entries using List.reverseRecOn with
  | nil => rfl
  | append_singleton entries entry ih =>
    rw [insertCases_concat, map_key_putCase, ih, List.map_append, List.eraseDups_append]
    simp only [List.mem_eraseDups, List.map_singleton, List.removeAll, List.filter_singleton]
    by_cases hkey : entry.1 ∈ entries.map Prod.fst
    · simp [hkey]
    · simp [hkey, List.eraseDups_cons]

theorem nodup_map_key_insertCases (entries : List (String × List Token)) :
    ((insertCases entries).map Case.key).Nodup := by
  induction entries using List.reverseRecOn with
  | nil => exact .nil
  | append_singleton entries entry ih =>
    rw [insertCases_concat]
    exact nodup_map_key_putCase ih _

theorem last_of_mem_insertCases {entries : List (String × List Token)} {c : Case}
    (h : c ∈ insertCases entries) : ∃ (before : List (String × List Token)) (body : List Token)
      (after : List (String × List Token)), entries = before ++ (c.key, body) :: after ∧
        c.commands = commandsOf body ∧ ∀ entry ∈ after, entry.1 ≠ c.key := by
  induction entries using List.reverseRecOn with
  | nil => cases h
  | append_singleton entries entry ih =>
    rw [insertCases_concat, mem_putCase_iff (nodup_map_key_insertCases entries)] at h
    rcases h with rfl | ⟨hmem, hkey⟩
    · exact ⟨entries, entry.2, [], rfl, rfl, List.forall_mem_nil _⟩
    · obtain ⟨before, body, after, rfl, hcommands, hlast⟩ := ih hmem
      refine ⟨before, body, after ++ [entry], by simp, hcommands, ?_⟩
      exact List.forall_mem_append.2 ⟨hlast, List.forall_mem_singleton.2 (Ne.symm hkey)⟩

theorem addDispatchCase_eq (cases : List Case) (command : Command) :
    ∃ new, addDispatchCase cases command = cases ++ new ∧
      ∀ c ∈ new, c.key ∉ cases.map Case.key := by
  have hnone : ∃ new, cases = cases ++ new ∧ ∀ c ∈ new, c.key ∉ cases.map Case.key :=
    ⟨[], (List.append_nil _).symm, List.forall_mem_nil _⟩
  unfold addDispatchCase
  split
  · next pos condition first more =>
    split
    · next key hkey =>
      split
      · exact hnone
      · next hany =>
        refine ⟨[⟨key, first :: more⟩], rfl, List.forall_mem_singleton.2 ?_⟩
        simpa using hany
    · exact hnone
  · exact hnone

theorem foldl_addDispatchCase (prologue : List Command) (cases : List Case) :
    ∃ others, prologue.foldl addDispatchCase cases = cases ++ others ∧
      ∀ c ∈ others, c.key ∉ cases.map Case.key := by
  induction prologue generalizing cases with
  | nil => exact ⟨[], (List.append_nil _).symm, List.forall_mem_nil _⟩
  | cons command prologue ih =>
    obtain ⟨new, hnew, hfresh⟩ := addDispatchCase_eq cases command
    obtain ⟨others, hothers, hkeys⟩ := ih (cases ++ new)
    refine ⟨new ++ others, by rw [List.foldl_cons, hnew, hothers, List.append_assoc], ?_⟩
    refine List.forall_mem_append.2 ⟨hfresh, fun c hc hmem => hkeys c hc ?_⟩
    rw [List.map_append]
    exact List.mem_append_left _ hmem

theorem cases_build (file source : String) :
    ∃ others, (Document.build file source).cases
        = insertCases (Regions.ofTokens (significant source)).labeled ++ others ∧
      ∀ c ∈ others, c.key ∉ (insertCases (Regions.ofTokens (significant source)).labeled).map
        Case.key :=
  foldl_addDispatchCase _ _

/-- A region of labels with their blocks is read back exactly, whatever stands inside the blocks.
Each key has one case, in the order of the first labels and with the block of the last one, and
these cases come first in a document with such tokens. -/
theorem ofTokens_caseRegion {pre post : List Token} (hpre : Regions.Plain pre)
    (hpost : Regions.Plain post)
    {c p e : Token} (hc : c.isWord "CASE" = true) (hp : p.isWord "PREFIX" = true)
    (he : e.isWord "ENDCASE" = true) (entries : List CaseText) :
    let ts : List Token := pre ++ c :: p :: (entries.flatMap CaseText.tokens ++ e :: post)
    let cases : List Case := insertCases (Regions.ofTokens ts).labeled
    Regions.ofTokens ts = ⟨pre ++ post, [], entries.map fun entry => (entry.key, entry.body)⟩ ∧
    (cases.map Case.key).Nodup ∧ cases.map Case.key = (entries.map CaseText.key).eraseDups ∧
    (∀ x ∈ cases, ∃ (before : List CaseText) (last : CaseText) (after : List CaseText),
      entries = before ++ last :: after ∧ last.key = x.key ∧ x.commands = commandsOf last.body ∧
        ∀ other ∈ after, other.key ≠ x.key) ∧
    ∀ file source : String, significant source = ts → ∃ others,
      (Document.build file source).cases = cases ++ others ∧
        ∀ x ∈ others, x.key ∉ cases.map Case.key := by
  intro ts cases
  have hregions : Regions.ofTokens ts = ⟨pre ++ post, [], entries.map CaseText.entry⟩ := by
    rw [Regions.ofTokens, Regions.read_region hpre hc hp,
      (Regions.stretch_cases entries).read_append, Regions.read_leave (Regions.ofToken_endCase he),
      Regions.read_plain_all hpost]
    simp [Regions.append_def]
  have hcases : cases = insertCases (entries.map CaseText.entry) := by
    rw [← show (Regions.ofTokens ts).labeled = entries.map CaseText.entry from by rw [hregions]]
  refine ⟨hregions, nodup_map_key_insertCases _, ?_, fun x hx => ?_, fun file source hsource => ?_⟩
  · rw [hcases, map_key_insertCases, List.map_map]
    rfl
  · rw [hcases] at hx
    obtain ⟨before, body, after, hsplit, hcommands, hlast⟩ := last_of_mem_insertCases hx
    obtain ⟨front, back, rfl, -, hback⟩ := List.map_eq_append_iff.1 hsplit
    obtain ⟨last, rest, rfl, hentry, rfl⟩ := List.map_eq_cons_iff.1 hback
    obtain ⟨hkey, rfl⟩ := Prod.mk.inj hentry
    exact ⟨front, last, rest, rfl, hkey, hcommands, fun other hother =>
      hlast other.entry (List.mem_map_of_mem hother)⟩
  · obtain ⟨others, hbuild, hfresh⟩ := cases_build file source
    rw [hsource] at hbuild hfresh
    exact ⟨others, hbuild, hfresh⟩

/-- Two cases of one key, and words in a block that would end the region, begin one or name a
case. -/
theorem ofTokens_caseRegion_repeated :
    let word (text : String) : Token := ⟨.keyword, text, {}, 0⟩
    let label (text : String) : Token := ⟨.literal, text, {}, 0⟩
    let opening : Token := ⟨.delimiter, "\x7b", {}, 0⟩
    let closing : Token := ⟨.delimiter, "\x7d", {}, 0⟩
    let body : List Token :=
      [label "(C)", opening, closing, word "ENDCASE", word "CASE", word "PREFIX", label "(D)"]
    let pre : List Token := [word "PREFIX", word "CASE"]
    let post : List Token := [label "(E)", opening, word "NL", closing]
    let ts : List Token := pre ++ word "CASE" :: word "PREFIX" ::
      ([label "(A)", opening] ++ body ++ [closing, label "(B)", opening, closing,
      label "(A)", opening,
        word "NL", closing] ++ word "ENDCASE" :: post)
    Regions.Plain pre ∧ Regions.Plain post ∧ Bracket.brace.Balanced body ∧
    Regions.ofTokens ts = ⟨pre ++ post, [], [("A", body), ("B", []), ("A", [word "NL"])]⟩ ∧
    (insertCases (Regions.ofTokens ts).labeled).map Case.key = ["A", "B"] := by
  intro word label opening closing body pre post ts
  have hpre : Regions.Plain pre := by simp [Regions.Plain, pre, word, Token.isWord]
  have hpost : Regions.Plain post := by
    simp [Regions.Plain, post, word, label, opening, closing, Token.isWord]
  have hbody : Bracket.brace.Balanced body := by decide
  let entry (key : String) (body : List Token) (hspace : ' ' ∉ key.toList) (hdot : '.' ∉ key.toList)
      (hbody : Bracket.brace.Balanced body) : CaseText :=
    ⟨label ("(" ++ key ++ ")"), key, opening, body, closing, rfl, rfl, hspace,
      hdot, by decide, hbody, by decide⟩
  have hregion :=
    ofTokens_caseRegion hpre hpost (c := word "CASE") (p := word "PREFIX") (e := word "ENDCASE")
    (by decide) (by decide) (by decide) [entry "A" body (by decide) (by decide) hbody,
      entry "B" [] (by decide) (by decide) (by decide),
      entry "A" [word "NL"] (by decide) (by decide) (by decide)]
  exact ⟨hpre, hpost, hbody, hregion.1, hregion.2.2.1⟩

end VippDocdef
