import Mathlib.Data.List.Flatten
import VippDocdef.Command.OfTokens
import VippDocdef.Proofs.Lexemes

/-! Which token each command of a script comes from. A command owns its own word and, through the
block that becomes its body, the words inside that block; no token is owned twice. -/

set_option autoImplicit false

namespace VippDocdef

namespace Token

def selectsFont (t : Token) : Bool :=
  t.kind = .identifier && t.text.utf8ByteSize ≤ 3 && Text.startsWith t.text.toUpper "F"
    && t.text.toUpper ≠ "FLD"

def selectsColor (t : Token) : Bool := t.kind = .identifier && colorLetters.contains t.text.toUpper

def isHead (t : Token) : Bool := t.isCommand || t.selectsFont || t.selectsColor

def heads (ts : List Token) : List Position := (ts.filter isHead).map pos

theorem heads_cons_of_isHead {t : Token} (h : t.isHead = true) (ts : List Token) :
    heads (t :: ts) = t.pos :: heads ts := by
  simp [heads, h]

@[simp] theorem heads_append (ts us : List Token) : heads (ts ++ us) = heads ts ++ heads us := by
  simp [heads]

theorem heads_sublist {ts us : List Token} (h : ts.Sublist us) : (heads ts).Sublist (heads us) :=
  (h.filter _).map _

end Token

def Operand.script? : Operand → Option Script
  | .block _ s => some s
  | _ => none

def blocks (stack : List Operand) : List Script := stack.filterMap Operand.script?

@[simp] theorem blocks_block (ts : List Token) (s : Script) (stack : List Operand) :
    blocks (.block ts s :: stack) = s :: blocks stack := rfl

@[simp] theorem blocks_literal (text : String) (stack : List Operand) :
    blocks (.literal text :: stack) = blocks stack := rfl

theorem blocks_sublist {stack stack' : List Operand} (h : stack.Sublist stack') :
    (blocks stack).Sublist (blocks stack') :=
  h.filterMap _

/-- What a step at the token `t` can do: say nothing, say a command of one word, or say one with a
block of the stack as its body, which then is on the stack no more. -/
inductive Step.Takes (t : Token) (stack : List Operand) (step : Step) : Prop where
  | nothing (silent : step.commands = []) (kept : (blocks step.stack).Sublist (blocks stack))
  | word (c : Command) (said : step.commands = [c]) (head : t.isHead = true) (pos : c.pos = t.pos)
      (body : c.body = []) (kept : (blocks step.stack).Sublist (blocks stack))
  | block (c : Command) (script : Script) (said : step.commands = [c]) (head : t.isHead = true)
      (pos : c.pos = t.pos) (body : c.body = script.commands)
      (kept : (script :: blocks step.stack).Sublist (blocks stack))

namespace Step

variable {t : Token} {stack : List Operand}

theorem Takes.act {step : Step} {a : Action} (head : t.isHead = true)
    (said : step.commands = emit t a) (kept : step.stack.Sublist stack) : Takes t stack step :=
  .word (.act t.pos a) said head rfl rfl (blocks_sublist kept)

theorem takes_pop (head : t.isHead = true) (count : Nat) (a : List String → Action) :
    Takes t stack (pop t count stack fun args => emit t (a args)) :=
  .act head rfl (List.drop_sublist count stack)

theorem takes_showParagraph (head : t.isHead = true) : Takes t stack (showParagraph t stack) := by
  refine .act head rfl ?_
  have htail := List.tail_sublist stack
  unfold showParagraph
  dsimp only
  split
  · exact (List.tail_sublist _).trans htail
  · exact (List.tail_sublist _).trans ((List.tail_sublist _).trans htail)

theorem takes_newLine (head : t.isHead = true) : Takes t stack (newLine t stack) := by
  unfold newLine
  split
  · exact .act head rfl (List.Sublist.refl _)
  · next top below =>
    have hbelow : below.Sublist (top :: below) := List.sublist_cons_self top below
    dsimp only
    split
    · exact .act head rfl (List.Sublist.refl _)
    · split
      · next minus rest =>
        split
        · exact .act head rfl ((List.sublist_cons_self minus rest).trans hbelow)
        · exact .act head rfl hbelow
      · exact .act head rfl hbelow

theorem takes_setVar (head : t.isHead = true) : Takes t stack (setVar t stack) := by
  have hdrop := List.drop_sublist 4 stack
  unfold setVar
  dsimp only
  split
  · exact .act head rfl hdrop
  · exact .nothing rfl (blocks_sublist hdrop)

theorem takes_resourceCall (head : t.isHead = true) : Takes t stack (resourceCall t stack) := by
  unfold resourceCall
  dsimp only
  split
  · exact takes_pop head 1 _
  · next top below rest =>
    have hrest : (Operand.literal below :: rest).Sublist (top :: .literal below :: rest) :=
      List.sublist_cons_self _ _
    split
    · exact .act head rfl ((List.sublist_cons_self _ rest).trans hrest)
    · exact .act head rfl hrest
  · exact .act head rfl (List.sublist_cons_self _ _)

theorem takes_definition (head : t.isHead = true) : Takes t stack (definition t stack) := by
  unfold definition
  split
  · next script name below =>
    exact .block _ script rfl head rfl rfl
      ((blocks_sublist (List.sublist_cons_self name below)).cons_cons script)
  · exact .nothing rfl (blocks_sublist (List.drop_sublist 2 stack))

theorem blocks_of_splitBlock? {above below : List Operand} {script : Script}
    (h : splitBlock? stack = some (above, script, below)) : script ∈ blocks stack := by
  induction stack generalizing above with
  | nil => simp [splitBlock?] at h
  | cons top rest ih =>
    cases top with
    | block ts s =>
      simp only [splitBlock?, Option.some.injEq, Prod.mk.injEq] at h
      simp [h.2.1]
    | literal text =>
      obtain ⟨⟨a, s, b⟩, hrest, heq⟩ := Option.map_eq_some_iff.1 h
      simp only [Prod.mk.injEq] at heq
      rw [heq.2.1, heq.2.2] at hrest
      exact ih hrest
    | tagged text tag =>
      obtain ⟨⟨a, s, b⟩, hrest, heq⟩ := Option.map_eq_some_iff.1 h
      simp only [Prod.mk.injEq] at heq
      rw [heq.2.1, heq.2.2] at hrest
      exact ih hrest

theorem takes_postfixIf? {step : Step} (head : t.isHead = true)
    (h : postfixIf? t stack = some step) :
    Takes t stack step := by
  obtain ⟨⟨above, script, below⟩, hsplit, rfl⟩ := Option.map_eq_some_iff.1 h
  exact .block _ script rfl head rfl rfl (List.singleton_sublist.2 (blocks_of_splitBlock? hsplit))

theorem blocks_compare (word : String) : (blocks (compare word stack)).Sublist (blocks stack) := by
  unfold compare
  split
  · next right left below =>
    rw [blocks_literal]
    exact blocks_sublist (List.drop_sublist 2 (right :: left :: below))
  · exact List.Sublist.refl _

theorem takes_ofWord (head : t.isHead = true) : Takes t stack (ofWord t stack) := by
  unfold ofWord
  split
  iterate 5 exact .act head rfl (List.tail_sublist stack)
  · exact takes_showParagraph head
  · exact takes_pop head 2 _
  · exact takes_pop head 1 _
  · exact takes_newLine head
  · exact takes_setVar head
  · exact takes_pop head 1 _
  · exact takes_pop head 1 _
  · exact takes_pop head 5 _
  · exact takes_resourceCall head
  · exact takes_resourceCall head
  · exact takes_definition head
  · exact .word (.endIf t.pos) rfl head rfl rfl (List.Sublist.refl _)
  · split
    · exact .nothing rfl (List.Sublist.refl _)
    · next top below =>
      have hbelow := blocks_sublist (List.sublist_cons_self top below)
      exact .nothing rfl hbelow
  · have hbelow := blocks_sublist (List.drop_sublist 2 stack)
    exact .nothing rfl hbelow
  · split
    · exact .nothing rfl (blocks_compare _)
    · exact takes_pop head _ _

theorem takes_ofIdentifier (h : t.kind = .identifier) : Takes t stack (ofIdentifier t stack) := by
  unfold ofIdentifier
  dsimp only
  split_ifs with hunit hfont hcolor
  · exact .nothing rfl (List.Sublist.refl _)
  · have hhead : t.isHead = true := by simp_all [Token.isHead, Token.selectsFont]
    exact .act hhead rfl (List.Sublist.refl _)
  · have hhead : t.isHead = true := by simp_all [Token.isHead, Token.selectsColor]
    exact .act hhead rfl (List.Sublist.refl _)
  · exact .nothing rfl (List.Sublist.refl _)

end Step

theorem splitBracket_sublist (opening : String) (ts : List Token) :
    ((splitBracket opening ts).1 ++ (splitBracket opening ts).2).Sublist ts := by
  unfold splitBracket
  split
  · next n _ =>
    have hdrop : (ts.drop (n + 1)).Sublist (ts.drop n) :=
      List.drop_sublist_drop_left ts (Nat.le_succ n)
    simpa using (List.Sublist.refl (ts.take n)).append hdrop
  · exact (List.append_nil ts).symm ▸ List.Sublist.refl ts

/-- What is read inside a bracket and what is read behind it are different tokens of the rest. -/
inductive Turn.Takes (t : Token) (rest : List Token) (stack : List Operand) : Turn → Prop where
  | go {step : Step} {after : List Token} (taken : step.Takes t stack) (left : after.Sublist rest) :
      Takes t rest stack (.go step after)
  | push {inner after : List Token} (left : (inner ++ after).Sublist rest) :
      Takes t rest stack (.push inner after)
  | branch {condition : List String} {inner after : List Token} (head : t.isHead = true)
      (left : (inner ++ after).Sublist rest) : Takes t rest stack (.branch condition inner after)
  | otherwise {inner after : List Token} (head : t.isHead = true)
      (left : (inner ++ after).Sublist rest) :
      Takes t rest stack (.otherwise inner after)

namespace Turn

variable {t : Token} {rest : List Token} {stack : List Operand}

theorem dropEndIf_sublist (ts : List Token) : (dropEndIf ts).Sublist ts := by
  unfold dropEndIf
  split
  · exact List.Sublist.refl _
  · split
    · exact List.sublist_cons_self _ _
    · exact List.Sublist.refl _

theorem takes_prefixIf (head : t.isHead = true) : Takes t rest stack (prefixIf t rest stack) := by
  have hsaid : Step.Takes t stack { stack, commands := [.ifFlat t.pos (condition t rest)] } :=
    .word _ rfl head rfl rfl (List.Sublist.refl _)
  unfold prefixIf
  split
  · exact .go hsaid (List.nil_sublist _)
  · next u more hmore =>
    have hrest : (u :: more).Sublist rest := hmore ▸ List.dropWhile_sublist _
    split
    · have hinner := (List.Sublist.refl (splitBracket "\x7b" more).1).append
        (dropEndIf_sublist (splitBracket "\x7b" more).2)
      refine .branch head (hinner.trans ?_)
      exact (splitBracket_sublist "\x7b" more).trans ((List.sublist_cons_self u more).trans hrest)
    · exact .go hsaid hrest

theorem takes_elseBranch (head : t.isHead = true) :
    Takes t rest stack (elseBranch t rest stack) := by
  unfold elseBranch
  split
  · next script below =>
    exact .go (.block _ script rfl head rfl rfl (List.Sublist.refl _)) (List.Sublist.refl _)
  · next u more _ =>
    split
    · exact .otherwise head
        ((splitBracket_sublist "\x7b" more).trans (List.sublist_cons_self u more))
    · exact .go (.word _ rfl head rfl rfl (List.Sublist.refl _)) (List.Sublist.refl _)
  · exact .go (.word _ rfl head rfl rfl (List.Sublist.refl _)) (List.Sublist.refl _)

theorem takes_getInterval (head : t.isHead = true) :
    Takes t rest stack (getInterval t rest stack) := by
  unfold getInterval
  dsimp only
  split
  · next u more =>
    refine .go (Step.takes_ofWord head) ?_
    split
    · exact List.sublist_cons_self u more
    · exact List.Sublist.refl _
  · exact .go (Step.takes_ofWord head) (List.Sublist.refl _)

theorem takes_ofCommand (head : t.isHead = true) : Takes t rest stack (ofCommand t rest stack) := by
  unfold ofCommand
  split
  · split
    · next step hstep => exact .go (Step.takes_postfixIf? head hstep) (List.Sublist.refl _)
    · exact takes_prefixIf head
  · exact takes_elseBranch head
  · exact .go (.act head rfl (List.tail_sublist stack)) (List.drop_sublist _ rest)
  · exact takes_getInterval head
  · exact .go (Step.takes_ofWord head) (List.Sublist.refl _)

theorem takes_ofOther : Takes t rest stack (ofOther t rest stack) := by
  unfold ofOther
  split
  · next hcommand =>
    have hhead : t.isHead = true := by simp [Token.isHead, hcommand]
    exact takes_ofCommand hhead
  · split
    · next hkind => exact .go (Step.takes_ofIdentifier hkind) (List.Sublist.refl _)
    · exact .go (.nothing rfl (List.Sublist.refl _)) (List.Sublist.refl _)

theorem takes_ofToken (t : Token) (rest : List Token) (stack : List Operand) :
    Takes t rest stack (ofToken t rest stack) := by
  have hsilent : Step.Takes t stack { stack } := .nothing rfl (List.Sublist.refl _)
  unfold ofToken
  split
  · exact .go hsilent (List.Sublist.refl _)
  · split
    · exact .push (splitBracket_sublist t.text rest)
    · exact .go hsilent (List.Sublist.refl _)
  · split
    · split
      · exact .go (.nothing rfl (List.Sublist.refl _)) (List.sublist_cons_self _ _)
      · exact takes_ofOther
    · exact takes_ofOther
  · exact takes_ofOther

end Turn

/-- What can be said of the tokens ahead while some blocks wait. Each token and each block is used
once at most: left aside, as the word of a command, or as what stands inside one. -/
inductive Reads : List Token → List Script → List Command → Prop where
  | stop (ts : List Token) (waiting : List Script) : Reads ts waiting []
  | skip (t : Token) {rest after : List Token} {waiting kept : List Script} {cs : List Command}
      (left : after.Sublist rest) (keeps : kept.Sublist waiting) (next : Reads after kept cs) :
      Reads (t :: rest) waiting cs
  | word (t : Token) {rest after : List Token} {waiting kept : List Script} {c : Command}
      {cs : List Command} (head : t.isHead = true) (pos : c.pos = t.pos) (body : c.body = [])
      (left : after.Sublist rest) (keeps : kept.Sublist waiting) (next : Reads after kept cs) :
      Reads (t :: rest) waiting (c :: cs)
  | block (t : Token) {rest after : List Token} {waiting kept : List Script} {script : Script}
      {c : Command} {cs : List Command} (head : t.isHead = true) (pos : c.pos = t.pos)
      (body : c.body = script.commands) (left : after.Sublist rest)
      (keeps : (script :: kept).Sublist waiting) (next : Reads after kept cs) :
      Reads (t :: rest) waiting (c :: cs)
  | push (t : Token) {rest inner after : List Token} {waiting : List Script} {script : Script}
      {cs : List Command} (left : (inner ++ after).Sublist rest)
      (inside : Reads inner [] script.commands) (next : Reads after (script :: waiting) cs) :
      Reads (t :: rest) waiting cs
  | enclose (t : Token) {rest inner after : List Token} {waiting : List Script} {c : Command}
      {cs : List Command} (head : t.isHead = true) (pos : c.pos = t.pos)
      (left : (inner ++ after).Sublist rest) (inside : Reads inner [] c.body)
      (next : Reads after waiting cs) :
      Reads (t :: rest) waiting (c :: cs)

theorem Reading.reads (ts : List Token) (stack : List Operand) :
    Reads ts (blocks stack) (Reading.read ts stack).commands := by
  fun_induction Reading.read ts stack with
  | case1 stack => exact .stop [] (blocks stack)
  | case2 t rest stack _ step after hturn ih =>
    have htakes := hturn ▸ Turn.takes_ofToken t rest stack
    cases htakes with
    | go taken left =>
      cases taken with
      | nothing silent kept => exact silent ▸ .skip t left kept ih
      | word c said head pos body kept => exact said ▸ .word t head pos body left kept ih
      | block c script said head pos body kept => exact said ▸ .block t head pos body left kept ih
  | case3 t rest stack _ inner after hturn ihinner ih =>
    have htakes := hturn ▸ Turn.takes_ofToken t rest stack
    cases htakes with
    | push left => exact .push t left ihinner ih
  | case4 t rest stack _ condition inner after hturn _ ihinner ih =>
    have htakes := hturn ▸ Turn.takes_ofToken t rest stack
    cases htakes with
    | branch head left => exact .enclose t head rfl left ihinner ih
  | case5 t rest stack _ inner after hturn _ ihinner ih =>
    have htakes := hturn ▸ Turn.takes_ofToken t rest stack
    cases htakes with
    | otherwise head left => exact .enclose t head rfl left ihinner ih

namespace Command

theorem walk_cons (c : Command) (cs : List Command) :
    walk (c :: cs) = c :: (walk c.body ++ walk cs) := by
  cases c <;> simp [walk, within, body]

def places (cs : List Command) : List Position := (walk cs).map pos

@[simp] theorem places_nil : places [] = [] := rfl

@[simp] theorem places_cons (c : Command) (cs : List Command) :
    places (c :: cs) = c.pos :: (places c.body ++ places cs) := by
  simp [places, walk_cons]

end Command

def Script.places (scripts : List Script) : List Position :=
  scripts.flatMap fun s => Command.places s.commands

@[simp] theorem Script.places_nil : Script.places [] = [] := rfl

@[simp] theorem Script.places_cons (s : Script) (scripts : List Script) :
    Script.places (s :: scripts) = Command.places s.commands ++ Script.places scripts := rfl

namespace Reads

theorem count_heads {ts us : List Token} (h : ts.Sublist us) (p : Position) :
    (Token.heads ts).count p ≤ (Token.heads us).count p :=
  (Token.heads_sublist h).count_le p

theorem count_scripts {ss rs : List Script} (h : ss.Sublist rs) (p : Position) :
    (Script.places ss).count p ≤ (Script.places rs).count p :=
  (h.flatMap _).count_le p

/-- A place is used at most as often as it is given, by the tokens or by the blocks that wait. -/
theorem count_places {ts : List Token} {waiting : List Script} {cs : List Command}
    (h : Reads ts waiting cs) (p : Position) :
    (Command.places cs).count p ≤ (Token.heads ts).count p + (Script.places waiting).count p := by
  induction h with
  | stop => simp
  | skip t left keeps _ ih =>
    have hleft := count_heads (left.cons t) p
    have hkeeps := count_scripts keeps p
    omega
  | word t head pos body left keeps _ ih =>
    have hleft := count_heads left p
    have hkeeps := count_scripts keeps p
    simp [Token.heads_cons_of_isHead head, pos, body, List.count_cons]
    omega
  | block t head pos body left keeps _ ih =>
    have hleft := count_heads left p
    have hkeeps := count_scripts keeps p
    simp [Token.heads_cons_of_isHead head, pos, body, List.count_cons] at hkeeps ⊢
    omega
  | push t left _ _ ihinner ih =>
    have hleft := count_heads (left.cons t) p
    simp at hleft ihinner ih
    omega
  | enclose t head pos left _ _ ihinner ih =>
    have hleft := count_heads left p
    simp [Token.heads_cons_of_isHead head, pos, List.count_cons] at hleft ihinner ⊢
    omega

theorem places_sublist {ts : List Token} {waiting : List Script} {cs : List Command}
    (h : Reads ts waiting cs) : (cs.map Command.pos).Sublist (Token.heads ts) := by
  induction h with
  | stop ts _ => exact List.nil_sublist _
  | skip t left _ _ ih => exact ih.trans (Token.heads_sublist (left.cons t))
  | word t head pos _ left _ _ ih =>
    rw [Token.heads_cons_of_isHead head, List.map_cons, pos]
    exact (ih.trans (Token.heads_sublist left)).cons_cons _
  | block t head pos _ left _ _ ih =>
    rw [Token.heads_cons_of_isHead head, List.map_cons, pos]
    exact (ih.trans (Token.heads_sublist left)).cons_cons _
  | push t left _ _ _ ih =>
    have hleft := (List.sublist_append_right _ _).trans left
    exact ih.trans (Token.heads_sublist (hleft.cons t))
  | enclose t head pos left _ _ _ ih =>
    have hleft := (List.sublist_append_right _ _).trans left
    rw [Token.heads_cons_of_isHead head, List.map_cons, pos]
    exact (ih.trans (Token.heads_sublist hleft)).cons_cons _

end Reads

def Position.Before (p q : Position) : Prop :=
  p.line < q.line ∨ p.line = q.line ∧ p.column < q.column

namespace Position

theorem Before.trans {p q r : Position} (h : p.Before q) (h' : q.Before r) : p.Before r := by
  unfold Before at *
  omega

theorem Before.ne {p q : Position} (h : p.Before q) : p ≠ q := by
  rintro rfl
  unfold Before at h
  omega

theorem before_next (p : Position) (c : Char) : p.Before (p.next c) := by
  unfold Before next
  split <;> simp

theorem before_advance (p : Position) {cs : List Char} (h : cs ≠ []) : p.Before (p.advance cs) := by
  induction cs generalizing p with
  | nil => exact absurd rfl h
  | cons c cs ih =>
    by_cases hcs : cs = []
    · simpa [hcs] using before_next p c
    · exact (before_next p c).trans (ih _ hcs)

end Position

namespace Command

def Ascending (cs : List Command) : Prop := cs.Pairwise fun c d => c.pos.Before d.pos

def Ordered (cs : List Command) : Prop := ∀ siblings ∈ cs :: (walk cs).map body, Ascending siblings

theorem ordered_iff {cs : List Command} :
    Ordered cs ↔ Ascending cs ∧ ∀ c ∈ walk cs, Ascending c.body := by
  simp [Ordered]

theorem forall_walk_cons {P : Command → Prop} {c : Command} {cs : List Command} :
    (∀ d ∈ walk (c :: cs), P d) ↔ P c ∧ (∀ d ∈ walk c.body, P d) ∧ ∀ d ∈ walk cs, P d := by
  simp [walk_cons, or_imp, forall_and]

end Command

namespace Reads

theorem ascending {ts : List Token} {waiting : List Script} {cs : List Command}
    (h : Reads ts waiting cs)
    (hts : (Token.heads ts).Pairwise Position.Before) : Command.Ascending cs :=
  List.pairwise_map.1 (hts.sublist h.places_sublist)

theorem nested {ts : List Token} {waiting : List Script} {cs : List Command}
    (h : Reads ts waiting cs) (hts : (Token.heads ts).Pairwise Position.Before)
    (hwaiting : ∀ script ∈ waiting, Command.Ordered script.commands) :
    ∀ c ∈ Command.walk cs, Command.Ascending c.body := by
  induction h with
  | stop => simp [Command.walk]
  | skip t left keeps _ ih =>
    exact ih (hts.sublist (Token.heads_sublist (left.cons t))) fun s hs =>
      hwaiting s (keeps.subset hs)
  | word t head pos body left keeps _ ih =>
    have hrest := ih (hts.sublist (Token.heads_sublist (left.cons t)))
      fun s hs => hwaiting s (keeps.subset hs)
    rw [Command.forall_walk_cons, body]
    exact ⟨List.Pairwise.nil, by simp [Command.walk], hrest⟩
  | block t head pos body left keeps _ ih =>
    obtain ⟨hscript, hkept⟩ := List.forall_mem_cons.1 fun s hs => hwaiting s (keeps.subset hs)
    have hrest := ih (hts.sublist (Token.heads_sublist (left.cons t))) hkept
    rw [Command.forall_walk_cons, body]
    obtain ⟨hbody, hnested⟩ := Command.ordered_iff.1 hscript
    exact ⟨hbody, hnested, hrest⟩
  | push t left inside _ ihinner ih =>
    have hboth := hts.sublist (Token.heads_sublist (left.cons t))
    rw [Token.heads_append, List.pairwise_append] at hboth
    obtain ⟨hinner, hafter, -⟩ := hboth
    have hscript := Command.ordered_iff.2 ⟨inside.ascending hinner, ihinner hinner (by simp)⟩
    exact ih hafter (List.forall_mem_cons.2 ⟨hscript, hwaiting⟩)
  | enclose t head pos left inside _ ihinner ih =>
    have hboth := hts.sublist (Token.heads_sublist (left.cons t))
    rw [Token.heads_append, List.pairwise_append] at hboth
    obtain ⟨hinner, hafter, -⟩ := hboth
    rw [Command.forall_walk_cons]
    exact ⟨inside.ascending hinner, ihinner hinner (by simp), ih hafter hwaiting⟩

end Reads

namespace Lexeme

theorem exists_advance_of_lay {p : Position} {offset : Nat} {xs : List Lexeme} {t : Token}
    (h : t ∈ lay p offset xs) : ∃ cs, t.pos = p.advance cs := by
  obtain ⟨before, after, hsplit⟩ := List.append_of_mem h
  exact ⟨_, (place_of_lay hsplit).1⟩

theorem pairwise_before_lay (p : Position) (offset : Nat) {xs : List Lexeme}
    (h : ∀ x ∈ xs, x.text ≠ "") :
    (lay p offset xs).Pairwise fun t u => t.pos.Before u.pos := by
  induction xs generalizing p offset with
  | nil => exact List.Pairwise.nil
  | cons x xs ih =>
    obtain ⟨hx, hxs⟩ := List.forall_mem_cons.1 h
    refine List.Pairwise.cons (fun t ht => ?_) (ih _ _ hxs)
    obtain ⟨cs, hcs⟩ := exists_advance_of_lay ht
    rw [hcs, ← Position.advance_append]
    exact Position.before_advance p (by simp [hx])

theorem pairwise_before_ofText (source : String) :
    (Scanned.ofText source).tokens.Pairwise fun t u => t.pos.Before u.pos := by
  rw [tokens_ofText]
  refine pairwise_before_lay _ _ fun x hx => ?_
  obtain ⟨before, after, hsplit⟩ := List.append_of_mem hx
  obtain ⟨c, rest, -, rfl⟩ := first_of_read hsplit
  exact (text_first c rest).1

end Lexeme

/-- Every command of a source text has a word of its own, and siblings stand in the order of their
words. -/
theorem Script.ofText_ordered (source : String) :
    let commands := (Script.ofText source).commands
    ((Command.walk commands).map Command.pos).Nodup ∧
      (∀ c ∈ Command.walk commands, ∃ t ∈ (Scanned.ofText source).tokens, t.pos = c.pos ∧
        t.isTrivia = false ∧ (t.isCommand = true ∨ t.selectsFont = true ∨ t.selectsColor = true)) ∧
      ∀ siblings ∈ commands :: (Command.walk commands).map Command.body,
        siblings.Pairwise fun c d => c.pos.Before d.pos := by
  intro commands
  let tokens := (Scanned.ofText source).tokens.filter fun t => !t.isTrivia
  have hreads : Reads tokens [] commands := Reading.reads tokens []
  have hbefore : (Token.heads tokens).Pairwise Position.Before :=
    List.pairwise_map.2 (((Lexeme.pairwise_before_ofText source).filter _).filter _)
  have hcount (p : Position) : (Command.places commands).count p ≤ (Token.heads tokens).count p :=
    hreads.count_places p
  refine ⟨List.nodup_iff_count.2 fun p => ?_, fun c hc => ?_, ?_⟩
  · have hnodup : (Token.heads tokens).Nodup := hbefore.imp Position.Before.ne
    exact Nat.le_trans (hcount p) (List.nodup_iff_count.1 hnodup p)
  · have hplace : c.pos ∈ Token.heads tokens := by
      have hmem : 0 < (Command.places commands).count c.pos :=
        List.count_pos_iff.2 (List.mem_map_of_mem hc)
      exact List.count_pos_iff.1 (Nat.lt_of_lt_of_le hmem (hcount c.pos))
    obtain ⟨t, ht, hpos⟩ := List.mem_map.1 hplace
    obtain ⟨htokens, hhead⟩ := List.mem_filter.1 ht
    obtain ⟨hsource, htrivia⟩ := List.mem_filter.1 htokens
    simp only [Token.isHead, Bool.or_eq_true, or_assoc] at hhead
    exact ⟨t, hsource, hpos, by simpa using htrivia, hhead⟩
  · exact Command.ordered_iff.2 ⟨hreads.ascending hbefore, hreads.nested hbefore (by simp)⟩

end VippDocdef
