import Mathlib.Data.List.Perm.Subperm
import VippDocdef.Proofs.Leftovers
import VippDocdef.Proofs.Motion
import VippDocdef.Proofs.Ownership

/-! Commands with a fixed number of operands. They take what the stack has, and where it has too
little a warning says so at their place. No other command and no other word gives a warning there,
at whatever depth it stands. -/

set_option autoImplicit false

namespace VippDocdef

/-- The number of operands of a command that has a fixed one, and the operands it took. -/
def Command.fixed? : Command → Option (Nat × List String)
  | .act _ (.generic name args) => (genericArity.lookup name).map fun k => (k, args)
  | .act _ (.box args) => some (5, args)
  | _ => none

def Operand.bracket? : Operand → Option (List Token × Script)
  | .block inner script => some (inner, script)
  | _ => none

def brackets (stack : List Operand) : List (List Token × Script) := stack.filterMap Operand.bracket?

theorem brackets_sublist {stack stack' : List Operand} (h : stack.Sublist stack') :
    (brackets stack).Sublist (brackets stack') :=
  h.filterMap _

/-- `t.TakesBody stack inner script`: the word `t` finds its body on the stack. -/
inductive Token.TakesBody (t : Token) : List Operand → List Token → Script → Prop where
  | definition {inner : List Token} {script : Script} {name : Operand} {below : List Operand}
      (word : t.text = "XGFRESDEF") :
        t.TakesBody (.block inner script :: name :: below) inner script
  | elseBranch {inner : List Token} {script : Script} {below : List Operand} (word : t.text
      = "ELSE") :
      t.TakesBody (.block inner script :: below) inner script
  | conditional {inner : List Token} {script : Script} {above below : List Operand}
      (word : t.text = "IF")
      (topmost : ∀ o ∈ above, o.isBlock = false) :
      t.TakesBody (above ++ .block inner script :: below) inner script

theorem Token.TakesBody.mem_brackets {t : Token} {stack : List Operand} {inner : List Token}
    {script : Script} (h : t.TakesBody stack inner script) : (inner, script) ∈ brackets stack := by
  cases h <;> simp [brackets, Operand.bracket?]

/-- What the word `t` can do to a stack. -/
inductive Step.Outcome (t : Token) (stack : List Operand) : Step → Prop where
  | plain {step : Step}
      (commands : ∀ c ∈ step.commands, c.pos = t.pos ∧ c.body = [] ∧ c.fixed? = none)
      (warnings : ∀ w ∈ step.warnings, w.pos = t.pos)
      (kept : (brackets step.stack).Sublist (brackets stack)) : Outcome t stack step
  | pops (k : Nat) (a : List String → Action)
      (fixed : ∀ args, (Command.act t.pos (a args)).fixed? = some (k, args)) :
      Outcome t stack (pop t k stack fun args => emit t (a args))
  | body {step : Step} {c : Command} {inner : List Token} {script : Script}
      (command : t.isCommand = true)
      (taken : t.TakesBody stack inner script) (commands : step.commands = [c])
      (warnings : step.warnings = script.warnings) (pos : c.pos = t.pos)
      (encloses : c.body = script.commands) (fixed : c.fixed? = none)
      (kept : ((inner, script) :: brackets step.stack).Sublist (brackets stack)) :
        Outcome t stack step

namespace Step

variable {t : Token} {stack : List Operand}

theorem Outcome.silent {step : Step} (commands : step.commands = [])
    (warnings : ∀ w ∈ step.warnings, w.pos = t.pos)
    (kept : (brackets step.stack).Sublist (brackets stack)) :
    Outcome t stack step :=
  .plain (by simp [commands]) warnings kept

theorem Outcome.act {step : Step} {a : Action} (commands : step.commands = emit t a)
    (fixed : (Command.act t.pos a).fixed? = none) (warnings : ∀ w ∈ step.warnings, w.pos = t.pos)
    (kept : step.stack.Sublist stack) : Outcome t stack step := by
  refine .plain (fun c hc => ?_) warnings (brackets_sublist kept)
  rw [commands, emit, List.mem_singleton] at hc
  exact hc ▸ ⟨rfl, rfl, fixed⟩

theorem pos_of_pop (k : Nat) (make : List String → List Command) :
    ∀ w ∈ (pop t k stack make).warnings, w.pos = t.pos := by
  unfold pop
  dsimp only
  split <;> simp

theorem outcome_pop (k : Nat) (a : List String → Action)
    (fixed : ∀ args, (Command.act t.pos (a args)).fixed? = none) :
    Outcome t stack (pop t k stack fun args => emit t (a args)) :=
  .act rfl (fixed _) (pos_of_pop k _) (List.drop_sublist k stack)

theorem pos_of_noText (below : List Operand) : ∀ w ∈ noText t below, w.pos = t.pos := by
  unfold noText
  split <;> simp

theorem outcome_showParagraph : Outcome t stack (showParagraph t stack) := by
  have htail := List.tail_sublist stack
  refine .act rfl rfl (pos_of_noText _) ?_
  unfold showParagraph
  dsimp only
  split
  · exact (List.tail_sublist _).trans htail
  · exact (List.tail_sublist _).trans ((List.tail_sublist _).trans htail)

theorem outcome_newLine : Outcome t stack (newLine t stack) := by
  unfold newLine
  split
  · exact .act rfl rfl (List.forall_mem_nil _) (List.Sublist.refl _)
  · next top below =>
    have hbelow : below.Sublist (top :: below) := List.sublist_cons_self top below
    dsimp only
    split
    · exact .act rfl rfl (List.forall_mem_nil _) (List.Sublist.refl _)
    · split
      · next minus rest =>
        split
        · exact .act rfl rfl (List.forall_mem_nil _)
            ((List.sublist_cons_self minus rest).trans hbelow)
        · exact .act rfl rfl (List.forall_mem_nil _) hbelow
      · exact .act rfl rfl (List.forall_mem_nil _) hbelow

theorem outcome_setVar : Outcome t stack (setVar t stack) := by
  have hdrop := List.drop_sublist 4 stack
  unfold setVar
  dsimp only
  split
  · exact .act rfl rfl (List.forall_mem_nil _) hdrop
  · exact .silent rfl (by simp) (brackets_sublist hdrop)

theorem outcome_resourceCall : Outcome t stack (resourceCall t stack) := by
  unfold resourceCall
  dsimp only
  split
  · exact outcome_pop 1 _ fun _ => rfl
  · next top below rest =>
    have hrest : (Operand.literal below :: rest).Sublist (top :: .literal below :: rest) :=
      List.sublist_cons_self _ _
    split
    · exact .act rfl rfl (List.forall_mem_nil _) ((List.sublist_cons_self _ rest).trans hrest)
    · exact .act rfl rfl (List.forall_mem_nil _) hrest
  · exact .act rfl rfl (List.forall_mem_nil _) (List.sublist_cons_self _ _)

theorem outcome_definition (command : t.isCommand = true) (word : t.text = "XGFRESDEF") :
    Outcome t stack (definition t stack) := by
  unfold definition
  split
  · next inner script name below =>
    exact .body command (.definition word) rfl rfl rfl rfl rfl
      ((brackets_sublist (List.sublist_cons_self name below)).cons_cons (inner, script))
  · exact .silent rfl (by simp) (brackets_sublist (List.drop_sublist 2 stack))

theorem outcome_compare (word : String) : Outcome t stack { stack := compare word stack } := by
  refine .silent rfl (List.forall_mem_nil _) ?_
  unfold compare
  split
  · next right left below =>
    have hbelow := brackets_sublist (List.drop_sublist 2 (right :: left :: below))
    exact hbelow
  · exact List.Sublist.refl _

theorem outcome_generic :
    Outcome t stack (generic t ((genericArity.lookup t.text).getD 0) stack) := by
  cases hlookup : genericArity.lookup t.text with
  | none => exact outcome_pop _ _ fun args => by simp [Command.fixed?, hlookup]
  | some k => exact .pops k _ fun args => by simp [Command.fixed?, hlookup]

theorem outcome_ofWord (command : t.isCommand = true) : Outcome t stack (ofWord t stack) := by
  have hnone : ∀ w ∈ ([] : List CommandWarning), w.pos = t.pos := List.forall_mem_nil _
  unfold ofWord
  split
  iterate 5 exact .act rfl rfl (pos_of_noText _) (List.tail_sublist stack)
  · exact outcome_showParagraph
  · exact outcome_pop 2 _ fun _ => rfl
  · exact outcome_pop 1 _ fun _ => rfl
  · exact outcome_newLine
  · exact outcome_setVar
  · exact outcome_pop 1 _ fun _ => rfl
  · exact outcome_pop 1 _ fun _ => rfl
  · exact .pops 5 _ fun _ => rfl
  · exact outcome_resourceCall
  · exact outcome_resourceCall
  · next word => exact outcome_definition command word
  · exact .plain (by simp [Command.pos, Command.body, Command.fixed?]) hnone (List.Sublist.refl _)
  · split
    · exact .silent rfl hnone (List.Sublist.refl _)
    · next top below =>
      have hbelow := brackets_sublist (List.sublist_cons_self top below)
      exact .silent rfl hnone hbelow
  · have hbelow := brackets_sublist (List.drop_sublist 2 stack)
    exact .silent rfl hnone hbelow
  · split
    · exact outcome_compare _
    · exact outcome_generic

theorem outcome_ofIdentifier : Outcome t stack (ofIdentifier t stack) := by
  have hnone : ∀ w ∈ ([] : List CommandWarning), w.pos = t.pos := List.forall_mem_nil _
  unfold ofIdentifier
  dsimp only
  split_ifs
  · exact .silent rfl hnone (List.Sublist.refl _)
  · exact .act rfl rfl hnone (List.Sublist.refl _)
  · exact .act rfl rfl hnone (List.Sublist.refl _)
  · exact .silent rfl hnone (List.Sublist.refl _)

theorem splitBlock?_eq_some {above below : List Operand} {script : Script}
    (h : splitBlock? stack = some (above, script, below)) :
    ∃ inner, stack = above ++ .block inner script :: below ∧ ∀ o ∈ above, o.isBlock = false := by
  induction stack generalizing above with
  | nil => simp [splitBlock?] at h
  | cons top rest ih =>
    have hskip {above' below' : List Operand} {script' : Script} (htop : top.isBlock = false)
        (hsplit : splitBlock? rest = some (above', script', below'))
        (heq : (top :: above', script', below') = (above, script, below)) :
        ∃ inner, top :: rest = above ++ .block inner script :: below ∧ ∀ o ∈ above,
          o.isBlock = false := by
      obtain ⟨rfl, rfl, rfl⟩ : top :: above' = above ∧ script' = script ∧ below' = below := by
        simpa using heq
      obtain ⟨inner, rfl, habove⟩ := ih hsplit
      exact ⟨inner, rfl, List.forall_mem_cons.2 ⟨htop, habove⟩⟩
    cases top with
    | literal text =>
      obtain ⟨⟨above', script', below'⟩, hsplit, heq⟩ := Option.map_eq_some_iff.1 h
      exact hskip rfl hsplit heq
    | tagged text tag =>
      obtain ⟨⟨above', script', below'⟩, hsplit, heq⟩ := Option.map_eq_some_iff.1 h
      exact hskip rfl hsplit heq
    | block inner script' =>
      obtain ⟨rfl, rfl, rfl⟩ : [] = above ∧ script' = script ∧ rest = below := by
        simpa [splitBlock?] using h
      exact ⟨inner, rfl, List.forall_mem_nil _⟩

theorem outcome_postfixIf? {step : Step} (command : t.isCommand = true) (word : t.text = "IF")
    (h : postfixIf? t stack = some step) : Outcome t stack step := by
  obtain ⟨⟨above, script, below⟩, hsplit, rfl⟩ := Option.map_eq_some_iff.1 h
  obtain ⟨inner, rfl, habove⟩ := splitBlock?_eq_some hsplit
  refine .body command (.conditional word habove) rfl rfl rfl rfl rfl (List.singleton_sublist.2 ?_)
  simp [brackets, Operand.bracket?]

end Step

namespace Turn

variable {t : Token} {rest : List Token} {stack : List Operand}

def Goes (t : Token) (stack : List Operand) : Turn → Prop
  | .go step _ => step.Outcome t stack
  | _ => True

theorem goes_prefixIf : (prefixIf t rest stack).Goes t stack := by
  have hflat : Step.Outcome t stack { stack, commands := [.ifFlat t.pos (condition t rest)] } :=
    .plain (by simp [Command.pos, Command.body, Command.fixed?]) (List.forall_mem_nil _)
      (List.Sublist.refl _)
  unfold prefixIf
  split
  · exact hflat
  · split
    · trivial
    · exact hflat

theorem goes_elseBranch (command : t.isCommand = true) (word : t.text = "ELSE") :
    (elseBranch t rest stack).Goes t stack := by
  have hflat : Step.Outcome t stack { stack, commands := [.elseFlat t.pos] } :=
    .plain (by simp [Command.pos, Command.body, Command.fixed?]) (List.forall_mem_nil _)
      (List.Sublist.refl _)
  unfold elseBranch
  split
  · next inner script below =>
    exact .body command (.elseBranch word) rfl rfl rfl rfl rfl (List.Sublist.refl _)
  · split
    · trivial
    · exact hflat
  · exact hflat

theorem goes_cache : (cache t rest stack).Goes t stack :=
  Step.Outcome.act rfl rfl (List.forall_mem_nil _) (List.tail_sublist stack)

theorem goes_getInterval (command : t.isCommand = true) :
    (getInterval t rest stack).Goes t stack := by
  unfold getInterval
  dsimp only
  split <;> exact Step.outcome_ofWord command

theorem goes_ofCommand (command : t.isCommand = true) : (ofCommand t rest stack).Goes t stack := by
  unfold ofCommand
  split
  · next word =>
    split
    · next step hstep => exact Step.outcome_postfixIf? command word hstep
    · exact goes_prefixIf
  · next word => exact goes_elseBranch command word
  · exact goes_cache
  · exact goes_getInterval command
  · exact Step.outcome_ofWord command

theorem goes_ofOther : (ofOther t rest stack).Goes t stack := by
  unfold ofOther
  split
  · next command => exact goes_ofCommand command
  · split
    · exact Step.outcome_ofIdentifier
    · exact Step.Outcome.silent rfl (List.forall_mem_nil _) (List.Sublist.refl _)

theorem goes_ofToken : (ofToken t rest stack).Goes t stack := by
  have hsilent : Step.Outcome t stack { stack } :=
    .silent rfl (List.forall_mem_nil _) (List.Sublist.refl _)
  unfold ofToken
  split
  · exact hsilent
  · split
    · trivial
    · exact hsilent
  · split
    · split
      · exact Step.Outcome.silent rfl (List.forall_mem_nil _) (List.Sublist.refl _)
      · exact goes_ofOther
    · exact goes_ofOther
  · exact goes_ofOther

theorem outcome_of_go {step : Step} {after : List Token}
    (h : ofToken t rest stack = .go step after) :
    step.Outcome t stack := by
  have hgoes : (ofToken t rest stack).Goes t stack := goes_ofToken
  rwa [h] at hgoes

end Turn

theorem Token.nodup_of_subperm {ts us : List Token} (h : ts.Subperm us)
    (hnodup : (us.map pos).Nodup) :
    (ts.map pos).Nodup := by
  obtain ⟨vs, hperm, hsub⟩ := h
  exact (hperm.map _).nodup_iff.1 (hnodup.sublist (hsub.map _))

theorem Command.walk_append (cs ds : List Command) : walk (cs ++ ds) = walk cs ++ walk ds := by
  induction cs with
  | nil => rfl
  | cons c cs ih => simp [walk, ih]

theorem Command.walk_of_flat {cs : List Command} (h : ∀ c ∈ cs, c.body = []) : walk cs = cs := by
  induction cs with
  | nil => rfl
  | cons c cs ih =>
    obtain ⟨hc, hcs⟩ := List.forall_mem_cons.1 h
    rw [walk_cons, hc, walk, List.nil_append, ih hcs]

def Script.spots (s : Script) : List Position := Command.places s.commands ++ s.warnings.map (·.pos)

def held (stack : List Operand) : List Token := (brackets stack).flatMap (·.1)

/-- A script that comes from some tokens, and warns of missing operands where they are missing. -/
structure Script.Settled (s : Script) (ts : List Token) : Prop where
  inside : ∀ p ∈ s.spots, p ∈ ts.map Token.pos
  short : ∀ c ∈ Command.walk s.commands, ∀ k args, c.fixed? = some (k, args) →
    (args.length < k ↔ ∃ w ∈ s.warnings, w.pos = c.pos)

namespace Script

theorem mem_spots {s : Script} {p : Position} :
    p ∈ s.spots ↔ (∃ c ∈ Command.walk s.commands, c.pos = p) ∨ ∃ w ∈ s.warnings, w.pos = p := by
  simp [spots, Command.places]

theorem Settled.add {s s' : Script} {ts us vs : List Token} (h : s.Settled ts) (h' : s'.Settled us)
    (hsub : (ts ++ us).Subperm vs) (hnodup : (vs.map Token.pos).Nodup) :
    Settled ⟨s.commands ++ s'.commands, s.warnings ++ s'.warnings⟩ vs := by
  have hapart : ∀ p ∈ s.spots, p ∉ s'.spots := by
    have hboth := Token.nodup_of_subperm hsub hnodup
    rw [List.map_append, List.nodup_append] at hboth
    exact fun p hp hp' => hboth.2.2 p (h.inside p hp) p (h'.inside p hp') rfl
  constructor
  · intro p hp
    have hparts : p ∈ s.spots ∨ p ∈ s'.spots := by
      simp only [mem_spots, Command.walk_append, List.mem_append] at hp ⊢
      grind
    have hwhere : p ∈ (ts ++ us).map Token.pos := by
      rw [List.map_append, List.mem_append]
      exact hparts.imp (h.inside p) (h'.inside p)
    obtain ⟨t, ht, rfl⟩ := List.mem_map.1 hwhere
    exact List.mem_map_of_mem (hsub.subset ht)
  · intro c hc k args hfixed
    simp only [Command.walk_append, List.mem_append] at hc ⊢
    rcases hc with hc | hc
    · have hnot : ∀ w ∈ s'.warnings, w.pos ≠ c.pos := fun w hw hpos =>
        hapart c.pos (mem_spots.2 (.inl ⟨c, hc, rfl⟩)) (mem_spots.2 (.inr ⟨w, hw, hpos⟩))
      rw [h.short c hc k args hfixed]
      grind
    · have hnot : ∀ w ∈ s.warnings, w.pos ≠ c.pos := fun w hw hpos =>
        hapart c.pos (mem_spots.2 (.inr ⟨w, hw, hpos⟩)) (mem_spots.2 (.inl ⟨c, hc, rfl⟩))
      rw [h'.short c hc k args hfixed]
      grind

theorem Settled.mono {s : Script} {ts us : List Token} (h : s.Settled ts) (hsub : ts ⊆ us) :
    s.Settled us := by
  refine ⟨fun p hp => ?_, h.short⟩
  obtain ⟨t, ht, rfl⟩ := List.mem_map.1 (h.inside p hp)
  exact List.mem_map_of_mem (hsub ht)

theorem settled_nil (ts : List Token) : Settled {} ts :=
  ⟨by simp [mem_spots, Command.walk], by simp [Command.walk]⟩

theorem Settled.enclose {s : Script} {ts : List Token} (h : s.Settled ts) {t : Token} {c : Command}
    (pos : c.pos = t.pos) (encloses : c.body = s.commands) (fixed : c.fixed? = none) :
    Settled ⟨[c], s.warnings⟩ (t :: ts) := by
  have hwalk : Command.walk [c] = c :: Command.walk s.commands := by
    rw [Command.walk_cons, encloses, Command.walk, List.append_nil]
  constructor
  · intro p hp
    rw [List.map_cons, List.mem_cons]
    rcases mem_spots.1 hp with ⟨d, hd, rfl⟩ | hw
    · rw [hwalk, List.mem_cons] at hd
      rcases hd with rfl | hd
      · exact .inl pos
      · exact .inr (h.inside _ (mem_spots.2 (.inl ⟨d, hd, rfl⟩)))
    · exact .inr (h.inside p (mem_spots.2 (.inr hw)))
  · intro d hd k args hfixed
    rw [hwalk, List.mem_cons] at hd
    rcases hd with rfl | hd
    · rw [fixed] at hfixed
      cases hfixed
    · exact h.short d hd k args hfixed

end Script

namespace Step

variable {t : Token} {stack : List Operand} {step : Step}

def topTexts (k : Nat) (stack : List Operand) : List String :=
  (stack.take (min k stack.length)).reverse.map Operand.text

theorem topTexts_eq (k : Nat) (stack : List Operand) :
    topTexts k stack = (stack.take k).reverse.map Operand.text := by
  rw [topTexts, ← List.take_eq_take_min]

theorem length_topTexts (k : Nat) (stack : List Operand) :
    (topTexts k stack).length = min k stack.length := by
  simp [topTexts]

theorem settled_here (commands : ∀ c ∈ step.commands, c.pos = t.pos ∧ c.body = [])
    (warnings : ∀ w ∈ step.warnings, w.pos = t.pos)
    (short : ∀ c ∈ step.commands, ∀ k args, c.fixed? = some (k, args) →
      (args.length < k ↔ ∃ w, w ∈ step.warnings)) :
    Script.Settled ⟨step.commands, step.warnings⟩ [t] := by
  have hwalk : Command.walk step.commands = step.commands :=
    Command.walk_of_flat fun c hc => (commands c hc).2
  constructor
  · intro p hp
    rw [List.map_singleton, List.mem_singleton]
    rcases Script.mem_spots.1 hp with ⟨c, hc, rfl⟩ | ⟨w, hw, rfl⟩
    · exact (commands c (hwalk ▸ hc)).1
    · exact warnings w hw
  · intro c hc k args hfixed
    have hc' : c ∈ step.commands := hwalk ▸ hc
    rw [short c hc' k args hfixed, (commands c hc').1]
    exact exists_congr fun w => ⟨fun hw => ⟨hw, warnings w hw⟩, And.left⟩

theorem settled_plain
    (commands : ∀ c ∈ step.commands, c.pos = t.pos ∧ c.body = [] ∧ c.fixed? = none)
    (warnings : ∀ w ∈ step.warnings, w.pos = t.pos) :
    Script.Settled ⟨step.commands, step.warnings⟩ [t] := by
  refine settled_here (fun c hc => ⟨(commands c hc).1, (commands c hc).2.1⟩) warnings ?_
  intro c hc k args hfixed
  rw [(commands c hc).2.2] at hfixed
  cases hfixed

theorem commands_pop (k : Nat) (a : List String → Action) :
    (pop t k stack fun args => emit t (a args)).commands = [.act t.pos (a (topTexts k stack))] := by
  rw [topTexts_eq]
  rfl

theorem settled_pop (k : Nat) (a : List String → Action)
    (fixed : ∀ args, (Command.act t.pos (a args)).fixed? = some (k, args)) :
    Script.Settled ⟨(pop t k stack fun args => emit t (a args)).commands,
      (pop t k stack fun args => emit t (a args)).warnings⟩ [t] := by
  refine settled_here ?_ (pos_of_pop k _) ?_
  · simp [commands_pop, Command.pos, Command.body]
  · intro c hc k' args hfixed
    rw [commands_pop, List.mem_singleton] at hc
    rw [hc, fixed, Option.some.injEq, Prod.mk.injEq] at hfixed
    obtain ⟨rfl, rfl⟩ := hfixed
    have hshort : min k stack.length < k ↔ stack.length < k := by omega
    rw [length_topTexts, hshort, pop]
    split <;> simp_all

theorem Outcome.brackets_sublist (h : step.Outcome t stack) :
    (brackets step.stack).Sublist (brackets stack) := by
  cases h with
  | plain commands warnings kept => exact kept
  | pops k a fixed => exact VippDocdef.brackets_sublist (List.drop_sublist k stack)
  | body command taken commands warnings pos encloses fixed kept =>
    exact (List.sublist_cons_self _ _).trans kept

/-- What a step says comes from its word and from the bracket that it takes, and no longer waits. -/
theorem Outcome.settled (h : step.Outcome t stack)
    (hstack : ∀ b ∈ brackets stack, b.2.Settled b.1) :
    ∃ own, Script.Settled ⟨step.commands, step.warnings⟩ own ∧
      (own ++ held step.stack).Subperm (t :: held stack) := by
  have hword (hkept : (brackets step.stack).Sublist (brackets stack)) :
      ([t] ++ held step.stack).Subperm (t :: held stack) := ((hkept.flatMap _).cons_cons t).subperm
  cases h with
  | plain commands warnings kept => exact ⟨[t], settled_plain commands warnings, hword kept⟩
  | pops k a fixed =>
    exact ⟨[t], settled_pop k a fixed,
      hword (VippDocdef.brackets_sublist (List.drop_sublist k stack))⟩
  | @body _ c inner script command taken commands warnings pos encloses fixed kept =>
    have hsettled : script.Settled inner := hstack (inner, script) (kept.subset List.mem_cons_self)
    have hheld : (inner ++ held step.stack).Sublist (held stack) := by
      simpa [held] using kept.flatMap Prod.fst
    refine ⟨t :: inner, ?_, (hheld.cons_cons t).subperm⟩
    rw [commands, warnings]
    exact hsettled.enclose pos encloses fixed

end Step

namespace Reading

section Nested

variable {t : Token} {inner after rest waiting : List Token} (left : (inner ++ after).Sublist rest)
include left

theorem left_sublist : (t :: inner ++ (after ++ waiting)).Sublist (t :: rest ++ waiting) := by
  rw [← List.append_assoc, List.cons_append, List.cons_append]
  exact (left.append (List.Sublist.refl waiting)).cons_cons t

theorem nodup_inner (hnodup : ((t :: rest ++ waiting).map Token.pos).Nodup) :
    ((inner ++ held []).map Token.pos).Nodup := by
  have hinner : inner.Sublist (t :: rest ++ waiting) :=
    (List.sublist_append_right [t] inner).trans
      ((List.sublist_append_left _ _).trans (left_sublist left))
  simpa [held, brackets] using hnodup.sublist (hinner.map Token.pos)

theorem nodup_after (hnodup : ((t :: rest ++ waiting).map Token.pos).Nodup) :
    ((after ++ waiting).map Token.pos).Nodup :=
  hnodup.sublist (((List.sublist_append_right _ _).trans (left_sublist left)).map Token.pos)

end Nested

/-- A reading settles what it reads, at every depth. -/
theorem settled {ts : List Token} {stack : List Operand}
    (hstack : ∀ b ∈ brackets stack, b.2.Settled b.1)
    (hnodup : ((ts ++ held stack).map Token.pos).Nodup) :
    (read ts stack).toScript.Settled (ts ++ held stack) := by
  -- A turn joins two scripts. Their tokens, ahead or in brackets, stand at different places.
  fun_induction read ts stack with
  | case1 stack => exact Script.settled_nil _
  | case2 t rest stack _ step after hturn ih =>
    have houtcome := Turn.outcome_of_go hturn
    obtain ⟨own, hown, hsub⟩ := houtcome.settled hstack
    have htakes := hturn ▸ Turn.takes_ofToken t rest stack
    cases htakes with
    | go taken left =>
      have hparts : (after ++ (own ++ held step.stack)).Subperm (t :: rest ++ held stack) :=
        (left.subperm.append hsub).trans List.perm_middle.subperm
      have hall : (own ++ (after ++ held step.stack)).Subperm (t :: rest ++ held stack) :=
        (List.perm_append_comm_assoc own after _).subperm.trans hparts
      have hafter := (List.sublist_append_right own (after ++ held step.stack)).subperm.trans hall
      have hread := ih (fun b hb => hstack b (houtcome.brackets_sublist.subset hb))
        (Token.nodup_of_subperm hafter hnodup)
      exact hown.add hread hall hnodup
  | case3 t rest stack _ inner after hturn ihinner ih =>
    have htakes := hturn ▸ Turn.takes_ofToken t rest stack
    cases htakes with
    | push left =>
      have hinner := ihinner (List.forall_mem_nil _) (nodup_inner left hnodup)
      have hafter : (after ++ (inner ++ held stack)).Subperm (t :: rest ++ held stack) :=
        (List.perm_append_comm_assoc after inner _).subperm.trans
          ((List.sublist_cons_self t _).trans (left_sublist left)).subperm
      refine (ih ?_ (Token.nodup_of_subperm hafter hnodup)).mono hafter.subset
      exact List.forall_mem_cons.2 ⟨hinner.mono (by simp [held, brackets]), hstack⟩
  | case4 t rest stack _ condition inner after hturn body ihinner ih =>
    have htakes := hturn ▸ Turn.takes_ofToken t rest stack
    cases htakes with
    | branch head left =>
      have hinner := ihinner (List.forall_mem_nil _) (nodup_inner left hnodup)
      have hcommand :
          Script.Settled ⟨[.ifBlock t.pos condition body.commands], body.warnings⟩ (t :: inner) :=
        (hinner.mono (by simp [held, brackets])).enclose rfl rfl rfl
      exact hcommand.add (ih hstack (nodup_after left hnodup)) (left_sublist left).subperm hnodup
  | case5 t rest stack _ inner after hturn body ihinner ih =>
    have htakes := hturn ▸ Turn.takes_ofToken t rest stack
    cases htakes with
    | otherwise head left =>
      have hinner := ihinner (List.forall_mem_nil _) (nodup_inner left hnodup)
      have hcommand :
          Script.Settled ⟨[.elseBlock t.pos body.commands], body.warnings⟩ (t :: inner) :=
        (hinner.mono (by simp [held, brackets])).enclose rfl rfl rfl
      exact hcommand.add (ih hstack (nodup_after left hnodup)) (left_sublist left).subperm hnodup

end Reading

namespace Turn

variable {t : Token} {rest : List Token} {stack : List Operand}

theorem ofToken_of_isCommand (h : t.isCommand = true) :
    ofToken t rest stack = ofCommand t rest stack := by
  have hother : ofOther t rest stack = ofCommand t rest stack := if_pos h
  have hminus : t.text ≠ "-" := by
    rintro htext
    simp [Token.isCommand, htext, specialWords, comparisons, genericArity] at h
  unfold ofToken
  split
  · next hkind => simp [Token.isCommand, hkind] at h
  · next hkind => simp [Token.isCommand, hkind] at h
  · split
    · rw [if_neg (by simp [hminus])]
      exact hother
    · exact hother
  · exact hother

theorem splitBlock?_append {above below : List Operand} {inner : List Token} {script : Script}
    (h : ∀ o ∈ above, o.isBlock = false) :
    Step.splitBlock? (above ++ .block inner script :: below) = some (above, script, below) := by
  induction above with
  | nil => rfl
  | cons top above ih =>
    obtain ⟨htop, habove⟩ := List.forall_mem_cons.1 h
    cases top with
    | literal text => simp [Step.splitBlock?, ih habove]
    | block inner script => cases htop
    | tagged text tag => simp [Step.splitBlock?, ih habove]

theorem warnings_of_takesBody {inner : List Token} {script : Script} (command : t.isCommand = true)
    (h : t.TakesBody stack inner script) (rest : List Token) :
    ∃ step after, ofToken t rest stack = .go step after ∧ step.warnings = script.warnings := by
  rw [ofToken_of_isCommand command, ofCommand]
  cases h with
  | definition word => simp [word, Step.ofWord, Step.definition]
  | elseBranch word => simp [word, Turn.elseBranch]
  | conditional word topmost => simp [word, Step.postfixIf?, splitBlock?_append topmost]

theorem warns_of_silent (command : t.isCommand = true)
    (word : t.text = "SETVAR" ∨ t.text = "XGFRESDEF") :
    ∃ step, ofToken t rest stack = .go step rest ∧
      (step.commands = [] → ∃ w ∈ step.warnings, w.pos = t.pos) := by
  rw [ofToken_of_isCommand command, ofCommand]
  rcases word with word | word
  · refine ⟨Step.setVar t stack, by simp [word, Step.ofWord], ?_⟩
    unfold Step.setVar
    dsimp only
    split <;> simp [Step.emit]
  · refine ⟨Step.definition t stack, by simp [word, Step.ofWord], ?_⟩
    unfold Step.definition
    split <;> simp

end Turn

namespace Loop

inductive Enters : Loop → Loop → Prop where
  | taken {t : Token} {rest inner : List Token} {stack : List Operand} {script said : Script}
      (command : t.isCommand = true) (taken : t.TakesBody stack inner script) :
      Enters ⟨t :: rest, stack, said⟩ ⟨inner, [], {}⟩
  | branch {t : Token} {rest inner after : List Token} {stack : List Operand} {said : Script}
      {condition : List String} (turn : Turn.ofToken t rest stack = .branch condition inner after) :
      Enters ⟨t :: rest, stack, said⟩ ⟨inner, [], {}⟩
  | otherwise {t : Token} {rest inner after : List Token} {stack : List Operand} {said : Script}
      (turn : Turn.ofToken t rest stack = .otherwise inner after) :
      Enters ⟨t :: rest, stack, said⟩ ⟨inner, [], {}⟩

/-- What a reading comes to, in the bodies that it reads too. -/
abbrev Reaches : Loop → Loop → Prop := Relation.ReflTransGen fun l l' => l.Step l' ∨ l.Enters l'

/-- The next word says `c`, and takes for it as many of the topmost operands as there are, up to
`k`. -/
inductive Pops : Loop → Command → Nat → List String → Prop where
  | intro {t : Token} {rest after : List Token} {stack : List Operand} {said : Script}
      {step : VippDocdef.Step} {c : Command} {k : Nat} (turn : Turn.ofToken t rest stack
        = .go step after)
      (pos : c.pos = t.pos) (command : step.commands = [c])
      (below : step.stack = stack.drop (min k stack.length)) :
      Pops ⟨t :: rest, stack, said⟩ c k (Step.topTexts k stack)

def Explains (l : Loop) (cs : List Command) : Prop :=
  ∀ c ∈ Command.walk cs, ∀ k args, c.fixed? = some (k, args) → ∃ l', l.Reaches l' ∧ l'.Pops c k args

theorem Explains.of_reached {l l' : Loop} {cs : List Command} (h : l'.Explains cs)
    (hnext : l.Step l' ∨ l.Enters l') : l.Explains cs := by
  intro c hc k args hfixed
  obtain ⟨l'', hreaches, hpops⟩ := h c hc k args hfixed
  exact ⟨l'', .head hnext hreaches, hpops⟩

theorem Explains.append {l : Loop} {cs ds : List Command} (h : l.Explains cs) (h' : l.Explains ds) :
    l.Explains (cs ++ ds) := by
  intro c hc
  rw [Command.walk_append, List.mem_append] at hc
  exact hc.elim (h c) (h' c)

theorem Explains.enclose {l l' : Loop} {c : Command} (h : l'.Explains c.body)
    (henters : l.Enters l') (fixed : c.fixed? = none) : l.Explains [c] := by
  intro d hd k args hfixed
  rw [Command.walk_cons, List.mem_cons, Command.walk, List.append_nil] at hd
  rcases hd with rfl | hd
  · rw [fixed] at hfixed
    cases hfixed
  · exact h.of_reached (.inr henters) d hd k args hfixed

end Loop

theorem Step.Outcome.explained {t : Token} {rest after : List Token} {stack : List Operand}
    {said : Script}
    {step : Step} (h : step.Outcome t stack) (turn : Turn.ofToken t rest stack = .go step after)
    (hstack : ∀ b ∈ brackets stack, Loop.Explains ⟨b.1, [], {}⟩ b.2.commands) :
    Loop.Explains ⟨t :: rest, stack, said⟩ step.commands := by
  cases h with
  | plain commands warnings kept =>
    intro c hc k args hfixed
    rw [Command.walk_of_flat fun c hc => (commands c hc).2.1] at hc
    rw [(commands c hc).2.2] at hfixed
    cases hfixed
  | pops k a fixed =>
    intro c hc k' args hfixed
    rw [commands_pop, Command.walk_of_flat (by simp [Command.body]), List.mem_singleton] at hc
    rw [hc, fixed, Option.some.injEq, Prod.mk.injEq] at hfixed
    obtain ⟨rfl, rfl⟩ := hfixed
    have hpos : c.pos = t.pos := hc ▸ rfl
    have hdrop : stack.drop k = stack.drop (min k stack.length) := by
      rcases Nat.le_total k stack.length with hle | hle
      · rw [Nat.min_eq_left hle]
      · rw [Nat.min_eq_right hle, List.drop_length, List.drop_of_length_le hle]
    exact ⟨_, .refl, .intro turn hpos (by rw [commands_pop, hc]) hdrop⟩
  | @body _ c inner script command taken commands warnings pos encloses fixed kept =>
    have hbody : Loop.Explains ⟨inner, [], {}⟩ c.body :=
      encloses ▸ hstack (inner, script) (kept.subset List.mem_cons_self)
    rw [commands]
    exact hbody.enclose (.taken command taken) fixed

theorem Reading.explained {ts : List Token} {stack : List Operand}
    (hstack : ∀ b ∈ brackets stack, Loop.Explains ⟨b.1, [], {}⟩ b.2.commands) (said : Script) :
    Loop.Explains ⟨ts, stack, said⟩ (Reading.read ts stack).commands := by
  -- A bracket is read as soon as it is pushed, but it is entered only by the word that takes it.
  fun_induction Reading.read ts stack generalizing said with
  | case1 stack => simp [Loop.Explains, Command.walk]
  | case2 t rest stack _ step after hturn ih =>
    have houtcome := Turn.outcome_of_go hturn
    have hafter := ih (fun b hb => hstack b (houtcome.brackets_sublist.subset hb))
      (said.add step.commands step.warnings)
    exact (houtcome.explained hturn hstack).append (hafter.of_reached (.inl (.go hturn)))
  | case3 t rest stack _ inner after hturn ihinner ih =>
    have hinner := ihinner (List.forall_mem_nil _) {}
    exact (ih (List.forall_mem_cons.2 ⟨hinner, hstack⟩) said).of_reached (.inl (.push hturn))
  | case4 t rest stack _ condition inner after hturn body ihinner ih =>
    have hinner :
        Loop.Explains ⟨inner, [], {}⟩ (Command.ifBlock t.pos condition body.commands).body :=
      ihinner (List.forall_mem_nil _) {}
    exact (hinner.enclose (.branch hturn) rfl).append
      ((ih hstack _).of_reached (.inl (.branch hturn)))
  | case5 t rest stack _ inner after hturn body ihinner ih =>
    have hinner : Loop.Explains ⟨inner, [], {}⟩ (Command.elseBlock t.pos body.commands).body :=
      ihinner (List.forall_mem_nil _) {}
    exact (hinner.enclose (.otherwise hturn) rfl).append
      ((ih hstack _).of_reached (.inl (.otherwise hturn)))

namespace Loop

/-- Every bracket on the stack says what a reading of it says. -/
def Backed (l : Loop) : Prop := ∀ b ∈ brackets l.stack, b.2 = (Reading.read b.1 []).toScript

theorem Step.backed {l l' : Loop} (h : l.Step l') (hl : l.Backed) : l'.Backed := by
  cases h with
  | go turn => exact fun b hb => hl b ((Turn.outcome_of_go turn).brackets_sublist.subset hb)
  | push turn => exact List.forall_mem_cons.2 ⟨rfl, hl⟩
  | branch turn => exact hl
  | otherwise turn => exact hl

theorem warnings_subset_of_go {t : Token} {rest after : List Token} {stack : List Operand}
    {said : Script} {step : VippDocdef.Step} (turn : Turn.ofToken t rest stack = .go step after) :
    step.warnings ⊆ (result ⟨t :: rest, stack, said⟩).warnings := by
  rw [result, Reading.read_go turn]
  intro w hw
  simp [Reading.after, hw]

theorem Enters.backed {l l' : Loop} (h : l.Enters l') : l'.Backed := by
  cases h <;> exact List.forall_mem_nil _

theorem Enters.warnings_subset {l l' : Loop} (h : l.Enters l') (hl : l.Backed) :
    l'.result.warnings ⊆ l.result.warnings := by
  intro w hw
  cases h with
  | @taken t rest inner stack script said command taken =>
    have hscript : script = (Reading.read inner []).toScript :=
      hl (inner, script) taken.mem_brackets
    obtain ⟨step, after, hturn, hwarnings⟩ := Turn.warnings_of_takesBody command taken rest
    apply warnings_subset_of_go hturn
    rw [hwarnings, hscript]
    exact hw
  | branch turn =>
    rw [result, Reading.read_branch turn]
    simp_all [Reading.after, result]
  | otherwise turn =>
    rw [result, Reading.read_otherwise turn]
    simp_all [Reading.after, result]

theorem Reaches.warnings_subset {l l' : Loop} (h : l.Reaches l') (hl : l.Backed) :
    l'.Backed ∧ l'.result.warnings ⊆ l.result.warnings := by
  induction h with
  | refl => exact ⟨hl, List.Subset.refl _⟩
  | tail _ hstep ih =>
    obtain ⟨hbacked, hsub⟩ := ih
    rcases hstep with hstep | henters
    · exact ⟨hstep.backed hbacked, hstep.result_eq ▸ hsub⟩
    · exact ⟨henters.backed, List.Subset.trans (henters.warnings_subset hbacked) hsub⟩

end Loop

/-- A command with a fixed number of operands takes the topmost ones, as far as there are any, and a
warning stands at its place exactly if there were too few. An assignment or a definition that cannot
be said is warned of too. -/
theorem Script.ofText_arity (source : String) :
    let script : Script := Script.ofText source
    let start : Loop := ⟨(Scanned.ofText source).tokens.filter fun t => !t.isTrivia, [], {}⟩
    (∀ c ∈ Command.walk script.commands, ∀ k args, c.fixed? = some (k, args) →
      (∃ l, start.Reaches l ∧ l.Pops c k args) ∧ args.length ≤ k ∧
        (args.length < k ↔ ∃ w ∈ script.warnings, w.pos = c.pos)) ∧
    ∀ t rest stack said, start.Reaches ⟨t :: rest, stack, said⟩ → t.isCommand = true →
      t.text = "SETVAR" ∨ t.text = "XGFRESDEF" →
      ∃ step, Turn.ofToken t rest stack = .go step rest ∧
        (step.commands = [] → ∃ w ∈ script.warnings, w.pos = t.pos) := by
  intro script start
  have hnodup : ((start.ahead ++ held []).map Token.pos).Nodup := by
    have hbefore := (Lexeme.pairwise_before_ofText source).filter fun t => !t.isTrivia
    rw [show held [] = [] from rfl, List.append_nil]
    exact List.pairwise_map.2 (hbefore.imp Position.Before.ne)
  have hsettled : script.Settled (start.ahead ++ held []) :=
    Reading.settled (List.forall_mem_nil _) hnodup
  have hexplained : start.Explains script.commands := Reading.explained (List.forall_mem_nil _) {}
  constructor
  · intro c hc k args hfixed
    obtain ⟨l, hreaches, hpops⟩ := hexplained c hc k args hfixed
    refine ⟨⟨l, hreaches, hpops⟩, ?_, hsettled.short c hc k args hfixed⟩
    cases hpops with
    | intro =>
      rw [Step.length_topTexts]
      exact Nat.min_le_left _ _
  · intro t rest stack said hreaches hcommand hword
    obtain ⟨step, hturn, hwarns⟩ := Turn.warns_of_silent hcommand hword
    refine ⟨step, hturn, fun hsilent => ?_⟩
    obtain ⟨w, hw, hpos⟩ := hwarns hsilent
    exact ⟨w, (hreaches.warnings_subset (List.forall_mem_nil _)).2 (Loop.warnings_subset_of_go hturn
      hw), hpos⟩

/-- Of the four operands of a `CLIP` in braces there is one, and the assignment before it has
none. -/
theorem Script.ofText_arity_nested :
    let script := Script.ofText "SETVAR\x7b1 CLIP\x7dELSE"
    (∃ c ∈ Command.walk script.commands, c.fixed? = some (4, ["1"]) ∧
      ∃ w ∈ script.warnings, w.pos = c.pos) ∧
    ∃ w ∈ script.warnings, w.pos = ⟨1, 1⟩ := by
  intro script
  obtain ⟨hfixed, hwords⟩ := Script.ofText_arity "SETVAR\x7b1 CLIP\x7dELSE"
  have hclip : ∃ c ∈ Command.walk script.commands, c.fixed? = some (4, ["1"]) := by decide +kernel
  obtain ⟨c, hc, hargs⟩ := hclip
  refine ⟨⟨c, hc, hargs, (hfixed c hc 4 ["1"] hargs).2.2.1 (by decide)⟩, ?_⟩
  let word : Token := ⟨.keyword, "SETVAR", ⟨1, 1⟩, 0⟩
  let tokens := (Scanned.ofText "SETVAR\x7b1 CLIP\x7dELSE").tokens.filter fun t => !t.isTrivia
  have htokens : tokens = word :: tokens.tail := by decide +kernel
  have hreaches : Loop.Reaches ⟨tokens, [], {}⟩ ⟨word :: tokens.tail, [], {}⟩ := htokens ▸ .refl
  obtain ⟨step, hturn, hwarns⟩ := hwords word tokens.tail [] {} hreaches (by decide) (.inl rfl)
  have hstep : Turn.ofToken word tokens.tail [] = .go (Step.setVar word []) tokens.tail := rfl
  rw [hstep] at hturn
  injection hturn with hturn
  exact hwarns (hturn ▸ rfl)

end VippDocdef
