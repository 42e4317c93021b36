import Mathlib.Logic.Relation
import VippDocdef.Command.OfTokens

/-! Operands that no command took. They stay on the stack for the rest of a source text, and
`SETVAR`, which looks at four operands, comes to see them. -/

set_option autoImplicit false

namespace VippDocdef

def Script.add (s : Script) (commands : List Command) (warnings : List CommandWarning) : Script :=
  ⟨s.commands ++ commands, s.warnings ++ warnings⟩

/-- How far a reading has come: the tokens ahead, the operands that wait, and what was said. -/
structure Loop where
  ahead : List Token
  stack : List Operand
  said : Script := {}

namespace Loop

inductive Step : Loop → Loop → Prop where
  | go {t : Token} {rest after : List Token} {stack : List Operand} {said : Script}
      {step : VippDocdef.Step} (turn : Turn.ofToken t rest stack = .go step after) :
      Step ⟨t :: rest, stack, said⟩ ⟨after, step.stack, said.add step.commands step.warnings⟩
  | push {t : Token} {rest inner after : List Token} {stack : List Operand} {said : Script}
      (turn : Turn.ofToken t rest stack = .push inner after) :
      Step ⟨t :: rest, stack, said⟩
        ⟨after, .block inner (Reading.read inner []).toScript :: stack, said⟩
  | branch {t : Token} {rest inner after : List Token} {stack : List Operand} {said : Script}
      {condition : List String} (turn : Turn.ofToken t rest stack = .branch condition inner after) :
      Step ⟨t :: rest, stack, said⟩ ⟨after, stack,
        said.add [.ifBlock t.pos condition (Reading.read inner []).commands]
          (Reading.read inner []).warnings⟩
  | otherwise {t : Token} {rest inner after : List Token} {stack : List Operand} {said : Script}
      (turn : Turn.ofToken t rest stack = .otherwise inner after) :
      Step ⟨t :: rest, stack, said⟩ ⟨after, stack,
        said.add [.elseBlock t.pos (Reading.read inner []).commands] (Reading.read inner
          []).warnings⟩

abbrev Run : Loop → Loop → Prop := Relation.ReflTransGen Step

def result (l : Loop) : Reading :=
  (Reading.read l.ahead l.stack).after l.said.commands l.said.warnings

theorem Step.result_eq {l l' : Loop} (h : l.Step l') : l.result = l'.result := by
  cases h with
  | go turn =>
    rw [result, Reading.read]
    split <;> simp_all [result, Reading.after, Script.add]
  | push turn =>
    rw [result, Reading.read]
    split <;> simp_all [result]
  | branch turn =>
    rw [result, Reading.read]
    split <;> simp_all [result, Reading.after, Script.add]
  | otherwise turn =>
    rw [result, Reading.read]
    split <;> simp_all [result, Reading.after, Script.add]

theorem Run.result_eq {l l' : Loop} (h : l.Run l') : l.result = l'.result := by
  induction h with
  | refl => rfl
  | tail _ step ih => exact ih.trans step.result_eq

theorem Run.read_eq {ts : List Token} {stack : List Operand} {said : Script}
    (h : Run ⟨ts, [], {}⟩ ⟨[], stack, said⟩) : Reading.read ts [] = ⟨said, stack⟩ := by
  have hstart : result ⟨ts, [], {}⟩ = Reading.read ts [] := rfl
  have hend : result ⟨[], stack, said⟩ = ⟨said, stack⟩ := by
    simp [result, Reading.read, Reading.after]
  rw [← hstart, h.result_eq, hend]

end Loop

/-- Pushed as it stands, unless a number follows to which a minus sign would belong. -/
def Token.Pushed (t : Token) : Prop :=
  ∀ rest stack, (∀ n ∈ rest.head?, n.kind ≠ .number) →
    Turn.ofToken t rest stack = .go { stack := .literal t.text :: stack } rest

theorem Turn.ofToken_variable {t : Token} (h : t.kind = .variable) (rest : List Token)
    (stack : List Operand) :
    Turn.ofToken t rest stack = .go { stack := .literal t.text :: stack } rest := by
  simp [ofToken, ofOther, Token.isCommand, h]

theorem Loop.Step.literal {t : Token} {rest : List Token} {stack : List Operand} {said : Script}
    (h : Turn.ofToken t rest stack = .go { stack := .literal t.text :: stack } rest) :
    Loop.Step ⟨t :: rest, stack, said⟩ ⟨rest, .literal t.text :: stack, said⟩ := by
  have hadd : said.add [] [] = said := by simp [Script.add]
  have hstep :
      Loop.Step ⟨t :: rest, stack, said⟩ ⟨rest, .literal t.text :: stack, said.add [] []⟩ :=
    .go h
  rwa [hadd] at hstep

/-- The tokens `/NAME value SETVAR`, or `/NAME value /INI SETVAR`. -/
structure SetVar where
  name : Token
  value : Token
  mark : Option Token
  word : Token
  isVariable : name.kind = .variable
  isName : name.text ≠ "/INI"
  isOperand : value.Pushed
  isMark : ∀ m ∈ mark, m.kind = .variable ∧ m.text = "/INI"
  isWord : word.kind = .keyword ∧ word.text = "SETVAR"

namespace SetVar

def tokens (a : SetVar) : List Token := a.name :: a.value :: (a.mark.toList ++ [a.word])

/-- The number of operands below its own that `SETVAR` sees. -/
def reach (a : SetVar) : Nat := if a.mark.isSome then 1 else 2

def operands (a : SetVar) : List Operand :=
  (a.mark.map fun m => Operand.literal m.text).toList
    ++ [.literal a.value.text, .literal a.name.text]

def params (a : SetVar) (stack : List Operand) : List String :=
  (stack.take a.reach).reverse.map Operand.text
    ++ ([a.name.text, a.value.text] ++ (a.mark.map Token.text).toList)

/-- The texts that can be the name or the value. -/
def named (a : SetVar) (stack : List Operand) : List String := (a.params stack).filter (· ≠ "/INI")

theorem params_eq (a : SetVar) (stack : List Operand) :
    ((a.operands ++ stack).take 4).reverse.map Operand.text = a.params stack := by
  cases hmark : a.mark <;> simp [operands, params, reach, hmark, Operand.text]

theorem drop_operands (a : SetVar) (stack : List Operand) :
    (a.operands ++ stack).drop 4 = stack.drop a.reach := by
  cases hmark : a.mark <;> simp [operands, reach, hmark]

theorem reach_pos (a : SetVar) : 0 < a.reach := by
  unfold reach
  split <;> omega

theorem stack_setVar (t : Token) (stack : List Operand) :
    (Step.setVar t stack).stack = stack.drop 4 := by
  unfold Step.setVar
  dsimp only
  split <;> rfl

theorem setVar_of_named {a : SetVar} {stack : List Operand} {target value : String}
    {rest : List String} (h : a.named stack = target :: value :: rest) :
    Step.setVar a.word (a.operands ++ stack) =
      { stack := stack.drop a.reach
        commands := Step.emit a.word
          (.assign ⟨.set, target, some value, (a.params stack).contains "/INI"⟩) } := by
  rw [named] at h
  simp only [Step.setVar, params_eq, drop_operands, h]

theorem setVar_of_short {a : SetVar} {stack : List Operand} (h : (a.named stack).length < 2) :
    Step.setVar a.word (a.operands ++ stack) =
      { stack := stack.drop a.reach, warnings := [⟨a.word.pos, .noAssignment⟩] } := by
  simp only [Step.setVar, params_eq, drop_operands]
  split
  · next target value rest hnamed =>
    rw [named, hnamed] at h
    simp only [List.length_cons] at h
    omega
  · rfl

theorem run_operands (a : SetVar) (stack : List Operand) (said : Script) :
    Loop.Run ⟨a.tokens, stack, said⟩ ⟨[a.word], a.operands ++ stack, said⟩ := by
  have hword : a.word.kind ≠ .number := by simp [a.isWord.1]
  have hname : Loop.Step ⟨a.tokens, stack, said⟩
      ⟨a.value :: (a.mark.toList ++ [a.word]), .literal a.name.text :: stack, said⟩ :=
    .literal (Turn.ofToken_variable a.isVariable _ stack)
  refine .head hname ?_
  unfold operands
  cases hmark : a.mark with
  | none => exact .single (.literal (a.isOperand _ _ (by simpa using hword)))
  | some m =>
    obtain ⟨hkind, -⟩ := a.isMark m hmark
    have hvalue := a.isOperand [m, a.word] (.literal a.name.text :: stack) (by simp [hkind])
    exact .head (.literal hvalue) (.single (.literal (Turn.ofToken_variable hkind _ _)))

theorem ofToken_word (a : SetVar) (stack : List Operand) :
    Turn.ofToken a.word [] stack = .go (Step.setVar a.word stack) [] := by
  obtain ⟨hkind, htext⟩ := a.isWord
  simp [Turn.ofToken, Turn.ofOther, Turn.ofCommand, Token.isCommand, specialWords,
    Step.ofWord, hkind, htext]

theorem read_of_run {a : SetVar} {before : List Token} {stack : List Operand} {said : Script}
    (h : Loop.Run ⟨before ++ a.tokens, [], {}⟩ ⟨a.tokens, stack, said⟩) :
    let step := Step.setVar a.word (a.operands ++ stack)
    Reading.read (before ++ a.tokens) [] = ⟨said.add step.commands step.warnings, step.stack⟩ := by
  have hrun := h.trans (a.run_operands stack said)
  exact Loop.Run.read_eq (hrun.tail (.go (a.ofToken_word _)))

def assigned (a : SetVar) (said : Script) (target value : String) (initial : Bool)
    (left : List Operand) : Reading :=
  ⟨said.add (Step.emit a.word (.assign ⟨.set, target, some value, initial⟩)) [], left⟩

theorem params_nil (a : SetVar) :
    a.params [] = [a.name.text, a.value.text] ++ if a.mark.isSome then ["/INI"] else [] := by
  cases hmark : a.mark with
  | none => simp [params, hmark]
  | some m =>
    obtain ⟨-, htext⟩ := a.isMark m hmark
    simp [params, hmark, htext]

theorem named_nil {a : SetVar} (h : a.value.text ≠ "/INI") :
    a.named [] = [a.name.text, a.value.text] := by
  have hname := a.isName
  rw [named, params_nil]
  split <;> simp [hname, h]

theorem length_named_nil {a : SetVar} (h : a.value.text = "/INI") : (a.named []).length < 2 := by
  have hname := a.isName
  rw [named, params_nil]
  split <;> simp [hname, h]

theorem contains_params_nil {a : SetVar} (h : a.value.text ≠ "/INI") :
    (a.params []).contains "/INI" = a.mark.isSome := by
  have hname := a.isName
  rw [params_nil]
  cases a.mark <;> simp [hname.symm, h.symm]

/-- Operands left over from before count for `SETVAR` like its own. Only where none are left is the
value given to the name that stands before it. -/
theorem read_setVar (a : SetVar) {before : List Token} {stack : List Operand} {said : Script}
    (h : Loop.Run ⟨before ++ a.tokens, [], {}⟩ ⟨a.tokens, stack, said⟩) :
    (∀ target value rest, a.named stack = target :: value :: rest →
      Reading.read (before ++ a.tokens) []
        = a.assigned said target value ((a.params stack).contains "/INI") (stack.drop a.reach)) ∧
    ((a.named stack).length < 2 →
      Reading.read (before ++ a.tokens) []
        = ⟨said.add [] [⟨a.word.pos, .noAssignment⟩], stack.drop a.reach⟩) ∧
    (Reading.read (before ++ a.tokens) []
      = a.assigned said a.name.text a.value.text a.mark.isSome stack
      ↔ stack = [] ∧ a.value.text ≠ "/INI") := by
  have hread := read_of_run h
  refine ⟨fun target value rest hnamed => ?_, fun hshort => ?_, fun heq => ?_,
    fun ⟨hnil, hvalue⟩ => ?_⟩
  · rw [hread, setVar_of_named hnamed, assigned]
  · rw [hread, setVar_of_short hshort]
  · rw [hread, assigned, Reading.mk.injEq] at heq
    obtain ⟨hsaid, hstack⟩ := heq
    have hnil : stack = [] := by
      have hlength := congrArg List.length hstack
      rw [stack_setVar, drop_operands, List.length_drop] at hlength
      have hreach := a.reach_pos
      exact List.eq_nil_of_length_eq_zero (by omega)
    subst hnil
    refine ⟨rfl, fun hvalue => ?_⟩
    -- without a value there is a warning and no command
    rw [setVar_of_short (length_named_nil hvalue)] at hsaid
    simp [Script.add, Step.emit] at hsaid
  · subst hnil
    rw [hread, setVar_of_named (named_nil hvalue), contains_params_nil hvalue, assigned,
      List.drop_nil]

theorem read_setVar_startDbm :
    let before : List Token := [⟨.keyword, "STARTDBM", ⟨1, 1⟩, 0⟩]
    let name : Token := ⟨.variable, "/VAR_A", ⟨2, 1⟩, 9⟩
    let value : Token := ⟨.number, "1", ⟨2, 8⟩, 16⟩
    let word : Token := ⟨.keyword, "SETVAR", ⟨2, 10⟩, 18⟩
    let tokens := before ++ [name, value, word]
    Loop.Run ⟨tokens, [], {}⟩ ⟨[name, value, word], [.literal "STARTDBM"], {}⟩ ∧
      Reading.read tokens []
        = ⟨⟨[.act ⟨2, 10⟩ (.assign ⟨.set, "STARTDBM", some "/VAR_A", false⟩)], []⟩, []⟩ := by
  intro before name value word tokens
  have hvalue : value.Pushed := fun rest stack _ => rfl
  let a : SetVar := ⟨name, value, none, word, rfl, by decide, hvalue, by simp, rfl, rfl⟩
  have h : Loop.Run ⟨before ++ a.tokens, [], {}⟩ ⟨a.tokens, [.literal "STARTDBM"], {}⟩ :=
    .single (.literal rfl)
  exact ⟨h, (read_setVar a h).1 "STARTDBM" "/VAR_A" ["1"] rfl⟩

end SetVar

/-- What a word that no command knows leaves on the stack is assigned in place of the operands. -/
theorem setVar_assigns_leftovers :
    let reading (source : String) : Reading :=
      Reading.read ((Scanned.ofText source).tokens.filter fun t => !t.isTrivia) []
    (reading "(|) SETDBSEP\n").stack.map Operand.text = ["SETDBSEP", "(|)"] ∧
      Command.actions (reading "(|) SETDBSEP\n/VAR_A 1 SETVAR").commands
        = [.assign ⟨.set, "(|)", some "SETDBSEP", false⟩] ∧
      (reading "(|) SETDBSEP\n/VAR_A 1 SETVAR").stack.map Operand.text = [] := by
  decide +kernel

end VippDocdef
