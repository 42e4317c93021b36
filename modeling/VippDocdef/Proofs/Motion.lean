import VippDocdef.Command.OfTokens
import VippDocdef.Proofs.Lexemes

/-! Source texts at other places. Which commands a text says does not depend on where it stands:
only whether two tokens share a line, and whether a number directly follows a minus sign, is ever
asked. -/

set_option autoImplicit false

namespace VippDocdef

/-- A move of tokens that keeps lines together and neighbours next to each other. -/
structure Motion where
  place : Position → Position
  offset : Nat → Nat
  line_eq : ∀ p q, (place p).line = (place q).line ↔ p.line = q.line
  column_eq : ∀ p q, p.line = q.line →
    ((place q).column = (place p).column + 1 ↔ q.column = p.column + 1)

namespace Command

mutual

def moved (place : Position → Position) : Command → Command
  | .act p a => .act (place p) a
  | .ifFlat p c => .ifFlat (place p) c
  | .ifBlock p c b => .ifBlock (place p) c (movedAll place b)
  | .elseFlat p => .elseFlat (place p)
  | .elseBlock p b => .elseBlock (place p) (movedAll place b)
  | .endIf p => .endIf (place p)
  | .define p n b => .define (place p) n (movedAll place b)

def movedAll (place : Position → Position) : List Command → List Command
  | [] => []
  | c :: cs => moved place c :: movedAll place cs

end

theorem movedAll_eq (place : Position → Position) (cs : List Command) :
    movedAll place cs = cs.map (moved place) := by
  induction cs with
  | nil => rfl
  | cons c cs ih => simp [movedAll, ih]

def unplaced : Command → Command := moved fun _ => {}

mutual

theorem unplaced_moved (place : Position → Position) :
    ∀ c : Command, (c.moved place).unplaced = c.unplaced
  | .act .. | .ifFlat .. | .elseFlat _ | .endIf _ => rfl
  | .ifBlock _ c b => congrArg (Command.ifBlock {} c) (unplaced_movedAll place b)
  | .elseBlock _ b => congrArg (Command.elseBlock {}) (unplaced_movedAll place b)
  | .define _ n b => congrArg (Command.define {} n) (unplaced_movedAll place b)

theorem unplaced_movedAll (place : Position → Position) :
    ∀ cs : List Command, movedAll (fun _ => {}) (movedAll place cs) = movedAll (fun _ => {}) cs
  | [] => rfl
  | c :: cs => congrArg₂ List.cons (unplaced_moved place c) (unplaced_movedAll place cs)

end

end Command

def Token.moved (m : Motion) (t : Token) : Token :=
  ⟨t.kind, t.text, m.place t.pos, m.offset t.offset⟩

def CommandWarning.moved (m : Motion) (w : CommandWarning) : CommandWarning :=
  ⟨m.place w.pos, w.cause⟩

def Script.moved (m : Motion) (s : Script) : Script :=
  ⟨s.commands.map (Command.moved m.place), s.warnings.map (CommandWarning.moved m)⟩

def Operand.moved (m : Motion) : Operand → Operand
  | .literal t => .literal t
  | .block ts s => .block (ts.map (Token.moved m)) (s.moved m)
  | .tagged t tag => .tagged t tag

def Step.moved (m : Motion) (s : Step) : Step :=
  ⟨s.stack.map (Operand.moved m), s.commands.map (Command.moved m.place),
    s.warnings.map (CommandWarning.moved m)⟩

variable (m : Motion)

@[simp] theorem Token.kind_moved (t : Token) : (t.moved m).kind = t.kind := rfl

@[simp] theorem Token.text_moved (t : Token) : (t.moved m).text = t.text := rfl

@[simp] theorem Token.pos_moved (t : Token) : (t.moved m).pos = m.place t.pos := rfl

@[simp] theorem Token.isDelimiter_moved (t : Token) (text : String) :
    (t.moved m).isDelimiter text = t.isDelimiter text := rfl

namespace Operand

@[simp] theorem moved_literal (t : String) : (Operand.literal t).moved m = .literal t := rfl

@[simp] theorem moved_block (ts : List Token) (s : Script) :
    (Operand.block ts s).moved m = .block (ts.map (Token.moved m)) (s.moved m) := rfl

@[simp] theorem moved_tagged (t : String) (tag : Tag) :
    (Operand.tagged t tag).moved m = .tagged t tag := rfl

@[simp] theorem text_moved (o : Operand) : (o.moved m).text = o.text := by
  cases o <;> simp [text, List.map_map, Function.comp_def]

@[simp] theorem text_block_moved (ts : List Token) (s : Script) :
    (Operand.block (ts.map (Token.moved m)) (s.moved m)).text = (Operand.block ts s).text :=
  text_moved m (.block ts s)

@[simp] theorem text_comp_moved : text ∘ moved m = text := funext (text_moved m)

end Operand

namespace Step

variable (t : Token) (stack : List Operand)

@[simp] theorem emit_moved (a : Action) :
    emit (t.moved m) a = (emit t a).map (Command.moved m.place) := by
  simp [emit, Command.moved]

theorem texts_moved (count : Nat) :
    ((stack.map (Operand.moved m)).take count).reverse.map (·.text)
      = (stack.take count).reverse.map (·.text) := by
  simp [← List.map_take, ← List.map_reverse]

theorem pop_moved (count : Nat) (a : List String → Action) :
    pop (t.moved m) count (stack.map (Operand.moved m)) (fun args => emit (t.moved m) (a args))
      = (pop t count stack fun args => emit t (a args)).moved m := by
  unfold pop Step.moved
  rw [texts_moved]
  by_cases h : stack.length < count
  · simp [h, CommandWarning.moved]
  · simp [h]

@[simp] theorem output_moved (keyword : String) (o : Option Operand) :
    output keyword (o.map (Operand.moved m)) = output keyword o := by
  rcases o with _ | ⟨_ | _ | _⟩ <;> simp [output]

theorem noText_moved :
    noText (t.moved m) (stack.map (Operand.moved m))
      = (noText t stack).map (CommandWarning.moved m) := by
  cases stack <;> simp [noText, CommandWarning.moved]

theorem showText_moved :
    showText (t.moved m) (stack.map (Operand.moved m)) = (showText t stack).moved m := by
  simp [showText, Step.moved, noText_moved]

theorem showParagraph_moved :
    showParagraph (t.moved m) (stack.map (Operand.moved m)) = (showParagraph t stack).moved m := by
  rcases stack with _ | ⟨top, _ | ⟨next, below⟩⟩
  · simp [showParagraph, Step.moved, noText, CommandWarning.moved]
  · simp [showParagraph, Step.moved, noText, CommandWarning.moved]
  · cases next with
    | literal s => simp [showParagraph, Step.moved, noText_moved]
    | block ts s => simp [showParagraph, Step.moved, noText_moved]
    | tagged s tag =>
      cases tag with
      | interpolate => simp [showParagraph, Step.moved, noText]
      | picture pattern => simp [showParagraph, Step.moved, noText_moved]

theorem newLine_moved :
    newLine (t.moved m) (stack.map (Operand.moved m)) = (newLine t stack).moved m := by
  rcases stack with _ | ⟨top, _ | ⟨next, below⟩⟩
  · simp [newLine, Step.moved]
  · by_cases h : isNumeric top.text <;> simp [newLine, Step.moved, h]
  · by_cases h : isNumeric top.text
    · by_cases hminus : next.text = "-" ∧ Text.startsWith top.text "-" = false <;>
        simp [newLine, Step.moved, h, hminus]
    · simp [newLine, Step.moved, h]

theorem setVar_moved :
    setVar (t.moved m) (stack.map (Operand.moved m)) = (setVar t stack).moved m := by
  unfold setVar
  rw [texts_moved]
  dsimp only
  split <;> simp [Step.moved, CommandWarning.moved]

theorem resourceCall_moved :
    resourceCall (t.moved m) (stack.map (Operand.moved m)) = (resourceCall t stack).moved m := by
  unfold resourceCall
  rw [Token.text_moved]
  rcases stack with _ | ⟨top, _ | ⟨next, below⟩⟩
  · simp [Step.moved, pop, CommandWarning.moved]
  · simp [Step.moved]
  · cases next with
    | literal s =>
      by_cases h : isNumeric top.text = true ∧ Text.startsWith s "(" = true <;> simp [Step.moved, h]
    | block ts s => simp [Step.moved]
    | tagged s tag => simp [Step.moved]

theorem definition_moved :
    definition (t.moved m) (stack.map (Operand.moved m)) = (definition t stack).moved m := by
  rcases stack with _ | ⟨top, _ | ⟨next, below⟩⟩
  · simp [definition, Step.moved, CommandWarning.moved]
  · cases top <;> simp [definition, Step.moved, CommandWarning.moved]
  · cases top <;>
      simp [definition, Step.moved, CommandWarning.moved, Command.moved, Command.movedAll_eq,
        Script.moved]

theorem splitBlock?_moved :
    splitBlock? (stack.map (Operand.moved m)) = (splitBlock? stack).map fun (above, s, below) =>
      (above.map (Operand.moved m), s.moved m, below.map (Operand.moved m)) := by
  induction stack with
  | nil => rfl
  | cons top below ih =>
    cases top with
    | block ts s => rfl
    | literal t => simp [splitBlock?, ih, Function.comp_def]
    | tagged t tag => simp [splitBlock?, ih, Function.comp_def]

theorem postfixIf?_moved :
    postfixIf? (t.moved m) (stack.map (Operand.moved m))
      = (postfixIf? t stack).map (Step.moved m) := by
  simp [postfixIf?, splitBlock?_moved, Function.comp_def, Step.moved, Command.moved,
    Command.movedAll_eq, Script.moved]

theorem compare_moved (word : String) :
    compare word (stack.map (Operand.moved m)) = (compare word stack).map (Operand.moved m) := by
  rcases stack with _ | ⟨top, _ | ⟨next, below⟩⟩ <;> simp [compare]

theorem ofWord_moved :
    ofWord (t.moved m) (stack.map (Operand.moved m)) = (ofWord t stack).moved m := by
  unfold ofWord
  rw [Token.text_moved]
  split
  iterate 5 exact showText_moved m t stack
  · exact showParagraph_moved m t stack
  · exact pop_moved m t stack 2 _
  · exact pop_moved m t stack 1 _
  · exact newLine_moved m t stack
  · exact setVar_moved m t stack
  · exact pop_moved m t stack 1 _
  · exact pop_moved m t stack 1 _
  · exact pop_moved m t stack 5 _
  · exact resourceCall_moved m t stack
  · exact resourceCall_moved m t stack
  · exact definition_moved m t stack
  · simp [Step.moved, Command.moved]
  · cases stack <;> simp [Step.moved]
  · simp [Step.moved]
  · split
    · simp [Step.moved, compare_moved]
    · exact pop_moved m t stack _ _

theorem ofIdentifier_moved :
    ofIdentifier (t.moved m) (stack.map (Operand.moved m)) = (ofIdentifier t stack).moved m := by
  unfold ofIdentifier
  rw [Token.text_moved]
  dsimp only
  split
  · rfl
  split
  · simp [Step.moved]
  split
  · simp [Step.moved]
  · rfl

end Step

def Turn.moved (m : Motion) : Turn → Turn
  | .go step after => .go (step.moved m) (after.map (Token.moved m))
  | .push inner after => .push (inner.map (Token.moved m)) (after.map (Token.moved m))
  | .branch condition inner after =>
    .branch condition (inner.map (Token.moved m)) (after.map (Token.moved m))
  | .otherwise inner after => .otherwise (inner.map (Token.moved m)) (after.map (Token.moved m))

theorem closingIndex?_moved (opening : String) (depth : Nat) (ts : List Token) :
    closingIndex? opening depth (ts.map (Token.moved m)) = closingIndex? opening depth ts := by
  induction ts generalizing depth with
  | nil => rfl
  | cons t ts ih => cases depth <;> simp [closingIndex?, ih]

theorem splitBracket_moved (opening : String) (ts : List Token) :
    splitBracket opening (ts.map (Token.moved m))
      = ((splitBracket opening ts).1.map (Token.moved m),
        (splitBracket opening ts).2.map (Token.moved m)) := by
  unfold splitBracket
  rw [closingIndex?_moved]
  split <;> simp

namespace Turn

variable (t : Token) (rest : List Token) (stack : List Operand)

theorem inCondition_moved : inCondition (t.moved m) ∘ Token.moved m = inCondition t := by
  funext u
  simp [inCondition, m.line_eq]

theorem condition_moved : condition (t.moved m) (rest.map (Token.moved m)) = condition t rest := by
  unfold condition
  rw [List.takeWhile_map, inCondition_moved, List.filter_map, List.map_map]
  rfl

theorem dropEndIf_moved (ts : List Token) :
    dropEndIf (ts.map (Token.moved m)) = (dropEndIf ts).map (Token.moved m) := by
  cases ts with
  | nil => rfl
  | cons t ts =>
    have hword : (t.moved m).isWord "ENDIF" = t.isWord "ENDIF" := rfl
    by_cases h : t.isWord "ENDIF" = true <;> simp [dropEndIf, hword, h]

theorem prefixIf_moved :
    prefixIf (t.moved m) (rest.map (Token.moved m)) (stack.map (Operand.moved m))
      = (prefixIf t rest stack).moved m := by
  unfold prefixIf
  rw [List.dropWhile_map, inCondition_moved, condition_moved]
  cases rest.dropWhile (inCondition t) with
  | nil => simp [Turn.moved, Step.moved, Command.moved]
  | cons u more =>
    by_cases h : u.isDelimiter "\x7b" = true
    · simp [h, Turn.moved, splitBracket_moved, dropEndIf_moved]
    · simp [h, Turn.moved, Step.moved, Command.moved]

theorem elseBranch_moved :
    elseBranch (t.moved m) (rest.map (Token.moved m)) (stack.map (Operand.moved m))
      = (elseBranch t rest stack).moved m := by
  rcases rest with _ | ⟨u, more⟩
  · rcases stack with _ | ⟨top, below⟩
    · rfl
    · cases top <;>
        simp [elseBranch, Turn.moved, Step.moved, Command.moved, Command.movedAll_eq, Script.moved]
  · by_cases h : u.isDelimiter "\x7b" = true
    all_goals
      rcases stack with _ | ⟨top, below⟩
      · simp [elseBranch, h, Turn.moved, Step.moved, Command.moved, splitBracket_moved]
      · cases top <;>
          simp [elseBranch, h, Turn.moved, Step.moved, Command.moved, Command.movedAll_eq,
            Script.moved, splitBracket_moved]

theorem cache_moved :
    cache (t.moved m) (rest.map (Token.moved m)) (stack.map (Operand.moved m))
      = (cache t rest stack).moved m := by
  have hcommand : (fun u : Token => !u.isCommand) ∘ Token.moved m = fun u => !u.isCommand := rfl
  simp [cache, Turn.moved, Step.moved, ← List.map_take, List.takeWhile_map, hcommand,
    Function.comp_def]

theorem getInterval_moved :
    getInterval (t.moved m) (rest.map (Token.moved m)) (stack.map (Operand.moved m))
      = (getInterval t rest stack).moved m := by
  cases rest with
  | nil => simp [getInterval, Turn.moved, Step.ofWord_moved]
  | cons u more =>
    by_cases h : u.text = "SETVAR" <;> simp [getInterval, Turn.moved, Step.ofWord_moved, h]

theorem ofCommand_moved :
    ofCommand (t.moved m) (rest.map (Token.moved m)) (stack.map (Operand.moved m))
      = (ofCommand t rest stack).moved m := by
  unfold ofCommand
  rw [Token.text_moved]
  split
  · rw [Step.postfixIf?_moved]
    cases Step.postfixIf? t stack with
    | none => exact prefixIf_moved m t rest stack
    | some step => rfl
  · exact elseBranch_moved m t rest stack
  · exact cache_moved m t rest stack
  · exact getInterval_moved m t rest stack
  · simp [Turn.moved, Step.ofWord_moved]

theorem isAdjacentNumber_iff (u : Token) :
    isAdjacentNumber t u = true
      ↔ u.kind = .number ∧ u.pos.line = t.pos.line ∧ u.pos.column = t.pos.column + 1 := by
  simp [isAdjacentNumber, and_assoc]

theorem isAdjacentNumber_moved (u : Token) :
    isAdjacentNumber (t.moved m) (u.moved m) = isAdjacentNumber t u := by
  rw [Bool.eq_iff_iff, isAdjacentNumber_iff, isAdjacentNumber_iff]
  simp only [Token.kind_moved, Token.pos_moved, m.line_eq]
  exact and_congr_right fun _ => and_congr_right fun hline => m.column_eq _ _ hline.symm

theorem ofOther_moved :
    ofOther (t.moved m) (rest.map (Token.moved m)) (stack.map (Operand.moved m))
      = (ofOther t rest stack).moved m := by
  have hcommand : (t.moved m).isCommand = t.isCommand := rfl
  unfold ofOther
  rw [hcommand, Token.kind_moved]
  split
  · exact ofCommand_moved m t rest stack
  split
  · simp [Turn.moved, Step.ofIdentifier_moved]
  · rfl

theorem ofToken_moved :
    ofToken (t.moved m) (rest.map (Token.moved m)) (stack.map (Operand.moved m))
      = (ofToken t rest stack).moved m := by
  unfold ofToken
  rw [Token.kind_moved, Token.text_moved]
  split
  · rfl
  · split
    · simp [Turn.moved, splitBracket_moved]
    · rfl
  · cases rest with
    | nil => exact ofOther_moved m t [] stack
    | cons n more =>
      simp only [List.map_cons, isAdjacentNumber_moved]
      split
      · rfl
      · exact ofOther_moved m t (n :: more) stack
  · exact ofOther_moved m t rest stack

end Turn

namespace Reading

section Turns

variable {t : Token} {rest inner after : List Token} {stack : List Operand}

theorem read_go {step : Step} (h : Turn.ofToken t rest stack = .go step after) :
    read (t :: rest) stack = (read after step.stack).after step.commands step.warnings := by
  rw [read]
  split <;> simp_all

theorem read_push (h : Turn.ofToken t rest stack = .push inner after) :
    read (t :: rest) stack = read after (.block inner (read inner []).toScript :: stack) := by
  rw [read]
  split <;> simp_all

theorem read_branch {condition : List String}
    (h : Turn.ofToken t rest stack = .branch condition inner after) :
    read (t :: rest) stack = (read after stack).after
      [.ifBlock t.pos condition (read inner []).commands] (read inner []).warnings := by
  rw [read]
  split <;> simp_all

theorem read_otherwise (h : Turn.ofToken t rest stack = .otherwise inner after) :
    read (t :: rest) stack = (read after stack).after
      [.elseBlock t.pos (read inner []).commands] (read inner []).warnings := by
  rw [read]
  split <;> simp_all

end Turns

def moved (m : Motion) (r : Reading) : Reading :=
  ⟨r.toScript.moved m, r.stack.map (Operand.moved m)⟩

theorem moved_after (r : Reading) (commands : List Command) (warnings : List CommandWarning) :
    (r.after commands warnings).moved m
      = (r.moved m).after (commands.map (Command.moved m.place))
        (warnings.map (CommandWarning.moved m)) := by
  simp [moved, Reading.after, Script.moved]

/-- Moved tokens say the same commands, moved. -/
theorem read_moved (ts : List Token) (stack : List Operand) :
    read (ts.map (Token.moved m)) (stack.map (Operand.moved m)) = (read ts stack).moved m := by
  fun_induction read ts stack with
  | case1 stack => simp [read, moved, Script.moved]
  | case2 t rest stack _ step after hturn ih =>
    have hmoved := Turn.ofToken_moved m t rest stack
    rw [hturn] at hmoved
    rw [List.map_cons, read_go hmoved, moved_after, ← ih]
    rfl
  | case3 t rest stack _ inner after hturn ihinner ih =>
    have hmoved := Turn.ofToken_moved m t rest stack
    rw [hturn] at hmoved
    rw [List.map_nil] at ihinner
    rw [List.map_cons, read_push hmoved, ihinner, ← ih]
    rfl
  | case4 t rest stack _ condition inner after hturn body ihinner ih =>
    have hmoved := Turn.ofToken_moved m t rest stack
    rw [hturn] at hmoved
    rw [List.map_nil] at ihinner
    rw [List.map_cons, read_branch hmoved, ihinner, ih, moved_after]
    simp [body, moved, Script.moved, Command.moved, Command.movedAll_eq]
  | case5 t rest stack _ inner after hturn body ihinner ih =>
    have hmoved := Turn.ofToken_moved m t rest stack
    rw [hturn] at hmoved
    rw [List.map_nil] at ihinner
    rw [List.map_cons, read_otherwise hmoved, ihinner, ih, moved_after]
    simp [body, moved, Script.moved, Command.moved, Command.movedAll_eq]

end Reading

def Motion.shift (p : Position) (offset : Nat) : Motion where
  place q := if q.line = 0 then ⟨p.line, p.column + q.column⟩ else ⟨p.line + q.line, q.column⟩
  offset n := offset + n
  line_eq q r := by
    split <;> split <;> simp <;> omega
  column_eq q r h := by
    rw [h]
    split
    · simp; omega
    · simp

namespace Motion

variable (p : Position) (offset : Nat)

theorem place_next (q : Position) (c : Char) :
    (shift p offset).place (q.next c) = ((shift p offset).place q).next c := by
  by_cases hc : c = '\n'
  · by_cases hq : q.line = 0 <;> simp [shift, Position.next, hc, hq, Nat.add_assoc]
  · by_cases hq : q.line = 0 <;> simp [shift, Position.next, hc, hq, Nat.add_assoc]

theorem place_advance (q : Position) (cs : List Char) :
    (shift p offset).place (q.advance cs) = ((shift p offset).place q).advance cs := by
  induction cs generalizing q with
  | nil => rfl
  | cons c cs ih => rw [Position.advance_cons, ih, place_next, Position.advance_cons]

theorem map_lay (q : Position) (n : Nat) (xs : List Lexeme) :
    (Lexeme.lay q n xs).map (Token.moved (shift p offset))
      = Lexeme.lay ((shift p offset).place q) (offset + n) xs := by
  induction xs generalizing q n with
  | nil => rfl
  | cons x xs ih =>
    rw [Lexeme.lay, List.map_cons, ih, place_advance, ← Nat.add_assoc]
    rfl

theorem lay_eq (xs : List Lexeme) :
    Lexeme.lay p offset xs = (Lexeme.lay ⟨0, 0⟩ 0 xs).map (Token.moved (shift p offset)) := by
  rw [map_lay]
  rfl

end Motion

def Script.said (ts : List Token) : List Command :=
  (Script.ofTokens ts).commands.map Command.unplaced

theorem Script.said_lay (p q : Position) (offset offset' : Nat) (xs : List Lexeme) :
    said (Lexeme.lay p offset xs) = said (Lexeme.lay q offset' xs) := by
  have hbase (p : Position) (offset : Nat) :
      said (Lexeme.lay p offset xs) = said (Lexeme.lay ⟨0, 0⟩ 0 xs) := by
    have hread := Reading.read_moved (Motion.shift p offset)
      ((Lexeme.lay ⟨0, 0⟩ 0 xs).filter fun t => !t.isTrivia) []
    have htrivia : (fun t : Token => !t.isTrivia) ∘ Token.moved (Motion.shift p offset)
        = fun t => !t.isTrivia := rfl
    rw [said, Motion.lay_eq p offset xs, Script.ofTokens, List.filter_map, htrivia]
    rw [List.map_nil] at hread
    rw [hread]
    simp [said, Reading.moved, Script.moved, Script.ofTokens, Function.comp_def,
      Command.unplaced_moved]
  rw [hbase p offset, hbase q offset']

end VippDocdef
