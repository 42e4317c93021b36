import VippDocdef.Command.Operand
import VippDocdef.Token.Bracket
import VippDocdef.Token.Scan

/-! Commands from tokens. Operands wait on a stack until a command word takes them; conditions are
also written before their body, on the line of the word `IF`. -/

set_option autoImplicit false

namespace VippDocdef

inductive Turn where
  | go (step : Step) (after : List Token)
  | push (inner after : List Token)
  | branch (condition : List String) (inner after : List Token)
  | otherwise (inner after : List Token)

namespace Turn

/-- The condition of an `IF` reaches to the end of its line or to the brace that opens the body. -/
def inCondition (t u : Token) : Bool := u.pos.line = t.pos.line && !u.isDelimiter "\x7b"

def condition (t : Token) (rest : List Token) : List String :=
  foldCondition (((rest.takeWhile (inCondition t)).filter (·.kind ≠ .comment)).map (·.text))

def dropEndIf : List Token → List Token
  | [] => []
  | t :: ts => if t.isWord "ENDIF" then ts else t :: ts

/-- `IF condition { body } ENDIF`, or a condition alone whose body follows as siblings. -/
def prefixIf (t : Token) (rest : List Token) (stack : List Operand) : Turn :=
  match rest.dropWhile (inCondition t) with
  | [] => .go { stack, commands := [.ifFlat t.pos (condition t rest)] } []
  | u :: more =>
    if u.isDelimiter "\x7b" then
      let split := splitBracket "\x7b" more
      .branch (condition t rest) split.1 (dropEndIf split.2)
    else .go { stack, commands := [.ifFlat t.pos (condition t rest)] } (u :: more)

/-- `block ELSE`, `ELSE block`, or `ELSE` alone. -/
def elseBranch (t : Token) (rest : List Token) (stack : List Operand) : Turn :=
  match stack, rest with
  | .block _ script :: below, _ =>
    .go { stack := below
          commands := [.elseBlock t.pos script.commands]
          warnings := script.warnings } rest
  | _, u :: more =>
    if u.isDelimiter "\x7b" then
      let split := splitBracket "\x7b" more
      .otherwise split.1 split.2
    else .go { stack, commands := [.elseFlat t.pos] } rest
  | _, [] => .go { stack, commands := [.elseFlat t.pos] } []

def cacheReach : Nat := 9

/-- `(file) CACHE [w h]` also takes the tokens behind it, up to the next command. -/
def cache (t : Token) (rest : List Token) (stack : List Operand) : Turn :=
  let ahead := (rest.take cacheReach).takeWhile fun u => !u.isCommand
  let args := (stack.head?.map Operand.text).toList ++ ahead.map (·.text)
  .go { stack := stack.tail, commands := Step.emit t (.generic "CACHE" args) }
    (rest.drop ahead.length)

/-- The result variable of `GETINTV` is among its operands, so a `SETVAR` behind it is void. -/
def getInterval (t : Token) (rest : List Token) (stack : List Operand) : Turn :=
  let step := Step.ofWord t stack
  match rest with
  | u :: more => .go step (if u.text = "SETVAR" then more else rest)
  | [] => .go step []

def ofCommand (t : Token) (rest : List Token) (stack : List Operand) : Turn :=
  match t.text with
  | "IF" =>
    match Step.postfixIf? t stack with
    | some step => .go step rest
    | none => prefixIf t rest stack
  | "ELSE" => elseBranch t rest stack
  | "CACHE" => cache t rest stack
  | "GETINTV" => getInterval t rest stack
  | _ => .go (Step.ofWord t stack) rest

def isAdjacentNumber (minus number : Token) : Bool :=
  number.kind = .number && number.pos.line = minus.pos.line
    && number.pos.column = minus.pos.column + 1

def ofOther (t : Token) (rest : List Token) (stack : List Operand) : Turn :=
  if t.isCommand then ofCommand t rest stack
  else if t.kind = .identifier then .go (Step.ofIdentifier t stack) rest
  else .go { stack := .literal t.text :: stack } rest

def ofToken (t : Token) (rest : List Token) (stack : List Operand) : Turn :=
  match t.kind with
  | .comment => .go { stack } rest
  | .delimiter =>
    if t.text = "\x7b" || t.text = "[" then
      let split := splitBracket t.text rest
      .push split.1 split.2
    else .go { stack } rest
  | .operator =>
    match rest with
    | n :: more =>
      if t.text = "-" && isAdjacentNumber t n then
        .go { stack := .literal ("-" ++ n.text) :: stack } more
      else ofOther t rest stack
    | [] => ofOther t rest stack
  | _ => ofOther t rest stack

/-- No turn leaves more tokens to read than it was given. -/
def Fits (n : Nat) : Turn → Prop
  | .go _ after => after.length ≤ n
  | .push inner after | .branch _ inner after | .otherwise inner after =>
    inner.length ≤ n ∧ after.length ≤ n

theorem length_dropEndIf (ts : List Token) : (dropEndIf ts).length ≤ ts.length := by
  unfold dropEndIf
  split
  · simp
  · split <;> simp

theorem fits_prefixIf (t : Token) (rest : List Token) (stack : List Operand) :
    (prefixIf t rest stack).Fits rest.length := by
  unfold prefixIf
  split
  · simp [Fits]
  · next u more h =>
    have hl : (u :: more).length ≤ rest.length := by
      rw [← h]; exact (List.dropWhile_suffix _).length_le
    simp only [List.length_cons] at hl
    have h1 := length_splitBracket_fst "\x7b" more
    have h2 := length_splitBracket_snd "\x7b" more
    have h3 := length_dropEndIf (splitBracket "\x7b" more).2
    split
    · simp only [Fits]; omega
    · simp only [Fits, List.length_cons]; omega

theorem fits_elseBranch (t : Token) (rest : List Token) (stack : List Operand) :
    (elseBranch t rest stack).Fits rest.length := by
  unfold elseBranch
  split
  · simp [Fits]
  · next u more _ =>
    have h1 := length_splitBracket_fst "\x7b" more
    have h2 := length_splitBracket_snd "\x7b" more
    split
    · simp only [Fits, List.length_cons]; omega
    · simp [Fits]
  · simp [Fits]

theorem fits_ofCommand (t : Token) (rest : List Token) (stack : List Operand) :
    (ofCommand t rest stack).Fits rest.length := by
  unfold ofCommand
  split
  · split
    · simp [Fits]
    · exact fits_prefixIf t rest stack
  · exact fits_elseBranch t rest stack
  · simp [cache, Fits]
  · unfold getInterval
    split
    · simp only [Fits]
      split <;> simp
    · simp [Fits]
  · simp [Fits]

theorem fits_ofOther (t : Token) (rest : List Token) (stack : List Operand) :
    (ofOther t rest stack).Fits rest.length := by
  unfold ofOther
  split
  · exact fits_ofCommand t rest stack
  · split <;> simp [Fits]

theorem fits_ofToken (t : Token) (rest : List Token) (stack : List Operand) :
    (ofToken t rest stack).Fits rest.length := by
  unfold ofToken
  split
  · simp [Fits]
  · have h1 := length_splitBracket_fst t.text rest
    have h2 := length_splitBracket_snd t.text rest
    split
    · exact ⟨h1, h2⟩
    · simp [Fits]
  · split
    · split
      · simp [Fits]
      · exact fits_ofOther _ _ _
    · exact fits_ofOther _ _ _
  · exact fits_ofOther _ _ _

end Turn

structure Reading extends Script where
  stack : List Operand := []

def Reading.after (r : Reading) (commands : List Command) (warnings : List CommandWarning) :
    Reading :=
  { r with commands := commands ++ r.commands, warnings := warnings ++ r.warnings }

def Reading.read : List Token → List Operand → Reading
  | [], stack => { stack }
  | t :: rest, stack =>
    have _fits := Turn.fits_ofToken t rest stack
    match _h : Turn.ofToken t rest stack with
    | .go step after => (Reading.read after step.stack).after step.commands step.warnings
    | .push inner after =>
      Reading.read after (.block inner (Reading.read inner []).toScript :: stack)
    | .branch condition inner after =>
      let body := Reading.read inner []
      (Reading.read after stack).after [.ifBlock t.pos condition body.commands] body.warnings
    | .otherwise inner after =>
      let body := Reading.read inner []
      (Reading.read after stack).after [.elseBlock t.pos body.commands] body.warnings
termination_by ts => ts.length
decreasing_by
  all_goals simp only [_h, Turn.Fits] at _fits; simp only [List.length_cons]; omega

def Script.ofTokens (ts : List Token) : Script :=
  (Reading.read (ts.filter fun t => !t.isTrivia) []).toScript

def Script.ofText (source : String) : Script := .ofTokens (Scanned.ofText source).tokens

end VippDocdef
