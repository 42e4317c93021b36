import VippDocdef.Proofs.Calls
import VippDocdef.Proofs.Commenting
import VippDocdef.Proofs.Formulas
import VippDocdef.Proofs.Markers
import VippDocdef.Proofs.Switches

/-! Positions of texts. A literal stands where the cursor is, whatever it says, unless it is set as
a block: a block begins where the last output ended, also behind a `MOVETO`. -/

set_option autoImplicit false

namespace VippDocdef.Docdef

def isPosition (text : String) : Bool := Text.startsWith text "POSITION"

/-- The lines of a statement that give its position. -/
def Statement.positions (st : Statement) : List String := (texts st.lines).filter isPosition

def Block.positions (b : Block) : List String := (texts b.lines).filter isPosition

theorem Block.positions_single (st : Statement) : (Block.single st).positions = st.positions := by
  rw [Block.positions, Block.single, Block.lines, Block.lines, List.append_nil]
  rfl

theorem isPosition_append {start : String} (hstart : start.toList.head?.any (· != 'P') = true)
    (rest : String) :
    isPosition (start ++ rest) = false := by
  unfold isPosition Text.startsWith
  rw [String.toList_append]
  cases hs : start.toList with
  | nil => simp [hs] at hstart
  | cons c cs =>
    have hc : ('P' == c) = false := by
      rw [hs] at hstart
      exact beq_eq_false_iff_ne.2 fun h => bne_iff_ne.1 hstart h.symm
    have hmark : "POSITION".toList = 'P' :: "OSITION".toList := rfl
    rw [hmark, List.cons_append, List.isPrefixOf_cons_cons, hc, Bool.false_and]

@[simp] theorem isPosition_place (place : Place) : isPosition place.clause = true := by
  unfold isPosition Text.startsWith Place.clause
  have hmark : "POSITION ".toList = "POSITION".toList ++ [' '] := rfl
  rw [List.isPrefixOf_iff_prefix, String.append_assoc, String.append_assoc,
    String.toList_append, hmark, List.append_assoc]
  exact List.prefix_append _ _

@[simp] theorem isPosition_quote (s : String) : isPosition (quote s) = false := by
  simp (disch := decide) only [quote, String.append_assoc, isPosition_append]

theorem isPosition_item (p : Piece) (rest : String) : isPosition (p.item ++ rest) = false := by
  cases p <;> simp (disch := decide) only [Piece.item, quote, String.append_assoc,
    isPosition_append]

theorem isPosition_textItems (s : String) : isPosition (textItems s) = false := by
  rw [textItems_eq]
  cases pieces s.toList with
  | nil => decide
  | cons p ps =>
    cases ps with
    | nil =>
      rw [List.map_cons, List.map_nil, String.intercalate_singleton]
      simpa using isPosition_item p ""
    | cons q qs =>
      rw [List.map_cons, List.map_cons, String.intercalate_cons_cons, String.append_assoc]
      exact isPosition_item p _

namespace Statement

@[simp] theorem texts_clauses (head : String) (below : List String) :
    texts (clauses head below) = head :: below := by
  simp [texts, clauses, Function.comp_def]

@[simp] theorem isPosition_widthClause (width : Float) :
    isPosition (widthClause width) = false := by
  simp (disch := decide) only [widthClause, String.append_assoc, isPosition_append]

@[simp] theorem filter_colorClause (color : Option String) :
    (colorClause color).filter isPosition = [] := by
  cases color <;> simp (disch := decide) [colorClause, isPosition_append]

@[simp] theorem filter_alignClause (align : Option Alignment) :
    (alignClause align).filter isPosition = [] := by
  cases align <;> simp (disch := decide) [alignClause, isPosition_append]

@[simp] theorem filter_quotedLines (lines : List String) :
    (quotedLines lines).filter isPosition = [] := by
  fun_induction quotedLines lines with
  | case1 => rfl
  | case2 last =>
    have hlast : isPosition (quote last ++ ";") = false := by
      simp (disch := decide) only [quote, String.append_assoc, isPosition_append]
    rw [List.filter_cons_of_neg (by simp [hlast]), List.filter_nil]
  | case3 first rest _ ih => rw [List.filter_cons_of_neg (by simp), ih]

theorem filter_runClauses {runs : List (String × String)}
    (h : ∀ run ∈ runs, isPosition run.2 = false) :
    (runClauses runs).filter isPosition = [] := by
  rw [runClauses, List.filter_flatMap, List.flatMap_eq_nil_iff]
  intro run hrun
  simp (disch := decide) [h run hrun, String.append_assoc, isPosition_append]

section

variable {font : String} {place : Place} {color : Option String} {align : Option Alignment}

theorem positions_output {content : String} :
    (output content font place color align).positions = [place.clause] := by
  cases align with
  | none =>
    simp (disch := decide) [positions, lines, List.filter_cons, String.append_assoc,
      isPosition_append]
  | some a =>
    cases a <;> simp (disch := decide) [positions, lines, List.filter_cons, String.append_assoc,
      isPosition_append]

theorem positions_column {items : String} {width : Float} (h : isPosition items = false) :
    (column items font place width align).positions = [place.clause] := by
  simp (disch := decide) [positions, lines, List.filter_cons, isPosition_append, h]

variable {runs : List (String × String)}

theorem positions_switched (h : ∀ run ∈ runs, isPosition run.2 = false) :
    (switched runs place).positions = [place.clause] := by
  have hfixed : isPosition "TEXT" = false ∧ isPosition ";" = false := by decide
  simp [positions, lines, filter_runClauses h, hfixed]

theorem positions_switchedRight {width : Option Float}
    (h : ∀ run ∈ runs, isPosition run.2 = false) :
    (switchedRight runs place width).positions = [place.clause] := by
  have hfixed : isPosition "TEXT" = false ∧ isPosition "ALIGN RIGHT" = false ∧
      isPosition ";" = false := by decide
  have hwidth : (width.map widthClause).toList.filter isPosition = [] := by
    cases width <;> simp
  simp [positions, lines, filter_runClauses h, hwidth, hfixed]

end

def blockPosition : String := "POSITION SAME SAME BASELINE"

theorem positions_baseline (texts : List String) (font : String) (align : Option Alignment) :
    (baseline texts font align).positions = [blockPosition] := by
  have hwidth : (if align = some .justify then [widthClause justifyWidth] else []).filter isPosition
      = [] := by
    split <;> simp
  simp (disch := decide) [positions, lines, List.filter_cons, isPosition_append, hwidth,
    blockPosition]

end Statement

/-- A show command for a literal that is not empty and has no font switch in it. -/
structure ShowsLiteral (o : TextOutput) (text : String) : Prop where
  source : Source.ofOperand? o.source = some (.literal text)
  nonempty : text ≠ ""
  unswitched : ¬ HasSwitch text.toList

/-- Without a column and without markers, a literal is set as a block if it is long, has two
asterisks in it or is justified. -/
def SetAsBlock (o : TextOutput) (text : String) : Prop :=
  columnWidth? o = none ∧ ¬ HasMarker text.toList ∧
    (lineCapacity < text.length ∨ ['*', '*'] <:+: text.toList ∨ alignment? o = some .justify)

theorem needsBlock_iff (text : String) (align : Option Alignment) : needsBlock text align = true ↔
    lineCapacity < text.length ∨ ['*', '*'] <:+: text.toList ∨ align = some .justify := by
  have hstars : Text.contains text "**" = true ↔ ['*', '*'] <:+: text.toList :=
    Text.occurs_iff
  simp only [needsBlock, Bool.or_eq_true, decide_eq_true_eq, hstars, or_assoc]

theorem interpolate?_eq_none_iff (text : String) :
    interpolate? text = none ↔ ¬ HasMarker text.toList := by
  rw [interpolate?_eq, ← any_isVariable_pieces]
  split
  · next h => simp [h]
  · next h => simp [h]

theorem fontSegments_of_unswitched {text : String} (hne : text ≠ "") (h : ¬ HasSwitch text.toList)
    (start : String) : fontSegments start text = [(start, text)] := by
  have hcut : IsSwitchCut (text.toList, []) :=
    ⟨h, List.forall_mem_nil _, List.forall_mem_nil _, List.forall_mem_nil _⟩
  have hruns : runs text.toList = (text.toList, []) := by
    simpa [switchSource] using hcut.runs_eq
  rw [fontSegments_eq, hruns, stretches, List.map_nil, String.ofList_toList,
    List.filter_cons_of_pos (by simpa using hne), List.filter_nil]

theorem ofOperand?_paren (text : String) :
    Source.ofOperand? ("(" ++ text ++ ")") = some (.literal text) := by
  have htrim : Text.trim ("(" ++ text ++ ")") = "(" ++ text ++ ")" := by
    have hopen : Text.isBlank '(' = false := by decide
    have hclose : Text.isBlank ')' = false := by decide
    apply String.toList_injective
    simp [Text.trim, Text.dropEndWhile, hopen, hclose]
  have hne : "(" ++ text ++ ")" ≠ "" := by simp
  unfold Source.ofOperand?
  rw [htrim, if_neg hne, unparen?_paren]

namespace State

variable {s : State} {e : Env}

theorem positions_printLine (content : String) (align : Option Alignment) :
    (s.printLine e content align).block.positions = [(s.place e).clause] := by
  rw [printLine, Emission.one, Block.positions_single, output, Statement.positions_output]

open Classical in
theorem positions_emitText {o : TextOutput} {text : String} (h : ShowsLiteral o text) :
    (s.emitText e o).block.positions
      = if SetAsBlock o text then [Statement.blockPosition] else [(s.place e).clause] := by
  unfold emitText
  rw [h.source]
  cases hwidth : columnWidth? o with
  | some width =>
    rw [if_neg fun hblock => by simp [hblock.1] at hwidth]
    exact (Block.positions_single _).trans (Statement.positions_column (isPosition_textItems text))
  | none =>
    dsimp only
    rw [printLiteral, fontSegments_of_unswitched h.nonempty h.unswitched]
    dsimp only
    rw [if_pos rfl]
    unfold printPlain
    cases hmarker : interpolate? text with
    | some expression =>
      have hhas : HasMarker text.toList := by
        by_contra hnone
        simp [(interpolate?_eq_none_iff text).2 hnone] at hmarker
      exact (positions_printLine expression _).trans (if_neg fun hblock => hblock.2.1 hhas).symm
    | none =>
      have hnone := (interpolate?_eq_none_iff text).1 hmarker
      dsimp only
      by_cases hblock : needsBlock text (alignment? o) = true
      · rw [if_pos hblock, if_pos ⟨hwidth, hnone, (needsBlock_iff _ _).1 hblock⟩]
        exact (Block.positions_single _).trans (Statement.positions_baseline _ _ _)
      · rw [if_neg hblock, if_neg fun h => hblock ((needsBlock_iff _ _).2 h.2.2)]
        exact positions_printLine _ _

end State

def heightClause (y : Float) (correction : Option String) : String :=
  "(" ++ millimetres y ++ " MM-$MR_TOP" ++ correction.elim "" ("+" ++ ·) ++ ")"

def movedPosition (x y : Float) (correction : Option String) : String :=
  "POSITION (" ++ millimetres x ++ " MM-$MR_LEFT) " ++ heightClause y correction

theorem yClause_value (y : Float) (correction : Option String) :
    (Coordinate.value y).yClause correction = heightClause y correction := by
  have htop : " MM-$MR_TOP)" = " MM-$MR_TOP" ++ ")" := rfl
  have hplus : " MM-$MR_TOP+" = " MM-$MR_TOP" ++ "+" := rfl
  unfold heightClause
  cases correction <;>
    simp only [Coordinate.yClause, Option.elim_none, Option.elim_some, htop, hplus,
      String.append_assoc, String.empty_append]

theorem place_of_moveTo (s : State) (e : Env) (x y : Float) :
    ((s.withCursor (·.moveTo x y)).place e).clause
      = movedPosition x y (e.correction? s.sec.font) := by
  have hplace :
      (s.withCursor (·.moveTo x y)).place e = ⟨.value x, .value y, e.correction? s.sec.font⟩ := rfl
  have hopen : "POSITION (" = "POSITION " ++ "(" := rfl
  have hleft : " MM-$MR_LEFT) " = " MM-$MR_LEFT)" ++ " " := rfl
  rw [hplace, Place.clause, yClause_value]
  unfold movedPosition
  simp only [Coordinate.xClause, hopen, hleft, String.append_assoc]

theorem movedPosition_ne_blockPosition (x y : Float) (correction : Option String) :
    movedPosition x y correction ≠ Statement.blockPosition := by
  have hopen : '(' ∈ (movedPosition x y correction).toList := by
    unfold movedPosition
    simp only [String.append_assoc]
    rw [String.toList_append]
    exact List.mem_append_left _ (by decide)
  have hnone : '(' ∉ Statement.blockPosition.toList := by decide
  exact fun h => hnone (h ▸ hopen)

/-- Behind a `MOVETO`, a literal has the position that was asked for if and only if it is not set as
a block. The positions of two literals differ just where one of them is set as a block and the other
is not. -/
theorem literal_position_iff (e : Env) (s : State) {xs ys : String} {x y : Float}
    (hx : Decimal.read? xs = some x) (hy : Decimal.read? ys = some y) {o p : TextOutput}
    {t u : String} (ho : ShowsLiteral o t) (hp : ShowsLiteral p u) :
    let positions : TextOutput → List String :=
      fun o => ((s.move xs (some ys)).emitText e o).block.positions
    (positions o = [movedPosition x y (e.correction? s.sec.font)] ↔ ¬ SetAsBlock o t) ∧
    (positions o = ["POSITION SAME SAME BASELINE"] ↔ SetAsBlock o t) ∧
    (positions o = positions p ↔ (SetAsBlock o t ↔ SetAsBlock p u)) := by
  have hmove : s.move xs (some ys) = s.withCursor (·.moveTo x y) := by
    simp only [State.move, hx, hy]
  have hne := movedPosition_ne_blockPosition x y (e.correction? s.sec.font)
  have hblock : "POSITION SAME SAME BASELINE" = Statement.blockPosition := rfl
  intro positions
  simp only [positions, hmove, State.positions_emitText ho, State.positions_emitText hp,
    place_of_moveTo, hblock]
  by_cases ht : SetAsBlock o t <;> by_cases hu : SetAsBlock p u <;> simp [ht, hu, hne, hne.symm]

def plainShow (text : String) : TextOutput := ⟨"SH", "(" ++ text ++ ")", false, none, none, none⟩

theorem showsLiteral_plainShow {text : String} (hne : text ≠ "") (htilde : '~' ∉ text.toList) :
    ShowsLiteral (plainShow text) text where
  source := ofOperand?_paren text
  nonempty := hne
  unswitched := by
    rintro ⟨c, -, hswitch⟩
    exact htilde (hswitch.subset List.mem_cons_self)

theorem not_hasMarker_of_not_mem {text : List Char} (h : '$' ∉ text) : ¬ HasMarker text := by
  rintro ⟨name, -, hmarker⟩
  exact h (hmarker.subset List.mem_cons_self)

def paragraph : String := "The amount below is due within thirty days of the date above."

theorem literal_position_iff_short :
    (((State.initial {}).move "24" (some "49.91")).emitText {} (plainShow "due")).block.positions
      = [movedPosition 24 49.91 ((State.initial {}).correction? {})] := by
  have hshows : ShowsLiteral (plainShow "due") "due" :=
    showsLiteral_plainShow (by decide) (by decide)
  have hshort : ¬ SetAsBlock (plainShow "due") "due" := by
    rintro ⟨-, -, hlong | hstars | hjustify⟩
    · revert hlong
      decide
    · have hstar := hstars.subset List.mem_cons_self
      revert hstar
      decide
    · cases hjustify
  exact (literal_position_iff {} (.initial {}) (by decide +kernel) (by decide +kernel) hshows
    hshows).1.2 hshort

/-- A long literal does not stand where it was asked for. -/
theorem paragraph_ignores_moveTo :
    let positions : String → List String := fun text =>
      (((State.initial {}).move "24" (some "49.91")).emitText {} (plainShow text)).block.positions
    positions "due" = ["POSITION (24.0 MM-$MR_LEFT) (49.91 MM-$MR_TOP+&CORFONT8)"] ∧
      positions paragraph = ["POSITION SAME SAME BASELINE"] := by
  have hshows : ShowsLiteral (plainShow paragraph) paragraph :=
    showsLiteral_plainShow (by decide) (by decide)
  have hblock : SetAsBlock (plainShow paragraph) paragraph :=
    ⟨rfl, not_hasMarker_of_not_mem (by decide), .inl (by decide)⟩
  refine ⟨by decide +kernel, ?_⟩
  exact (State.positions_emitText hshows).trans (if_pos hblock)

end VippDocdef.Docdef
