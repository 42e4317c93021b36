import VippDocdef.Docdef.Program
import VippDocdef.Proofs.Bracketing
import VippDocdef.Proofs.Visits

/-! The two modes of form programs. A form is written into an outline for others or into a format of
its own. What is written for its commands, the formats of its subroutines and the warnings are the
same; in a format of its own its lines stand one level deeper. -/

set_option autoImplicit false

namespace VippDocdef

def Settings.inMode (settings : Settings) (mode : FormMode) : Settings :=
  { settings with layout := { settings.layout with formMode := mode } }

namespace Docdef

def Env.inMode (e : Env) (mode : FormMode) : Env := { e with settings := e.settings.inMode mode }

section Mode

variable (e : Env) (mode : FormMode)

theorem emitAction_inMode (expand : Expansion) (a : Action) (s : State) :
    s.emitAction (e.inMode mode) expand a = s.emitAction e expand a := by
  cases a <;> rfl

theorem emitNested_inMode (depth : Nat) : emitNested (e.inMode mode) depth = emitNested e depth :=
  emitNested_congr (emitAction_inMode e mode) depth

theorem State.emit_inMode (s : State) (commands : List Command) :
    s.emit (e.inMode mode) commands = s.emit e commands :=
  congrFun (congrFun (emitNested_inMode e mode e.nesting) commands) s

theorem State.beginSection_inMode (s : State) (x y : Float) :
    s.beginSection (e.inMode mode) x y = s.beginSection e x y := rfl

theorem formBody_inMode (f : Form) (s : State) : formBody (e.inMode mode) f s = formBody e f s := by
  simp only [formBody, State.emit_inMode, State.beginSection_inMode]

theorem routineBody_inMode (x y : Float) (name : String) (body : List Command) (s : State) :
    routineBody (e.inMode mode) x y name body s = routineBody e x y name body s := by
  simp only [routineBody, State.emit_inMode, State.beginSection_inMode]

theorem routineBodies_inMode (x y : Float) (most : Nat) (s : State) :
    routineBodies (e.inMode mode) x y most s = routineBodies e x y most s := by
  induction most generalizing s with
  | zero => rfl
  | succ most ih =>
    have hproject : (e.inMode mode).project = e.project := rfl
    simp only [routineBodies, hproject, routineBody_inMode, ih]

theorem routineFormats_inMode (x y : Float) (s : State) :
    routineFormats (e.inMode mode) x y s = routineFormats e x y s := by
  have hbodies : allRoutineBodies (e.inMode mode) x y s = allRoutineBodies e x y s :=
    routineBodies_inMode e mode x y (s.waiting.length + e.nesting) s
  unfold routineFormats
  rw [hbodies]

end Mode

def shifted (line : String) : String := if line = "" then "" else Line.indentation 1 ++ line

theorem Detector.sanitize_ne_empty (d : Detector) {text : String} (h : text ≠ "") :
    d.sanitize text ≠ "" := by
  unfold sanitize
  split
  · simp [String.ext_iff]
  · exact h

theorem indentation_succ (n : Nat) :
    Line.indentation (n + 1) = Line.indentation 1 ++ Line.indentation n := by
  have hspaces : 4 * (n + 1) = 4 * 1 + 4 * n := by omega
  rw [Line.indentation, hspaces, ← List.replicate_append_replicate, String.ofList_append]
  rfl

theorem write_deeper_succ (d : Detector) (n : Nat) (l : Line) :
    (l.deeper (n + 1)).write d = shifted ((l.deeper n).write d) := by
  by_cases hblank : l.text = ""
  · simp [Line.deeper, Line.write, shifted, hblank]
  · have hwrite (m : Nat) :
        (l.deeper m).write d = Line.indentation (m + l.depth) ++ d.sanitize l.text :=
      if_neg hblank
    have hne : Line.indentation (n + l.depth) ++ d.sanitize l.text ≠ "" := by
      simp [String.append_eq_empty_iff, d.sanitize_ne_empty hblank]
    have hdepth : n + 1 + l.depth = n + l.depth + 1 := by omega
    rw [hwrite, hwrite, shifted, if_neg hne, hdepth, indentation_succ, String.append_assoc]

theorem writeAt_succ (d : Detector) (n : Nat) (lines : List Line) :
    writeAt d (n + 1) lines = (writeAt d n lines).map shifted := by
  simp [writeAt, write_deeper_succ]

def formTitles (f : Form) : List Line :=
  flush [s!"/* FRM DFA File: {f.file} */", banner] ++ metadataLines f.metadata ++ [.blank]

/-- The lines between the titles and the body; the last of them opens the outline. -/
def formOpening (d : Detector) (f : Form) : FormMode → List String
  | .include => writeAt d 0 (flush [s!"/* External Format: {f.file} */", "", "OUTLINE "])
  | .standalone =>
    writeAt d 0 (flush [s!"DOCFORMAT {f.formatName};"])
      ++ writeAt d 1 (flush [formMargins, "SETUNITS LINESP AUTO;", "", "OUTLINE"])

/-- The lines behind the body; the first of them closes the outline. -/
def formClosing (d : Detector) (f : Form) : FormMode → List String
  | .include => writeAt d 0 (flush ["ENDIO;", ""])
  | .standalone =>
    writeAt d 1 (flush ["ENDIO;"]) ++ writeAt d 0
      (flush ["", s!"/* END OF FRM DOCFORMAT {f.formatName} */", ""])

def formLevel : FormMode → Nat
  | .include => 1
  | .standalone => 2

def formHead : List Line := flush ["POSITION (0 MM) (0 MM)", "DIRECTION ACROSS;", ""]

theorem writeAt_nil (d : Detector) (n : Nat) : writeAt d n [] = [] := rfl

theorem writeAt_cons (d : Detector) (n : Nat) (l : Line) (lines : List Line) :
    writeAt d n (l :: lines) = Line.write d ⟨n + l.depth, l.text⟩ :: writeAt d n lines := rfl

theorem write_blank (d : Detector) (n : Nat) : Line.write d ⟨n, ""⟩ = "" := rfl

theorem writeAt_pageOutline (d : Detector) (n : Nat) (opener : String) (body : List Line) :
    writeAt d n (pageOutline opener body)
      = writeAt d n (flush [opener]) ++ writeAt d (n + 1) (formHead ++ body) ++ writeAt d n
        (flush ["ENDIO;"]) := by
  simp [pageOutline, formHead, flush, Line.blank, writeAt_nil, writeAt_cons, write_blank]

theorem writeAt_wrapForm (d : Detector) (f : Form) (mode : FormMode) (body : List Line) :
    writeAt d 0 (wrapForm mode f body ++ [.blank])
      = formOpening d f mode ++ writeAt d (formLevel mode) (formHead ++ body) ++ formClosing d f
        mode := by
  cases mode <;>
    simp [wrapForm, writeAt_pageOutline, formOpening, formClosing, formLevel, flush, Line.blank,
      writeAt_nil, writeAt_cons]

theorem formProgram_inMode (e : Env) (mode : FormMode) (f : Form) (s : State) :
    formProgram (e.inMode mode) f s =
      ⟨formTitles f ++ wrapForm mode f (formBody e f s).block.lines ++ [.blank]
        ++ (routineFormats e 0 0 (formBody e f s).state).lines,
        (routineFormats e 0 0 (formBody e f s).state).state⟩ := by
  rw [formProgram, formBody_inMode, routineFormats_inMode]
  rfl

theorem writeLines_eq (d : Detector) (lines : List Line) :
    writeLines d lines = Listing.text ⟨0, writeAt d 0 lines⟩ := by
  simp [writeLines, Listing.add, writeAt]

/-- The program of a form has the same titles, the same statements, the same formats of subroutines
and the same warnings in both modes. Only the lines around the statements and their level differ;
the level is kept to the end, and one level more is one more step of indentation on every line that
is not blank. -/
theorem Program.ofForm_inMode (settings : Settings) (p : Project) (f : Form) :
    let e : Env := { settings, project := p, renames := f.renames }
    let d := Detector.ofSettings settings.malformed
    let content := formBody e f (.initial e)
    let body (mode : FormMode) : Listing :=
      content.block.writeOn d (Listing.add d ⟨formLevel mode, []⟩ formHead)
    let routines := routineFormats e 0 0 content.state
    (∀ mode, Program.ofForm (settings.inMode mode) p f =
      { name := f.formatName
        text :=
          Listing.text ⟨0, writeAt d 0 (formTitles f) ++ formOpening d f mode ++ (body mode).written
          ++ formClosing d f mode ++ writeAt d 0 routines.lines⟩
        warnings := routines.state.warnings }) ∧
    (∀ mode, (body mode).level = formLevel mode) ∧
    (body .standalone).written = (body .include).written.map shifted := by
  intro e d content body routines
  have hbody (mode : FormMode) :
      body mode
        = ⟨formLevel mode, writeAt d (formLevel mode) (formHead ++ content.block.lines)⟩ := by
    rw [writeAt_append]
    exact Block.writeOn_eq d content.block _
  refine ⟨fun mode => ?_, fun mode => ?_, ?_⟩
  · have hprogram : Program.ofForm (settings.inMode mode) p f =
        { name := f.formatName
          text := writeLines d (formProgram (e.inMode mode) f (.initial e)).lines
          warnings := (formProgram (e.inMode mode) f (.initial e)).state.warnings } := rfl
    have hlines :
        writeAt d 0 (formTitles f ++ wrapForm mode f content.block.lines ++ [.blank]
          ++ routines.lines)
        = writeAt d 0 (formTitles f) ++ formOpening d f mode ++ (body mode).written
          ++ formClosing d f mode
          ++ writeAt d 0 routines.lines := by
      rw [List.append_assoc (formTitles f), writeAt_append, writeAt_append, writeAt_wrapForm, hbody]
      simp only [List.append_assoc]
    rw [hprogram, formProgram_inMode, writeLines_eq, ← hlines]
  · rw [hbody]
  · rw [hbody, hbody]
    exact writeAt_succ d 1 _

end Docdef

end VippDocdef
