import VippDocdef.Settings
import VippDocdef.Text.Cut

/-! Lines that are no valid DocDEF. Some VIPP idioms reach the output as text that would not load;
lines with a match of a configured pattern are commented out. -/

set_option autoImplicit false

namespace VippDocdef.Docdef

structure Detector where
  tests : List (String → Bool)

namespace Detector

/-- Patterns that cannot be read are left out. -/
def ofSettings (m : MalformedSettings) (library : PatternLibrary := Pattern.library) : Detector :=
  ⟨m.all.filterMap library⟩

def isCode (line : String) : Bool :=
  let text := Text.trim line
  text ≠ "" && !Text.startsWith text "/*" && !Text.startsWith text "//"

def flags (d : Detector) (line : String) : Bool := isCode line && d.tests.any (· line)

def sanitize (d : Detector) (line : String) : String :=
  if d.flags line then "/* " ++ line ++ " */" else line

theorem flags_comment (d : Detector) {line : String} (h : ['/', '*'] <+: line.toList) :
    d.flags line = false := by
  obtain ⟨rest, hrest⟩ := h
  have hend : ∃ more, Text.dropEndWhile Text.isBlank ('/' :: '*' :: rest) = '/' :: '*' :: more := by
    have hstar : Text.isBlank '*' = false := by decide
    simp only [Text.dropEndWhile, List.reverse_cons, List.append_assoc, List.dropWhile_append]
    split
    · exact ⟨[], by simp [hstar]⟩
    · exact ⟨(rest.reverse.dropWhile Text.isBlank).reverse, by simp⟩
  obtain ⟨more, hmore⟩ := hend
  have htrim : Text.trim line = .ofList ('/' :: '*' :: more) := by
    rw [Text.trim, ← hrest, ← hmore]
    exact congrArg _ (congrArg _ (List.dropWhile_cons_of_neg (by decide)))
  simp [flags, isCode, htrim, Text.startsWith, List.isPrefixOf]

end Detector

end VippDocdef.Docdef
