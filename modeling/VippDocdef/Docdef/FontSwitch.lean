/-! Font switches `~~XX` inside literals. -/

set_option autoImplicit false

namespace VippDocdef.Docdef

/-- The font named by a switch at the start of a text, one or two characters long, and what follows
it. -/
def switch? : List Char → Option (List Char × List Char)
  | '~' :: '~' :: c :: cs =>
    if c.isAlphanum then
      match cs with
      | d :: rest => if d.isAlphanum then some ([c, d], rest) else some ([c], d :: rest)
      | [] => some ([c], [])
    else none
  | _ => none

theorem length_of_switch? {cs name rest : List Char} (h : switch? cs = some (name, rest)) :
    rest.length < cs.length := by
  unfold switch? at h
  split at h
  · split at h
    · split at h
      · split at h <;> · simp only [Option.some.injEq, Prod.mk.injEq] at h
                         rw [← h.2]; simp only [List.length_cons]; omega
      · simp only [Option.some.injEq, Prod.mk.injEq] at h
        rw [← h.2]; simp
    · cases h
  · cases h

def runs : List Char → List Char × List (List Char × List Char)
  | [] => ([], [])
  | c :: cs =>
    match h : switch? (c :: cs) with
    | some (name, rest) =>
      have := length_of_switch? h
      let behind := runs rest
      ([], (name, behind.1) :: behind.2)
    | none =>
      let behind := runs cs
      (c :: behind.1, behind.2)
termination_by cs => cs.length
decreasing_by all_goals (simp only [List.length_cons] at *; omega)

/-- The stretches of a text that are set in one font, with that font; those before any switch have
the font `start`. -/
def fontSegments (start : String) (s : String) : List (String × String) :=
  let cut := runs s.toList
  ((start, cut.1) :: cut.2.map fun (name, text) => (.ofList name, text)).filterMap
    fun (font, text) => if text.isEmpty then none else some (font, .ofList text)

end VippDocdef.Docdef
