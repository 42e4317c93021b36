import VippDocdef.Files.System
import VippDocdef.Resources
import VippDocdef.Table

/-! Copying the files that sources refer to. -/

set_option autoImplicit false

namespace VippDocdef

open FileSystem

variable {σ : Type} [FileSystem σ]

def findResource? (s : σ) (root : Path) (name : String) : Option Path :=
  match find? s true ((root.join ⟨"**"⟩).join ⟨Glob.escape name⟩).text with
  | some found => ((found.filter (isFile s)).mergeSort Path.le).head?
  | none => none

/-- Where the files that some sources refer to are; those that are nowhere are left out. -/
def locateResources (s : σ) (root : Path) (sources : List String) : Table Path :=
  Table.ofList ((sources.flatMap referencedResources).filterMap fun name =>
    (findResource? s root name).map (name, ·))

/-- Copies a file into a directory, unless there is one of its name already or it cannot be done. -/
def copyInto (target : Path) (s : σ) (p : Path) : σ :=
  match p.fileName? with
  | none => s
  | some name =>
    if contains s (target.join ⟨name⟩) then s
    else
      match read s p with
      | .ok content => (write s (target.join ⟨name⟩) content).toOption.getD s
      | .error _ => s

def copyResources (s : σ) (root target : Path) (sources : List String) : Table Path × σ :=
  let located := locateResources s root sources
  (located, located.values.foldl (copyInto target) s)

end VippDocdef
