import VippDocdef.Document.Build
import VippDocdef.Files.System

/-! The sources of a run: every document and form below a directory, one project a directory. -/

set_option autoImplicit false

namespace VippDocdef

def sortPaths (paths : List Path) : List Path := paths.mergeSort Path.le

/-- The sources below a directory, in order; the path of the directory may have wildcards, and there
are none if they are malformed. -/
def discoverSources? {σ : Type} [FileSystem σ] (s : σ) (root : Path) : Option (List Path) :=
  (FileSystem.find? s false ((root.join ⟨"**"⟩).join ⟨"*"⟩).text).map fun found =>
    sortPaths (found.filter fun p => FileSystem.isFile s p && (sourceKind? p).isSome)

structure SourceGroup where
  dir : Path
  documents : List Path := []
  forms : List Path := []
  deriving DecidableEq, Repr

def SourceGroup.add (g : SourceGroup) (p : Path) : UnitKind → SourceGroup
  | .document => { g with documents := g.documents ++ [p] }
  | .form => { g with forms := g.forms ++ [p] }

/-- Puts a source into the group of its directory, groups being ordered by directory. -/
def addToGroups (dir : Path) (p : Path) (kind : UnitKind) : List SourceGroup → List SourceGroup
  | [] => [SourceGroup.add { dir } p kind]
  | g :: gs =>
    if g.dir.same dir then g.add p kind :: gs
    else if g.dir.le dir then g :: addToGroups dir p kind gs
    else SourceGroup.add { dir } p kind :: g :: gs

def groupByDirectory (paths : List Path) : List SourceGroup :=
  paths.foldl (fun groups p =>
    match sourceKind? p with
    | some kind => addToGroups (p.parent?.getD ⟨""⟩) p kind groups
    | none => groups) []

def siblingForms (s : Store) (document : Path) : Except FileError (List Path) := do
  let names ← s.list document.directory
  let paths := names.map fun name => document.directory.join ⟨name⟩
  return sortPaths (paths.filter fun p => s.isFile p && sourceKind? p = some .form)

end VippDocdef
