import VippDocdef.Files.Store
import VippDocdef.Settings.Reader

/-! Where settings are looked for: in the working directory and those above it, then in the
directory for the user's settings. -/

set_option autoImplicit false

namespace VippDocdef

def settingsFile : String := "vipp2dfa.toml"

/-- The first settings file in a directory and those above it, as far as the path tells. -/
def findSettingsUp (s : Store) : (most : Nat) → Path → Option Path
  | 0, _ => none
  | most + 1, dir =>
    let candidate := dir.join ⟨settingsFile⟩
    if s.contains candidate then some candidate else dir.parent?.bind (findSettingsUp s most)

def findSettingsFrom (s : Store) (dir : Path) : Option Path :=
  findSettingsUp s (dir.parts.length + 2) dir

structure Surroundings where
  configHome : Option String := none
  home : Option String := none
  deriving DecidableEq, Repr

def userSettings? (s : Store) (around : Surroundings) : Option Path :=
  let base :=
    (around.configHome.map Path.mk).or (around.home.map fun h => Path.join ⟨h⟩ ⟨".config"⟩)
  (base.map fun b => (b.join ⟨"vipp2dfa"⟩).join ⟨settingsFile⟩).filter s.contains

def Store.herePath (s : Store) : Path := ⟨"/" ++ "/".intercalate s.here⟩

def findSettings (s : Store) (around : Surroundings) : Option Path :=
  (findSettingsFrom s s.herePath).or (userSettings? s around)

def readSettings (s : Store) (p : Path) : Except SettingsError Settings :=
  match s.readText p with
  | .ok text => Settings.ofText text
  | .error reason => .error (.unreadable reason.message)

/-- Settings from a given file, or from the one that applies; without any, the defaults. -/
def loadSettings (s : Store) (around : Surroundings) (given : Option Path) :
    Except SettingsError Settings :=
  match given.or (findSettings s around) with
  | some p => readSettings s p
  | none => .ok {}

end VippDocdef
