import VippDocdef.Files.Glob

/-! What is asked of the system where files are looked for, read and written. -/

set_option autoImplicit false

namespace VippDocdef

class FileSystem (σ : Type) where
  /-- The paths that match a pattern, in any letter case if wanted; nothing if it is malformed. -/
  find? : σ → (anyCase : Bool) → (pattern : String) → Option (List Path)
  isFile : σ → Path → Bool
  contains : σ → Path → Bool
  read : σ → Path → Except FileError ByteArray
  /-- Writes a file in place of the one that was there; a write that fails changes nothing. -/
  write : σ → Path → ByteArray → Except FileError σ

instance instFileSystemStore : FileSystem Store where
  find? := Glob.find?
  isFile := Store.isFile
  contains := Store.contains
  read := Store.read
  write := Store.write

end VippDocdef
