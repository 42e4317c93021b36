import Std.Time
import VippDocdef.CommandLine
import VippDocdef.CommandLine.Calendar

/-! The command line on a real file system: the files that matter are taken into a store, the run is
computed, and what it changed is written back. -/

set_option autoImplicit false

namespace VippDocdef.CommandLine

def locationText (l : Location) : String := "/" ++ "/".intercalate l

def locationOf (here : Location) (p : Path) : Location :=
  p.slashParts.foldl (fun l part =>
    if part = "" || part = "." then l
    else if part = ".." then l.dropLast
    else l ++ [part]) (if p.isAbsolute then [] else here)

def addAbove (s : Store) (l : Location) : Store :=
  (List.range l.length).foldl (fun s n =>
    match s.get? (l.take n) with
    | none => s.put (l.take n) .directory
    | some _ => s) s

/-- Whether the content of a file can matter to a run. -/
def matters (l : Location) : Bool :=
  let name := l.getLastD ""
  (sourceKind? ⟨name⟩).isSome || (resourceName? name).isSome

/-- A file that cannot be read is kept as one that is locked. -/
def readEntry (l : Location) : IO Entry := do
  let p := (← IO.currentDir) / locationText l
  try
    return .file (← IO.FS.readBinFile p)
  catch _ => return .locked

def takeFile (s : Store) (l : Location) : IO Store := do
  let p := (← IO.currentDir) / locationText l
  if ← p.isDir then return (addAbove s l).put l .directory
  else if ← p.pathExists then return (addAbove s l).put l (← readEntry l)
  else return s

partial def takeUp (s : Store) (l : Location) : IO Store := do
  let p := (← IO.currentDir) / locationText l
  if ← p.isDir then
    let mut s := (addAbove s l).put l .directory
    for entry in ← p.readDir do
      s ← takeUp s (l ++ [entry.fileName])
    return s
  else if ← p.pathExists then
    let entry ← if matters l then readEntry l else pure (.file .empty)
    return (addAbove s l).put l entry
  else return s

def literalPart (l : Location) : Location :=
  l.takeWhile fun part => !part.toList.any fun c => c = '*' || c = '?' || c = '['

def takeUpAll (here : Location) (around : Surroundings) (a : Arguments) : IO Store := do
  let mut s : Store := (addAbove { here } (here ++ [""])).put here .directory
  for n in List.range (here.length + 1) do
    s ← takeFile s (here.take n ++ [settingsFile])
  let user :=
    (around.configHome.map Path.mk).or (around.home.map fun h => Path.join ⟨h⟩ ⟨".config"⟩)
  if let some base := user then
    s ← takeFile s (locationOf here base ++ ["vipp2dfa", settingsFile])
  if let some config := a.config then
    s ← takeFile s (locationOf here ⟨config⟩)
  let settings := (loadSettings s around (a.config.map Path.mk)).toOption.getD {}
  s ← takeUp s (locationOf here ⟨(settings.override a.overrides).output.dir⟩)
  if let some input := a.input then
    let l := locationOf here ⟨input⟩
    s ← takeUp s (literalPart (if a.has .singleFile then l.dropLast else l))
    s ← takeUp s l
  return s

def writeBack (before after : Store) : IO Unit :=
  for (l, entry) in after.entries do
    match entry, before.get? l with
    | .directory, none => IO.FS.createDirAll (locationText l)
    | .file content, none => IO.FS.writeBinFile (locationText l) content
    | .file content, some (.file old) =>
      if content != old then IO.FS.writeBinFile (locationText l) content
    | _, _ => pure ()

end VippDocdef.CommandLine

open VippDocdef VippDocdef.CommandLine in
def main (args : List String) : IO UInt32 := do
  let here := locationOf [] ⟨(← IO.currentDir).toString⟩
  let around : Surroundings := ⟨← IO.getEnv "XDG_CONFIG_HOME", ← IO.getEnv "HOME"⟩
  let today := Date.ofDays (← Std.Time.Timestamp.now).toDaysSinceUnixEpoch.val
  let store ← match Arguments.read {} none args with
    | .ok a => takeUpAll here around a
    | .error _ => pure { here }
  let finish := CommandLine.run store around (.clock fun _ => today.text) args
  writeBack store finish.store
  IO.print finish.output
  if finish.usage then
    if finish.exitCode = 0 then IO.print usageText else IO.eprint usageText
  if let some message := finish.error then IO.eprintln s!"Error: {message}"
  return finish.exitCode.toUInt32
