import ScopeLint.CommandLine

/-!
# The program

Reads the files that a command asks for, runs the command on them, and writes what has changed.
-/

namespace ScopeLint.Main

/-- The names in an absolute path. -/
def placeOf (path : String) : Place := (Files.pathNames path).filter (· ≠ "")

/-- The file at a path as an entry. -/
def entryAt (path : String) : IO Entry := do
  try
    return .file (← IO.FS.readBinFile path).toList
  catch _ => return .locked

/-- The entries at a path and below it; there are none for a path that leads nowhere. Files below a
folder are read only if their extension is one of those accepted. -/
def entriesAt (path : String) (accepts : String → Bool) : IO (List (Place × Entry)) := do
  try
    let real ← IO.FS.realPath path
    if ← real.isDir then
      let mut found := [(placeOf real.toString, Entry.folder)]
      for inner in ← real.walkDir do
        unless ← inner.isDir do
          let place := placeOf inner.toString
          let entry ← if (place.getLast?.bind Files.extension?).any accepts then
            entryAt inner.toString else pure .locked
          found := (place, entry) :: found
      return found
    else return [(placeOf real.toString, ← entryAt path)]
  catch _ => return []

/-- The folder of a path, and what is at the path itself if that is a folder. -/
def foldersAt (path : String) : IO (List (Place × Entry)) := do
  let folder := "/".intercalate (Files.pathNames path).dropLast
  let folder := if folder.isEmpty then (if path.startsWith "/" then "/" else ".") else folder
  let mut found := []
  for candidate in [folder, path] do
    try
      let real ← IO.FS.realPath candidate
      if ← real.isDir then found := (placeOf real.toString, Entry.folder) :: found
    catch _ => pure ()
  return found

/-- The files that a command reads and the folders that it writes to. -/
def filesFor (command : CommandLine.Command) : IO Files := do
  let here := placeOf (← IO.FS.realPath ".").toString
  let entries ← match command with
    | .check path settings => do
      let units ← entriesAt path settings.accepts
      let rules ← match settings.rulesPath with
        | some rules => entriesAt rules fun _ => false
        | none => pure []
      pure (units ++ rules ++ (← foldersAt settings.outputPath))
    | .dumpText _ => pure []
    | .dumpFile path => entriesAt path fun _ => false
  return ⟨here, (here, .folder) :: entries⟩

/-- Writes the files that are not as they were before. -/
def writeChanges (before after : Files) : IO Unit := do
  for (place, entry) in after.entries do
    match entry with
    | .file bytes =>
      unless before.entries.lookup place == some entry do
        IO.FS.writeBinFile ("/" ++ "/".intercalate place) bytes.toByteArray
    | _ => pure ()

def clock : CommandLine.Clock IO where
  time f := do
    let begun ← IO.monoNanosNow
    let result ← IO.lazyPure f
    let ended ← IO.monoNanosNow
    return (result, (ended - begun) / 1000)

def run (args : List String) : IO UInt32 := do
  let files ← match CommandLine.Command.read? args with
    | some command => filesFor command
    | none => pure ⟨[], []⟩
  let outcome ← CommandLine.run clock files 1 args
  IO.print outcome.output
  IO.eprint outcome.complaint
  try
    writeChanges files outcome.files
    return outcome.exit.toUInt32
  catch e =>
    IO.eprintln s!"Error: {e}"
    return 1

end ScopeLint.Main

def main (args : List String) : IO UInt32 := ScopeLint.Main.run args
