import Cascade.Program

/-!
# The command line

The process reads the files of the project, that is all below the directory
that holds the project's own, runs, and writes back what has changed.
Nothing is decided here.
-/

namespace Cascade.Main

/-- Read an entry of the file system and all that is below it. -/
partial def load (t : TreeFiles) (path : String) : IO TreeFiles := do
  let entry := (← IO.currentDir) / path
  let place := TreeFiles.namesOf path
  match (← entry.symlinkMetadata).type with
  | .symlink =>
    try
      return t.put place (.link (← IO.FS.realPath entry).toString)
    catch _ => return t
  | .file =>
    try
      return t.put place (.file (← IO.FS.readBinFile entry))
    catch _ => return t
  | .dir =>
    let mut t := t.put place .directory
    for e in ← entry.readDir do
      t ← load t (path ++ "/" ++ e.fileName)
    return t
  | .other => return t

/-- Remove what is not there any more, and write what is new or different. -/
def save (old new : TreeFiles) : IO Unit := do
  let here ← IO.currentDir
  for (place, entry) in old.entries.toList.reverse do
    if (new.get? place).isNone then
      let path := here / (TreeFiles.pathOf place).text
      match entry with
      | .directory => IO.FS.removeDir path
      | _ => IO.FS.removeFile path
  for (place, entry) in new.entries.toList do
    let path := here / (TreeFiles.pathOf place).text
    match entry, old.get? place with
    | .directory, some _ => pure ()
    | .directory, none => IO.FS.createDirAll path
    | .file content, some (.file before) =>
      if content.data ≠ before.data then IO.FS.writeBinFile path content
    | .file content, _ => IO.FS.writeBinFile path content
    | .link _, _ => pure ()

/-- The files that a run may work on, seen from the current directory. -/
def filesFor (i : Cli.Invocation) (current : TreeFiles) : IO TreeFiles := do
  let root := Program.rootDirectory current ⟨i.config⟩
  let base ← IO.FS.realPath ((← IO.currentDir) / (root.text ++ "/.."))
  let t := (current.makeDirectories ⟨base.toString⟩).toOption.getD current
  try load t base.toString catch _ => return t

/-- How many processing units a run counts on.  The system is not asked for the number. -/
def processingUnits : Nat := 4

/-- Run the process. -/
def run (words : List String) : IO UInt32 := do
  let here ← IO.currentDir
  let empty := { TreeFiles.empty with current := TreeFiles.namesOf here.toString }
  let current := (empty.makeDirectories ⟨here.toString⟩).toOption.getD empty
  let old ← match Cli.parse words with
    | .ok i => filesFor i current
    | .error _ => pure current
  let finished := Program.start processingUnits words (← IO.getEnv "DEPDAG_LOG") old
  save old finished.result.files
  (← IO.getStdout).write finished.result.console.output
  (← IO.getStderr).write finished.errorOutput
  return UInt32.ofNat finished.status.toNat

end Cascade.Main

/-- The command line. -/
def main (words : List String) : IO UInt32 := Cascade.Main.run words
