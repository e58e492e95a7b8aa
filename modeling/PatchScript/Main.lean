import PatchScript.Command.Reach

/-!
# The program

The program answers one command line.  It copies from the real disk what the action looks
at, in rounds, until nothing new is looked at; answers from the copy; writes back what
the answer changed; and shows the answer.  Everything else is decided in
`PatchScript.Command`.
-/

namespace PatchScript.Program

open Files Command

/-- What is shown to whoever asks for help, or for something that makes no sense. -/
def usage : String := "\n".intercalate [
  "Usage: mml [OPTIONS] <ACTION>",
  "",
  "Actions:",
  "  run <NAME>     Run a script from the scripts directory",
  "  exec <FILE>    Run a script file; includes resolve next to it",
  "  check <FILE>   Read a script file without running it",
  "  tokens <FILE>  Print the tokens of a script file as JSON",
  "  list           List the scripts in the scripts directory",
  "  new <NAME>     Create a script [--description <TEXT>]",
  "",
  "Options:",
  "  --config <FILE>  --scripts-dir <DIR>  --files-dir <DIR>  --media-dir <DIR>",
  "  -v, --verbose    -h, --help",
  ""]

/-- The text of the path to a place. -/
def textOf (place : Place) : String := "/" ++ "/".intercalate place

/-- Copies what is at a place, if there is something. -/
def copyEntry (d : Disk) (place : Place) : IO Disk := do
  if (d.entry? place).isSome then return d
  let path := (← IO.currentDir) / textOf place
  if ← path.isDir then return d.put place .directory
  if ← path.pathExists then
    let bytes ← IO.FS.readBinFile path
    match String.fromUTF8? bytes with
    | some s => return d.put place (.text s)
    | none => return d.put place (.binary bytes.toList)
  return d

/-- Copies the directories in a directory, without what is in them. -/
def copyDirectories (d : Disk) (place : Place) : IO Disk := do
  if d.entry? place ≠ some .directory then return d
  let path := (← IO.currentDir) / textOf place
  (← path.readDir).foldlM (fun d e => do
    let next := place ++ [e.fileName]
    if (← e.path.isDir) && (d.entry? next).isNone then return d.put next .directory
    return d) d

/-- Copies what is along the parts of a path. -/
def copyParts (d : Disk) (place : Place) : List String → IO Disk
  | [] => copyDirectories d place
  | part :: parts => do
    let d ← if Disk.isName part then copyEntry d (place ++ [part]) else pure d
    match d.step place part with
    | some next => copyParts d next parts
    | none => return d

/-- Copies what an invocation looks at, beyond the paths that are copied already. -/
partial def copyFor (seed : UInt32) (inv : Invocation) (copied : List DiskPath) (d : Disk) :
    IO Disk := do
  match (looksAt seed inv d).filter (! copied.contains ·) with
  | [] => return d
  | paths =>
    let d ← paths.foldlM (fun d p => copyParts d (d.start p) p.parts) d
    copyFor seed inv (copied ++ paths) d

/-- Writes what is at a place. -/
def writeEntry (place : Place) : Entry → IO Unit
  | .directory => IO.FS.createDirAll (textOf place)
  | .text s => IO.FS.writeFile (textOf place) s
  | .binary bytes => IO.FS.writeBinFile (textOf place) ⟨bytes.toArray⟩

/-- Writes what differs from an older state of the disk. -/
def writeChanges (old new : Disk) : IO Unit :=
  new.entries.forM fun (place, e) => do
    if old.entry? place ≠ some e then writeEntry place e

/-- The disk with the directories that lead to the working directory. -/
def startDisk : IO Disk := do
  let here := (DiskPath.mk (← IO.currentDir).toString).parts.filter (· != "")
  let above := (List.range (here.length + 1)).map fun n => (here.take n, Entry.directory)
  return ⟨above.drop 1, here⟩

/-- Answers an invocation. -/
def answerOn (inv : Invocation) : IO UInt32 := do
  let seed := UInt32.ofNat (← IO.rand 0 4294967295)
  let old ← copyFor seed inv [] (← startDisk)
  let (reply, new) := perform seed inv old
  writeChanges old new
  IO.print reply.shown
  return UInt32.ofNat reply.code

end PatchScript.Program

open PatchScript.Program PatchScript.Command in
/-- Answers the command line. -/
def main (words : List String) : IO UInt32 := do
  match Invocation.ofWords words with
  | .ok inv => answerOn inv
  | .error stop =>
    match stop with
    | .help => IO.print usage
    | .refused => IO.eprint usage
    return UInt32.ofNat (Reply.stopped stop).code
