import PatchScript.Files.Disk
import PatchScript.Run.Host

/-!
# Scripts on a disk

Scripts are kept in a *collection*: a directory with a directory for every script,
which has the name of the script and holds its text in `index.mml`.  It may hold a
description, and the scripts that this one includes.  A script can also be a file
anywhere; the scripts it includes are then files beside it.

Where a script is and where its includes are is an `Origin`.  The table of sources
that a run needs is made from all includes that stand in any script on the disk.
-/

namespace PatchScript.Files

open Run (Fault Sources)

/-- The file that holds the text of a script. -/
def entryFile : String := "index.mml"

/-- The file that holds the description of a script. -/
def descriptionFile : String := "description.txt"

/-- The extension of scripts. -/
def scriptExtension : String := ".mml"

/-! ## Sources -/

/-- Where the text of a script is, and of those it includes. -/
structure Origin where
  /-- The name of the script. -/
  name : String
  /-- The file that holds it. -/
  file : DiskPath
  /-- The directory of the scripts it includes. -/
  directory : DiskPath

namespace Origin

/-- The origin of a script of a collection. -/
def inCollection (collection : DiskPath) (name : String) : Origin :=
  let directory := collection.join name
  ⟨name, directory.join entryFile, directory⟩

/-- The origin of a script in a file. -/
def ofFile (file : DiskPath) : Origin := ⟨file.stem, file, file.parent⟩

/-- The file of a script by name: the script itself, or one that it includes. -/
def path (o : Origin) (name : String) : DiskPath :=
  if name = o.name then o.file else o.directory.join (name ++ scriptExtension)

/-- The fault of a file that holds no text. -/
def unreadable : Fault := .host "CLI_SOURCE_READ" "The file holds no text"

/-- The source of a script by name, if there is one. -/
def source? (o : Origin) (d : Disk) (name : String) : Option (Except Fault String) :=
  match d.find? (o.path name) with
  | some (.text s) => some (.ok s)
  | some (.binary _) => some (.error unreadable)
  | some .directory | none => none

/-- The texts on the disk that may be run: the script itself, and every text in a file
with the extension of scripts. -/
def texts (o : Origin) (d : Disk) : List String :=
  let own := match d.find? o.file with
    | some (.text s) => [s]
    | _ => []
  own ++ d.entries.filterMap fun (place, e) =>
    match e with
    | .text s =>
      if scriptExtension.toList.isSuffixOf (place.getLast?.getD "").toList then some s else none
    | _ => none

/-- The names that a run can ask for: that of the script, and those in an include. -/
def names (o : Origin) (d : Disk) : List String :=
  let included := (o.texts d).flatMap fun s =>
    match Script.read s with
    | .ok body => Script.includesOf body
    | .error _ => []
  (o.name :: included).eraseDups

/-- The sources of a run. -/
def sources (o : Origin) (d : Disk) : Sources :=
  (o.names d).filterMap fun name => (o.source? d name).map (name, ·)

end Origin

/-! ## Collections -/

/-- What is told about a script of a collection. -/
structure Listed where
  /-- The name. -/
  name : String
  /-- The description, if there is one. -/
  description : Option String
deriving DecidableEq

/-- Is there a script of this name in a collection? -/
def hasScript (d : Disk) (collection : DiskPath) (name : String) : Bool :=
  d.isFile (Origin.inCollection collection name).file

/-- The text without the blanks around it, unless nothing remains. -/
def substance? (s : String) : Option String :=
  let s := Text.trim s
  if s = "" then none else some s

/-- The description of a script at a place.  It is a fault if the file with it holds
no text. -/
def describe (d : Disk) (place : Place) : Except Fault (Option String) :=
  match d.entry? (place ++ [descriptionFile]) with
  | some (.text s) => .ok (substance? s)
  | some (.binary _) => .error Origin.unreadable
  | some .directory | none => .ok none

/-- The scripts of a collection at a place, ordered by name. -/
def listScripts (d : Disk) (place : Place) : Except Fault (List Listed) :=
  let isScript (name : String) : Bool :=
    match d.entry? (place ++ [name, entryFile]) with
    | some (.text _) | some (.binary _) => true
    | _ => false
  let names := ((d.namesIn place).filter isScript).mergeSort fun a b => decide (a ≤ b)
  names.mapM fun name => do
    return ⟨Text.replaceAll name "\\" "/", ← describe d (place ++ [name])⟩

/-! ## New scripts -/

/-- Why a script cannot be made. -/
inductive CreationFault where
  /-- The name cannot be the name of a script. -/
  | invalidName (name : String)
  /-- There is something in place of the script. -/
  | taken (directory : DiskPath)
  /-- The disk refuses to write. -/
  | notWritten

/-- The name that a script gets: blanks around it are dropped and spaces inside it
replaced. -/
def scriptName (name : String) : String := Text.replaceAll (Text.trim name) " " "_"

/-- Can a script have this name? -/
def isScriptName (name : String) : Bool :=
  name != "" && name != "." && name != ".." && name.toList.all fun c => c != '/' && c != '\\'

/-- Makes a script that does nothing in a collection, and the collection if it is
missing.  The disk is given in any case, since directories and the script may be made
before the disk refuses. -/
def createScript (d : Disk) (collection : DiskPath) (name : String) (description : Option String) :
    Except CreationFault DiskPath × Disk :=
  let name := scriptName name
  let directory := collection.join name
  let file := directory.join entryFile
  if ¬ isScriptName name then (.error (.invalidName name), d)
  else if (d.locate directory).isSome then (.error (.taken directory), d)
  else
    let (made, place) := d.makeDirectories directory
    match place.bind fun _ => made.write file ("// " ++ name ++ "\n") with
    | none => (.error .notWritten, made)
    | some entered =>
      match description.bind substance? with
      | none => (.ok file, entered)
      | some s =>
        match entered.write (directory.join descriptionFile) s with
        | some d => (.ok file, d)
        | none => (.error .notWritten, entered)

end PatchScript.Files
