import PatchScript.Command.Perform

/-!
# What an action looks at

An action looks only at a few places of a disk.  `looksAt` tells the paths of them, as far
as they are known from a disk that has only some of the places: which scripts are
included is known once the including one is there, and which documents are opened
once the scripts are.
-/

namespace PatchScript.Command

open Files

/-- The paths of the documents that a script opens. -/
def documentPaths (seed : UInt32) (config : Config) (d : Disk) (o : Origin) : List DiskPath :=
  let outcome := runOrigin seed config d o
  outcome.calls.map fun call =>
    match call with
    | .load document | .persist document => outcome.store.path document

/-- The paths that an action looks at with the settings. -/
def actionLooksAt (seed : UInt32) (config : Config) (d : Disk) (t : Action) : List DiskPath :=
  let collection := absolute d config.scriptsDir
  let first := match t with
    | .run name => [collection, (Origin.inCollection collection name).file]
    | .exec file | .check file | .tokens file => [absolute d file]
    | .list => [collection]
    | .new name _ => [collection.join (scriptName name)]
  let more := match t with
    | .list =>
      match d.locate collection with
      | none => []
      | some place => (d.namesIn place).flatMap fun name =>
        let directory := collection.join name
        [directory.join entryFile, directory.join descriptionFile]
    | _ =>
      match originOf config d t with
      | .ok (some o) => (o.names d).map o.path ++ documentPaths seed config d o
      | _ => []
  first ++ more

/-- The paths that an invocation looks at. -/
def looksAt (seed : UInt32) (inv : Invocation) (d : Disk) : List DiskPath :=
  let (file, _) := configFile inv
  match settings inv d with
  | .ok config => file :: actionLooksAt seed config d inv.action
  | .error _ => [file]

end PatchScript.Command
