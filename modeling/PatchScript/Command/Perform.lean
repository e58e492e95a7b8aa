import PatchScript.Command.Arguments
import PatchScript.Files.Media
import PatchScript.Files.Scripts
import PatchScript.Run.Program

/-!
# Actions

An action reads and changes a disk, and answers with lines and an exit code.  The first
line tells whether the action was done.  Behind `RESULT:OK` stands what the action found;
behind `RESULT:ERROR` a code that programs read and a message that people read.
-/

namespace PatchScript.Command

open Files
open Run (Fault Diagnostic Host)

/-! ## Answers -/

/-- The answer to a command line. -/
structure Reply where
  /-- The lines that are shown. -/
  lines : List String
  /-- The exit code. -/
  code : Nat
deriving DecidableEq

/-- What is shown, as one text. -/
def Reply.shown (r : Reply) : String := String.join (r.lines.map (· ++ "\n"))

/-- Why an action is not done. -/
inductive Failure where
  /-- There is no file with settings of this name. -/
  | configMissing (path : DiskPath)
  /-- The file with the settings holds no text. -/
  | configUnreadable
  /-- The settings make no sense. -/
  | configInvalid
  /-- There is no file with a script here. -/
  | fileMissing (file : DiskPath)
  /-- The directory of the scripts is missing. -/
  | collectionMissing (collection : DiskPath)
  /-- In place of the directory of the scripts there is a file. -/
  | collectionNoDirectory (collection : DiskPath)
  /-- There is no script of this name. -/
  | scriptMissing (name : String) (collection : DiskPath)
  /-- A script cannot be made. -/
  | creation (e : CreationFault)
  /-- A source is no script. -/
  | source (e : Script.SourceError)
  /-- A run ends before its end. -/
  | run (e : Fault)

/-- What is told about a failure. -/
def Failure.report : Failure → Report
  | .configMissing path =>
    ⟨"CLI_CONFIG_NOT_FOUND", "Config file does not exist: " ++ path.text, none⟩
  | .configUnreadable => ⟨"CLI_CONFIG_READ", "The config file holds no text", none⟩
  | .configInvalid => ⟨"CLI_CONFIG_INVALID", "The config file holds no settings", none⟩
  | .fileMissing file =>
    ⟨"CLI_SOURCE_NOT_FOUND", "script file does not exist: " ++ file.text, none⟩
  | .collectionMissing collection =>
    ⟨"CLI_SOURCE_NOT_FOUND", "scripts-dir does not exist: " ++ collection.text, none⟩
  | .collectionNoDirectory collection =>
    ⟨"CLI_SOURCE_NOT_DIR", "scripts-dir is not a directory: " ++ collection.text, none⟩
  | .scriptMissing name collection =>
    ⟨"CLI_SCRIPT_NOT_FOUND", "Script '" ++ name ++ "' not found under " ++ collection.text, none⟩
  | .creation (.invalidName name) =>
    ⟨"CLI_SCRIPT_NAME_INVALID", "Invalid script name: '" ++ name ++ "'", none⟩
  | .creation (.taken directory) =>
    ⟨"CLI_SCRIPT_EXISTS", "Script already exists: " ++ directory.text, none⟩
  | .creation .notWritten => ⟨"CLI_SOURCE_WRITE", "The script cannot be written", none⟩
  | .source e => e.report
  | .run e => e.report

/-- The answer of an action that found something. -/
def Reply.ok (found : List String) : Reply := ⟨"RESULT:OK" :: found, 0⟩

/-- The answer of an action that is not done. -/
def Reply.failed (e : Failure) : Reply where
  lines := ["RESULT:ERROR", "ERROR_CODE:" ++ e.report.code,
    "ERROR_MSG_JSON:" ++ Text.json e.report.message]
  code := 1

/-- The answer where no action is done. -/
def Reply.stopped : Stop → Reply
  | .help => ⟨[], 0⟩
  | .refused => ⟨[], 2⟩

/-! ## Settings and places -/

/-- The file with the settings of an invocation, and whether it has to be there. -/
def configFile (inv : Invocation) : DiskPath × Bool :=
  match inv.config with
  | some path => (⟨path⟩, true)
  | none => (⟨Config.defaultFile⟩, false)

/-- The settings in the file that an invocation names. -/
def readConfig (inv : Invocation) (d : Disk) : Except Failure Config :=
  let (path, needed) := configFile inv
  match d.find? path with
  | some (.text s) =>
    match Config.ofText? s with
    | some config => .ok config
    | none => .error .configInvalid
  | some (.binary _) => .error .configUnreadable
  | some .directory | none => if needed then .error (.configMissing path) else .ok .default

/-- The settings of an invocation: those of the file, and the options that take their
place. -/
def settings (inv : Invocation) (d : Disk) : Except Failure Config := do
  let config ← readConfig inv d
  return {
    scriptsDir := inv.scriptsDir.getD config.scriptsDir
    filesDir := inv.filesDir.getD config.filesDir
    mediaDir := inv.mediaDir.getD config.mediaDir }

/-- The path of the directory that a disk is seen from. -/
def herePath (d : Disk) : DiskPath := ⟨"/" ++ "/".intercalate d.here⟩

/-- A path from the top of the disk. -/
def absolute (d : Disk) (path : String) : DiskPath := (herePath d).join path

/-- The directory of the documents. -/
def mediaRoot (config : Config) : DiskPath := (DiskPath.mk config.filesDir).join config.mediaDir

/-- The directory of the scripts, which has to be there, and its place. -/
def openCollection (config : Config) (d : Disk) : Except Failure (DiskPath × Place) :=
  let collection := absolute d config.scriptsDir
  match d.locate collection with
  | none => .error (.collectionMissing collection)
  | some place =>
    if d.entry? place = some .directory then .ok (collection, place)
    else .error (.collectionNoDirectory collection)

/-- A file, which has to be there. -/
def openFile (d : Disk) (file : String) : Except Failure DiskPath :=
  let file := absolute d file
  if d.isFile file then .ok file else .error (.fileMissing file)

/-- The text of a file with a script. -/
def readFile (d : Disk) (file : String) : Except Failure String := do
  match d.find? (← openFile d file) with
  | some (.text s) => return s
  | _ => throw (.run Origin.unreadable)

/-! ## Doing actions -/

/-- Runs the script of an origin.  The disk has the documents as they were written. -/
def runOrigin (seed : UInt32) (config : Config) (d : Disk) (o : Origin) :
    Run.Outcome MediaStore :=
  Run.runScript ⟨o.sources d, seed⟩ ⟨d, mediaRoot config⟩ o.name

/-- The origin of the script that an action runs, if it runs one. -/
def originOf (config : Config) (d : Disk) : Action → Except Failure (Option Origin)
  | .run name => do
    let (collection, _) ← openCollection config d
    if ¬ hasScript d collection name then throw (.scriptMissing name collection)
    return some (.inCollection collection name)
  | .exec file => return some (.ofFile (← openFile d file))
  | _ => return none

/-- Runs a script and tells what is diagnosed. -/
def runAndTell (seed : UInt32) (config : Config) (d : Disk) (o : Origin) :
    Except Failure (List String) × Disk :=
  let outcome := runOrigin seed config d o
  let found := match outcome.result with
    | .ok ds => .ok (ds.map fun d => "DIAGNOSTIC:" ++ d.render)
    | .error e => .error (.run e)
  (found, outcome.store.disk)

/-- The tokens of a script. -/
def readTokens (source : String) : Except Failure (List Script.Token) :=
  (Script.lex source).mapError fun e => .source (.lex e)

/-- Reads a script and tells how many tokens and directives it has. -/
def checkSource (source : String) : Except Failure (List String) := do
  let tokens ← readTokens source
  let body ← (Script.parse tokens).mapError fun e => .source (.parse e)
  return ["TOKENS:" ++ toString tokens.length, "STATEMENTS:" ++ toString body.length]

/-- Shows the tokens of a script. -/
def showTokens (source : String) : Except Failure (List String) := do
  let tokens ← readTokens source
  return ["TOKENS_JSON:" ++ Script.Token.listJson tokens]

/-- The line about a script of a collection. -/
def listedLine (s : Listed) : String :=
  "SCRIPT:" ++ s.name ++ "|" ++ (s.description.map Text.json).getD "null"

/-- Lists the scripts of a collection. -/
def showScripts (config : Config) (d : Disk) : Except Failure (List String) := do
  let (_, place) ← openCollection config d
  match listScripts d place with
  | .ok scripts => return scripts.map listedLine
  | .error e => throw (.run e)

/-- Makes a script. -/
def newScript (config : Config) (d : Disk) (name : String) (description : Option String) :
    Except Failure (List String) × Disk :=
  match createScript d (absolute d config.scriptsDir) name description with
  | (.ok file, d) => (.ok ["CREATED:" ++ file.text], d)
  | (.error e, d) => (.error (.creation e), d)

/-- Does an action: what it found, and the disk that it leaves. -/
def doAction (seed : UInt32) (config : Config) (d : Disk) (t : Action) :
    Except Failure (List String) × Disk :=
  match t with
  | .run _ | .exec _ =>
    match originOf config d t with
    | .ok (some o) => runAndTell seed config d o
    | .ok none => (.ok [], d)
    | .error e => (.error e, d)
  | .check file => (readFile d file >>= checkSource, d)
  | .tokens file => (readFile d file >>= showTokens, d)
  | .list => (showScripts config d, d)
  | .new name description => newScript config d name description

/-- Answers an invocation: the answer, and the disk that is left. -/
def perform (seed : UInt32) (inv : Invocation) (d : Disk) : Reply × Disk :=
  match settings inv d with
  | .error e => (.failed e, d)
  | .ok config =>
    match doAction seed config d inv.action with
    | (.ok found, d) => (.ok found, d)
    | (.error e, d) => (.failed e, d)

/-- Answers the words of a command line. -/
def answer (seed : UInt32) (words : List String) (d : Disk) : Reply × Disk :=
  match Invocation.ofWords words with
  | .error stop => (.stopped stop, d)
  | .ok inv => perform seed inv d

end PatchScript.Command
