import PatchScript.Command.Json

/-!
# Settings

The settings say where scripts and documents are.  They are a value of JSON: an
object with a field for each setting, or an array of them in order.  What is left
out has its default.  Fields of other names are allowed and mean nothing.
-/

namespace PatchScript.Command

/-- Where scripts and documents are. -/
structure Config where
  /-- The directory of the scripts. -/
  scriptsDir : String
  /-- The directory of the files. -/
  filesDir : String
  /-- The directory of the documents below it. -/
  mediaDir : String
deriving DecidableEq

namespace Config

/-- The settings as long as nothing else is said. -/
def default : Config := ⟨"files/scripts", "files/temp", "[media]"⟩

/-- The file with the settings, if no other is named. -/
def defaultFile : String := "mml.json"

/-- The text of a string that has one. -/
def textOf? : Json → Option String
  | .string text => text
  | _ => none

/-- The setting of a name among fields, which may be there once.  Without it, the
default is taken. -/
def setting (fields : List (String × Json)) (name default : String) : Option String :=
  match fields.filter (·.1 == name) with
  | [] => some default
  | [(_, v)] => textOf? v
  | _ => none

/-- The settings in fields. -/
def ofFields? (fields : List (Option String × Json)) : Option Config := do
  let fields ← fields.mapM fun (key, v) => key.map (·, v)
  return {
    scriptsDir := ← setting fields "scriptsDir" default.scriptsDir
    filesDir := ← setting fields "filesDir" default.filesDir
    mediaDir := ← setting fields "mediaDir" default.mediaDir }

/-- The settings in order. -/
def ofItems? (items : List Json) : Option Config := do
  match ← items.mapM textOf? with
  | [] => some default
  | [a] => some { default with scriptsDir := a }
  | [a, b] => some { default with scriptsDir := a, filesDir := b }
  | [a, b, c] => some ⟨a, b, c⟩
  | _ => none

/-- The settings that a text denotes. -/
def ofText? (s : String) : Option Config :=
  match Json.ofText? s with
  | some (.object fields) => ofFields? fields
  | some (.array items) => ofItems? items
  | _ => none

end Config

end PatchScript.Command
