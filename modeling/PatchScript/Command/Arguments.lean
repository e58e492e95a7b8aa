import PatchScript.Command.Config

/-!
# Arguments

What is asked for on the command line: an action with its operands, and options.  Most
options can stand before the name of the action or behind it.  Those before it and
those behind it are two *levels*: each level holds an option once, and what stands
behind the name wins.

The words are read one by one by `Reader.read`, which is a step of a machine, and
`Reader.finish` tells what was asked for.  A word that starts with a dash is an
option, unless it is the dash alone; behind the word `--` there are only operands.
An option takes the next word as its value, unless it has one behind `=`.

A value that is a word of its own is entered into its level only when an option or an
operand comes after it.  So a question for help that is read before that is answered,
even if the option would be refused.
-/

namespace PatchScript.Command

/-! ## What can be asked for -/

/-- The options that take a value. -/
inductive Slot where
  | config | scriptsDir | filesDir | mediaDir | description
deriving DecidableEq

/-- The name of an option that takes a value. -/
def Slot.name : Slot → String
  | .config => "config"
  | .scriptsDir => "scripts-dir"
  | .filesDir => "files-dir"
  | .mediaDir => "media-dir"
  | .description => "description"

/-- The kinds of actions. -/
inductive ActionKind where
  | run | exec | check | tokens | list | new
deriving DecidableEq

namespace ActionKind

/-- All kinds of actions. -/
def all : List ActionKind := [.run, .exec, .check, .tokens, .list, .new]

/-- The name of a kind of actions. -/
def name : ActionKind → String
  | .run => "run"
  | .exec => "exec"
  | .check => "check"
  | .tokens => "tokens"
  | .list => "list"
  | .new => "new"

/-- The kind of actions of a name. -/
def ofName? (s : String) : Option ActionKind := all.find? (·.name == s)

/-- How many operands the actions have. -/
def operands : ActionKind → Nat
  | .list => 0
  | _ => 1

end ActionKind

/-- The options that a level of the command line knows: those of all actions, and one more
behind the name of an action that makes a script. -/
def slotsOf : Option ActionKind → List Slot
  | some .new => [.config, .scriptsDir, .filesDir, .mediaDir, .description]
  | _ => [.config, .scriptsDir, .filesDir, .mediaDir]

/-- What is to be done. -/
inductive Action where
  /-- Runs a script of the collection. -/
  | run (name : String)
  /-- Runs the script in a file. -/
  | exec (file : String)
  /-- Reads the script in a file. -/
  | check (file : String)
  /-- Shows the tokens of a file. -/
  | tokens (file : String)
  /-- Lists the scripts of the collection. -/
  | list
  /-- Makes a script in the collection. -/
  | new (name : String) (description : Option String)
deriving DecidableEq

/-- What is asked for. -/
structure Invocation where
  /-- The action. -/
  action : Action
  /-- The file with the settings. -/
  config : Option String
  /-- The directory of the scripts. -/
  scriptsDir : Option String
  /-- The directory of the files. -/
  filesDir : Option String
  /-- The directory of the documents. -/
  mediaDir : Option String
  /-- Whether more is told about what is done. -/
  verbose : Bool
deriving DecidableEq

/-- Why nothing is done. -/
inductive Stop where
  /-- Help was asked for. -/
  | help
  /-- The arguments make no sense. -/
  | refused
deriving DecidableEq

/-! ## Reading -/

/-- What was read on one level. -/
structure Level where
  /-- The options with their values, the latest first. -/
  values : List (Slot × String)
  /-- Whether more is to be told. -/
  verbose : Bool
  /-- The option that is not entered yet, and its value. -/
  pending : Option (Slot × Option String)

namespace Level

/-- A level on which nothing was read. -/
def empty : Level := ⟨[], false, none⟩

/-- The value of an option. -/
def value? (l : Level) (slot : Slot) : Option String :=
  (l.values.find? (·.1 == slot)).map (·.2)

/-- The level with every option entered.  An option needs a value and may not be there
already. -/
def settle (l : Level) : Except Stop Level :=
  match l.pending with
  | none => .ok l
  | some (_, none) => .error .refused
  | some (slot, some v) =>
    if (l.value? slot).isSome then .error .refused
    else .ok { l with values := (slot, v) :: l.values, pending := none }

/-- The level with the option that tells more. -/
def setVerbose (l : Level) : Except Stop Level := do
  let l ← l.settle
  if l.verbose then throw .refused
  return { l with verbose := true }

/-- Asks for help, unless an option before it is refused. -/
def askHelp (l : Level) : Except Stop Level := do
  let _ ← l.settle
  throw .help

/-- Reads the letters of options that are written behind one dash. -/
def letters (l : Level) : List Char → Except Stop Level
  | [] => .ok l
  | 'v' :: cs => do letters (← l.setVerbose) cs
  | 'h' :: _ => l.askHelp
  | _ => .error .refused

/-- Reads an option that is written behind two dashes, with what follows the first `=`
if there is one. -/
def long (slots : List Slot) (l : Level) (name : String) (attached : Option String) :
    Except Stop Level :=
  match slots.find? (·.name == name) with
  | some slot => do
    let l ← l.settle
    let l := { l with pending := some (slot, attached) }
    if attached.isSome then l.settle else return l
  | none =>
    if attached.isSome then .error .refused
    else if name = "verbose" then l.setVerbose
    else if name = "help" then l.askHelp
    else .error .refused

end Level

/-- What was read so far. -/
structure Reader where
  /-- The kind of the action, once its name was read. -/
  kind : Option ActionKind
  /-- What was read before the name of the action. -/
  outer : Level
  /-- What was read behind it. -/
  inner : Level
  /-- The operands. -/
  operands : List String
  /-- Whether only operands can follow. -/
  literal : Bool
  /-- The names that help was asked for, if it was. -/
  topics : Option (List String)

namespace Reader

/-- A reader that has read nothing. -/
def initial : Reader := ⟨none, .empty, .empty, [], false, none⟩

/-- The level of the word that comes next. -/
def level (r : Reader) : Level := if r.kind.isSome then r.inner else r.outer

/-- The reader with another level for the word that comes next. -/
def setLevel (r : Reader) (l : Level) : Reader :=
  if r.kind.isSome then { r with inner := l } else { r with outer := l }

/-- The word that asks for help about actions. -/
def helpWord : String := "help"

/-- Reads the name of something that help is asked for. -/
def readTopic (r : Reader) (topics : List String) (word : String) : Except Stop Reader :=
  if topics = [] ∧ (word = helpWord ∨ (ActionKind.ofName? word).isSome) then
    .ok { r with topics := some [word] }
  else .error .refused

/-- Reads an operand. -/
def readOperand (r : Reader) (word : String) : Except Stop Reader := do
  match r.kind with
  | none => throw .refused
  | some kind =>
    let r := r.setLevel (← r.level.settle)
    if kind.operands ≤ r.operands.length then throw .refused
    return { r with operands := r.operands ++ [word] }

/-- Reads a word that is no option: a value, the name of the action or an operand. -/
def readPlain (r : Reader) (word : String) : Except Stop Reader :=
  match r.level.pending with
  | some (slot, none) => .ok (r.setLevel { r.level with pending := some (slot, some word) })
  | _ =>
    if r.kind.isSome then r.readOperand word
    else if word = helpWord then .ok { r with topics := some [] }
    else
      match ActionKind.ofName? word with
      | some kind => .ok { r with kind := some kind }
      | none => .error .refused

/-- Reads a word. -/
def read (r : Reader) (word : String) : Except Stop Reader :=
  match r.topics with
  | some topics => r.readTopic topics word
  | none =>
    if r.literal then r.readOperand word
    else
      match word.toList with
      | ['-', '-'] => .ok { r with literal := true }
      | '-' :: '-' :: cs =>
        let name := String.ofList (cs.takeWhile (· != '='))
        let attached := match cs.dropWhile (· != '=') with
          | [] => none
          | _ :: v => some (String.ofList v)
        (r.level.long (slotsOf r.kind) name attached).map r.setLevel
      | '-' :: c :: cs => (r.level.letters (c :: cs)).map r.setLevel
      | _ => r.readPlain word

/-- The action of a kind with operands and, if it makes a script, a description. -/
def action? (kind : ActionKind) (operands : List String) (description : Option String) :
    Option Action :=
  match kind, operands with
  | .run, [name] => some (.run name)
  | .exec, [file] => some (.exec file)
  | .check, [file] => some (.check file)
  | .tokens, [file] => some (.tokens file)
  | .list, [] => some .list
  | .new, [name] => some (.new name description)
  | _, _ => none

/-- What was asked for, once all words were read. -/
def finish (r : Reader) : Except Stop Invocation := do
  if r.topics.isSome then throw .help
  let inner ← r.inner.settle
  let outer ← r.outer.settle
  let value (slot : Slot) : Option String := (inner.value? slot).or (outer.value? slot)
  match r.kind.bind (action? · r.operands (value .description)) with
  | none => throw .refused
  | some action => return {
      action
      config := value .config
      scriptsDir := value .scriptsDir
      filesDir := value .filesDir
      mediaDir := value .mediaDir
      verbose := inner.verbose || outer.verbose }

end Reader

/-- What the words of a command line ask for. -/
def Invocation.ofWords (words : List String) : Except Stop Invocation := do
  (← words.foldlM Reader.read .initial).finish

end PatchScript.Command
