import PatchScript.Script.Parser
import PatchScript.XPath.Eval

/-!
# Faults and diagnostics

A run can meet two kinds of trouble.  A *fault* ends it.  A *diagnostic* is told
at the end, and the directive that met it does nothing.
-/

namespace PatchScript.Run

/-! ## Faults -/

/-- Why a run ends. -/
inductive Fault where
  /-- A source is no script. -/
  | source (e : Script.SourceError)
  /-- A document cannot be read or changed. -/
  | xml (e : Xml.Error)
  /-- A selector has no value. -/
  | xpath (e : XPath.Error)
  /-- A name is bound twice in one scope. -/
  | duplicateBinding (name : String)
  /-- A placeholder stands for no constant. -/
  | unresolved (name : String)
  /-- A position is no number, or none that an element can have. -/
  | invalidPosition (text : String)
  /-- A preset is used while it runs. -/
  | presetRecursion (name : String) (chain : List String)
  /-- A preset is called like a function. -/
  | presetUseRequired (name : String)
  /-- A preset is used with too few arguments. -/
  | presetMissingArgs (name : String) (expected found : Nat)
  /-- An argument of a preset has no value. -/
  | presetArgNull (name : String) (index : Nat)
  /-- There is no script of this name. -/
  | includeNotFound (name : String)
  /-- A script includes itself, directly or through others. -/
  | includeCycle (chain : List String)
  /-- The surroundings fail. -/
  | host (code message : String)
  /-- The levels are used up, which a run never lets happen. -/
  | levels
deriving DecidableEq

/-- Names with arrows between them. -/
def arrows (names : List String) : String := " -> ".intercalate names

/-- What is told about a fault. -/
def Fault.report : Fault → Report
  | .source e => e.report
  | .xml e => e.report
  | .xpath e => e.report
  | .duplicateBinding name =>
    ⟨"EVAL_DUPLICATE_BINDING", "Name '" ++ name ++ "' is already defined in this scope.", none⟩
  | .unresolved name => ⟨"EVAL_TEMPLATE_UNRESOLVED", "Const '" ++ name ++ "' value is null", none⟩
  | .invalidPosition text => ⟨"EVAL_INVALID_POSITION", "Invalid index '" ++ text ++ "'", none⟩
  | .presetRecursion name chain =>
    ⟨"EVAL_PRESET_RECURSION", "Preset '" ++ name ++ "' calls itself: " ++ arrows chain, none⟩
  | .presetUseRequired name =>
    ⟨"EVAL_PRESET_USE_REQUIRED", "Use preset '" ++ name ++ "' without 'use' is unavailable", none⟩
  | .presetMissingArgs name expected found =>
    ⟨"EVAL_PRESET_MISSING_ARGS", "Missing arguments on calling '" ++ name ++ "'. Expected "
      ++ toString expected ++ " found " ++ toString found, none⟩
  | .presetArgNull name index =>
    ⟨"EVAL_PRESET_ARG_NULL", "Calling preset '" ++ name ++ "' argument " ++ toString index
      ++ " is null", none⟩
  | .includeNotFound name => ⟨"INCLUDE_NOT_FOUND", "File '" ++ name ++ ".mml' not found", none⟩
  | .includeCycle chain => ⟨"INCLUDE_CYCLE", "Include cycle detected: " ++ arrows chain, none⟩
  | .host code message => ⟨code, message, none⟩
  | .levels => ⟨"EVAL_LEVELS", "Nested too deeply", none⟩

/-! ## Diagnostics -/

/-- A diagnostic: a code that programs read and a message that people read. -/
structure Diagnostic where
  /-- The code. -/
  code : String
  /-- The message. -/
  message : String
deriving DecidableEq

/-- The diagnostic as one text. -/
def Diagnostic.render (d : Diagnostic) : String := d.code ++ ":" ++ d.message

/-- Why a directive does nothing. -/
inductive Skipped where
  /-- There is no current element for the directive. -/
  | cursorMissing (directive : String)
  /-- A selector for one element selects none. -/
  | elementNotFound (selector : String)
  /-- A selector for any number of elements selects none. -/
  | elementsNotFound (selector : String)
  /-- There is no document at this path. -/
  | fileNotFound (path : String)
  /-- A document is open already. -/
  | fileNested
  /-- An element would be appended with its predecessor missing. -/
  | predecessorMissing (tag : String)
  /-- There is no preset, and nothing else, of this name. -/
  | presetNotFound (name : String)
deriving DecidableEq

/-- What is told about a directive that does nothing. -/
def Skipped.diagnostic : Skipped → Diagnostic
  | .cursorMissing directive =>
    ⟨"CURSOR_MISSING", "'" ++ directive ++ "' is only allowed inside 'file'/'change'/'add'"⟩
  | .elementNotFound selector =>
    ⟨"ELEMENT_NOT_FOUND", "Element with selector '" ++ selector ++ "' not found"⟩
  | .elementsNotFound selector =>
    ⟨"ELEMENT_NOT_FOUND", "Elements with selector '" ++ selector ++ "' not found"⟩
  | .fileNotFound path => ⟨"FILE_NOT_FOUND", "File '" ++ path ++ "' not found"⟩
  | .fileNested => ⟨"FILE_NESTED", "'file' cannot be nested inside another 'file'"⟩
  | .predecessorMissing tag =>
    ⟨"PREDECESSOR_MISSING", "Previous element '" ++ tag ++ "' not found"⟩
  | .presetNotFound name => ⟨"PRESET_NOT_FOUND", "Preset '" ++ name ++ "' is not defined"⟩

end PatchScript.Run
