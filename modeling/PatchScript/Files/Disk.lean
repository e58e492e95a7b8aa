import PatchScript.Files.Path

/-!
# Disks

A disk is a tree of directories and files, given as a table: a *place* is the list
of names from the top of the disk down, and the table has an entry for every
place that there is, except the top, which is always a directory.

A path is followed part by part.  Each part has to be looked up in a directory, an
empty part and a dot too: a path that ends with a slash leads to a directory or
nowhere.  Two dots lead one place up.  A disk refuses a path that is too long or
has the zero character in it, whatever it would lead to.
-/

namespace PatchScript.Files

/-- The names from the top of the disk down. -/
abbrev Place := List String

/-- What is at a place. -/
inductive Entry where
  /-- A directory. -/
  | directory
  /-- A file that holds a text. -/
  | text (s : String)
  /-- A file that holds no text, but other bytes. -/
  | binary (bytes : List UInt8)
deriving DecidableEq

/-- A disk, seen from one of its directories. -/
structure Disk where
  /-- What is where. -/
  entries : List (Place × Entry)
  /-- The directory where a path starts that does not start at the top. -/
  here : Place

namespace Disk

/-! ## Places -/

/-- What is at a place. -/
def entry? (d : Disk) : Place → Option Entry
  | [] => some .directory
  | place => (d.entries.find? (·.1 == place)).map (·.2)

/-- The disk with an entry at a place. -/
def put (d : Disk) (place : Place) (e : Entry) : Disk :=
  if (d.entry? place).isSome then
    { d with entries := d.entries.map fun old => if old.1 = place then (place, e) else old }
  else { d with entries := d.entries ++ [(place, e)] }

/-- The names in a directory. -/
def namesIn (d : Disk) (place : Place) : List String :=
  d.entries.filterMap fun (p, _) => if p.dropLast = place then p.getLast? else none

/-! ## Following paths -/

/-- Where one part of a path leads from a place. -/
def step (d : Disk) (place : Place) (part : String) : Option Place :=
  if d.entry? place ≠ some .directory then none
  else if part = "" ∨ part = "." then some place
  else if part = ".." then some place.dropLast
  else if (d.entry? (place ++ [part])).isSome then some (place ++ [part])
  else none

/-- Where a path starts. -/
def start (d : Disk) (p : DiskPath) : Place := if p.isAbsolute then [] else d.here

/-- Where a path leads. -/
def locate (d : Disk) (p : DiskPath) : Option Place :=
  if p.text = "" ∨ ¬ p.isAccepted then none else p.parts.foldlM d.step (d.start p)

/-- What a path leads to. -/
def find? (d : Disk) (p : DiskPath) : Option Entry := (d.locate p).bind d.entry?

/-- Does the path lead to a directory? -/
def isDirectory (d : Disk) (p : DiskPath) : Bool := d.find? p = some .directory

/-- Does the path lead to a file? -/
def isFile (d : Disk) (p : DiskPath) : Bool :=
  match d.find? p with
  | some (.text _) | some (.binary _) => true
  | _ => false

/-! ## Writing -/

/-- The greatest number of bytes in a name. -/
def maxNameSize : Nat := 255

/-- Can a file or directory have this name? -/
def isName (part : String) : Bool :=
  part.utf8ByteSize ≤ maxNameSize && !(["", ".", ".."].contains part)

/-- Follows parts of a path from a place and makes the directories that are missing.
Where the parts do not lead to a directory, the result has no place, but what was made
before is there. -/
def makeFrom (d : Disk) (place : Place) : List String → Disk × Option Place
  | [] => (d, if d.entry? place = some .directory then some place else none)
  | part :: parts =>
    match d.step place part with
    | some next => d.makeFrom next parts
    | none =>
      if d.entry? place = some .directory ∧ isName part then
        (d.put (place ++ [part]) .directory).makeFrom (place ++ [part]) parts
      else (d, none)

/-- The disk with the directories made that a path leads through, the last one
included, and where the path leads.  A path that is refused makes none. -/
def makeDirectories (d : Disk) (p : DiskPath) : Disk × Option Place :=
  if p.isAccepted then d.makeFrom (d.start p) p.parts else (d, none)

/-- The disk with a text written at a path, whose directory has to be there. -/
def write (d : Disk) (p : DiskPath) (s : String) : Option Disk :=
  match d.locate p with
  | some place => if d.entry? place = some .directory then none else some (d.put place (.text s))
  | none =>
    match d.locate p.parent with
    | some place =>
      if p.isAccepted ∧ d.entry? place = some .directory ∧ isName p.name then
        some (d.put (place ++ [p.name]) (.text s))
      else none
    | none => none

end Disk

end PatchScript.Files
