import PatchScript.Text.Edit

/-!
# Paths

A path is a text that leads to a place on a disk.  It is kept as it was written,
since that is how it is shown: `a//b` and `a/./b` lead to one place and are two
paths.  What a path leads to is decided by a disk, part by part.
-/

namespace PatchScript.Files

/-- A path, as it is written. -/
structure DiskPath where
  /-- What is written. -/
  text : String
deriving DecidableEq

namespace DiskPath

/-- Does the path start at the top of the disk? -/
def isAbsolute (p : DiskPath) : Bool := p.text.toList.head? = some '/'

/-- The greatest number of bytes in a path. -/
def maxSize : Nat := 4095

/-- Is the path one that a disk follows at all? -/
def isAccepted (p : DiskPath) : Bool :=
  p.text.utf8ByteSize ≤ maxSize && p.text.toList.all (· != '\x00')

/-- The parts between the slashes. -/
def parts (p : DiskPath) : List String := (Text.pieces '/' p.text.toList).map String.ofList

/-- The path followed by another one.  If that starts at the top of the disk, it
replaces the path. -/
def join (p : DiskPath) (next : String) : DiskPath :=
  if (DiskPath.mk next).isAbsolute then ⟨next⟩
  else
    match p.text.toList.getLast? with
    | none => ⟨next⟩
    | some '/' => ⟨p.text ++ next⟩
    | some _ => ⟨p.text ++ "/" ++ next⟩

/-- What stands behind the last slash. -/
def name (p : DiskPath) : String := String.ofList (Text.afterLast '/' p.text.toList)

/-- What stands before the last slash: the path that leads to where the name is
looked up. -/
def parent (p : DiskPath) : DiskPath :=
  match p.text.toList.reverse.dropWhile (· != '/') with
  | [] => ⟨"."⟩
  | ['/'] => ⟨"/"⟩
  | _ :: before => ⟨String.ofList before.reverse⟩

/-- The name without its extension, which starts at its last dot.  A dot that a name
begins with starts no extension. -/
def stem (p : DiskPath) : String :=
  match p.name.toList.reverse.dropWhile (· != '.') with
  | [] | ['.'] => p.name
  | _ :: before => String.ofList before.reverse

end DiskPath

end PatchScript.Files
