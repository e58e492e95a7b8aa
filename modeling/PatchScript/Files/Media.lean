import PatchScript.Files.Disk
import PatchScript.Run.Host

/-!
# Documents on a disk

The documents that scripts patch are files below one directory.  A file holds any
number of elements side by side; it is read as the content of a root element made
for it, and written without it.

The files use the prefix `region` without declaring it.  While a file is open the
prefix is part of the name: `region:x` is read as `region_x`, and written as
`region:x` again.
-/

namespace PatchScript.Files

open Run (Fault)
open Xml (Document)

/-- A disk with documents on it. -/
structure MediaStore where
  /-- The disk. -/
  disk : Disk
  /-- The directory of the documents. -/
  root : DiskPath

namespace MediaStore

/-- The extension of the files. -/
def extension : String := ".xml"

/-- The prefix as it stands in the files. -/
def regionMark : String := "region:"

/-- The prefix as part of a name. -/
def regionName : String := "region_"

/-- The path of a document.  Two dots one behind the other become one, so that they
lead nowhere else. -/
def path (s : MediaStore) (document : String) : DiskPath :=
  s.root.join (Text.replaceAll (document ++ extension) ".." ".")

/-- The mark that a file may start with to tell how it is encoded. -/
def byteOrderMark : Char := '\ufeff'

/-- The content of a file without the marks and blanks at its start, and without the
declaration behind them. -/
def stripDeclaration (content : List Char) : List Char :=
  let content := Text.trimStartList (content.dropWhile (· == byteOrderMark))
  if "<?xml".toList.isPrefixOf content then
    (Text.afterFirst? "?>".toList content).getD content
  else content

/-- The text of a document that holds the content of a file. -/
def wrap (content : String) : String :=
  let body := String.ofList (stripDeclaration content.toList)
  "<root>" ++ Text.replaceAll body regionMark regionName ++ "</root>"

/-- The content of a file that holds what is in the root of a document. -/
def unwrap (d : Document) : String :=
  let body := "\n".intercalate ((d.children d.root).map d.writeNode)
  Text.replaceAll body regionName regionMark

/-- Reads the document at a path. -/
def load (s : MediaStore) (document : String) : Except Fault (Option Document) :=
  match s.disk.find? (s.path document) with
  | some (.text content) => ((Document.read (wrap content)).mapError .xml).map some
  | some (.binary _) => .error (.host "STORE_READ" "The file holds no text")
  | some .directory | none => .ok none

/-- Writes a document at a path. -/
def persist (s : MediaStore) (document : String) (d : Document) : Except Fault MediaStore :=
  let file := s.path document
  let (disk, place) := s.disk.makeDirectories file.parent
  match place.bind fun _ => disk.write file (unwrap d) with
  | some disk => .ok { s with disk }
  | none => .error (.host "STORE_WRITE" "The file cannot be written")

instance : Run.DocumentStore MediaStore where
  load := load
  persist := persist

end MediaStore

end PatchScript.Files
