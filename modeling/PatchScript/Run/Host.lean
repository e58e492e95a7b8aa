import PatchScript.Run.Context
import PatchScript.Xml.Reader

/-!
# The surroundings of a run

A run finds scripts by name and documents by path.  Scripts come from a finite
table, since a run reads them and never writes one.  Documents come from a
store, which is a value: writing a document gives a new store.
-/

namespace PatchScript.Run

open Xml (Document)

/-! ## Scripts -/

/-- A table of sources by name.  An entry may be unreadable, with a fault in place
of its text. -/
abbrev Sources := List (String × Except Fault String)

/-- The source of a script.  A script that is not in the table is a fault. -/
def Sources.resolve (sources : Sources) (name : String) : Except Fault String :=
  match sources.find? (·.1 == name) with
  | some (_, entry) => entry
  | none => .error (.includeNotFound name)

/-- What stays the same during a run: the sources and the seed of the sentinel. -/
structure Host where
  /-- The sources. -/
  sources : Sources
  /-- The seed. -/
  seed : UInt32

/-! ## Documents -/

/-- A store of documents by path. -/
class DocumentStore (σ : Type) where
  /-- The document at a path, if there is one. -/
  load : σ → String → Except Fault (Option Document)
  /-- The store with a document written at a path. -/
  persist : σ → String → Document → Except Fault σ
  /-- The store when a run has come to a context.  A store that only keeps documents
  takes no notice. -/
  note : σ → Context → σ := fun s _ => s

/-- What a store was asked to do. -/
inductive StoreCall where
  | load (path : String)
  | persist (path : String)
deriving DecidableEq

/-- A store that keeps the text of every document. -/
structure MemoryStore where
  /-- The texts by path. -/
  documents : List (String × String)

namespace MemoryStore

/-- The text at a path. -/
def text? (s : MemoryStore) (path : String) : Option String :=
  (s.documents.find? (·.1 == path)).map (·.2)

/-- The store with a text at a path. -/
def put (s : MemoryStore) (path text : String) : MemoryStore :=
  ⟨(path, text) :: s.documents.filter (·.1 != path)⟩

/-- Reads the text at a path as a document. -/
def load (s : MemoryStore) (path : String) : Except Fault (Option Document) :=
  match s.text? path with
  | none => .ok none
  | some text => ((Document.read text).mapError .xml).map some

/-- Writes a document as the text at a path. -/
def persist (s : MemoryStore) (path : String) (d : Document) : Except Fault MemoryStore :=
  .ok (s.put path d.write)

instance : DocumentStore MemoryStore where
  load := load
  persist := persist

end MemoryStore

end PatchScript.Run
