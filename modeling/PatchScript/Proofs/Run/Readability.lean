import PatchScript.Proofs.Run.Updates
import PatchScript.Proofs.Run.Wrapping
import PatchScript.Proofs.Xml.Demands

/-!
# Which documents can be read after a run

A run writes documents, and some of them cannot be read again: directives do not look at the
declarations of qualifiers, take names that are none of XML, and can remove the root element.
This is all that can go wrong.  To say so, a run is done on a `Ledger`, a store in memory that
keeps the documents that have been written to it and not only their texts.  It does what the
store in memory does, since nobody asks for the documents.
-/

namespace PatchScript.Run

open Xml (Document)

variable {host : Host}

/-! ## Changes -/

/-- A change keeps a document regular. -/
theorem Change.apply_regular {e : Change} {d d' : Document} (h : d.Regular)
    (he : e.apply d = .ok d') : d'.Regular := by
  cases e with
  | set id name value => exact h.setAttribute he
  | unset id name =>
    cases he
    exact h.removeAttribute id name
  | append parent tag =>
    obtain ⟨⟨d₁, id⟩, happend, he⟩ := bind_eq_ok he
    cases he
    exact h.appendElement happend
  | detach ids =>
    cases he
    induction ids generalizing d with
    | nil => exact h
    | cons id ids ih => exact ih (h.detach id)

theorem regular_of_changes : ∀ {es : List Change} {d d' : Document}, d.Regular →
    es.foldlM (fun d e => e.apply d) d = .ok d' → d'.Regular := by
  intro es
  induction es with
  | nil =>
    intro d d' hd h
    cases h
    exact hd
  | cons e es ih =>
    intro d d' hd h
    rw [List.foldlM_cons] at h
    obtain ⟨d₁, he, h⟩ := bind_eq_ok h
    exact ih (Change.apply_regular hd he) h

/-! ## Ledgers -/

/-- A store in memory, and the documents that have been written to it, the last one first. -/
structure Ledger where
  /-- The store. -/
  store : MemoryStore
  /-- The documents, with their paths. -/
  written : List (String × Document)

namespace Ledger

/-- A store to which nothing has been written. -/
def new (store : MemoryStore) : Ledger := ⟨store, []⟩

/-- The document that was written last at a path. -/
def last? (l : Ledger) (path : String) : Option Document :=
  (l.written.find? (·.1 == path)).map (·.2)

instance : DocumentStore Ledger where
  load l := l.store.load
  persist l path d := .ok ⟨l.store.put path d.write, (path, d) :: l.written⟩

/-- A ledger does what the store in memory does. -/
def wrapping : Wrapping Ledger MemoryStore where
  inner := Ledger.store
  loads _ _ := rfl
  persists _ _ _ := rfl
  notes _ _ := rfl

theorem unnoticing : Unnoticing Ledger := fun _ _ => rfl

/-- What is known of the texts of a store, if documents are written to it that are kept. -/
structure Agrees (store : MemoryStore) (l : Ledger) : Prop where
  /-- The text at a path is that of the document that was written last there.  If there is
  none, it is the text of the start. -/
  text? (path : String) :
    l.store.text? path = ((l.last? path).map Document.write).or (store.text? path)
  /-- The documents are regular. -/
  regular {path : String} {d : Document} : l.last? path = some d → d.Regular

theorem Agrees.new (store : MemoryStore) : Agrees store (.new store) := ⟨fun _ => rfl, nofun⟩

theorem Agrees.write {store : MemoryStore} {l : Ledger} (h : Agrees store l) {b : Block Ledger}
    (hb : b.left.Regular) : Agrees store (b.write l) := by
  have hstore : (b.write l).store = l.store.put b.path b.left.write := rfl
  have hhere : (b.write l).last? b.path = some b.left := by
    rw [last?, show (b.write l).written = (b.path, b.left) :: l.written from rfl, List.find?_cons,
      beq_self_eq_true]
    rfl
  have hthere {path : String} (hne : b.path ≠ path) : (b.write l).last? path = l.last? path := by
    rw [last?, show (b.write l).written = (b.path, b.left) :: l.written from rfl, List.find?_cons,
      beq_false_of_ne hne]
    rfl
  refine ⟨fun path => ?_, fun {path d} hd => ?_⟩
  · rw [hstore]
    by_cases hpath : b.path = path
    · rw [← hpath, MemoryStore.text?_put, hhere]
      rfl
    · rw [MemoryStore.text?_put_of_ne hpath, hthere hpath]
      exact h.text? path
  · by_cases hpath : b.path = path
    · rw [← hpath, hhere] at hd
      cases hd
      exact hb
    · rw [hthere hpath] at hd
      exact h.regular hd

theorem Agrees.writeAll {store : MemoryStore} : ∀ {bs : List (Block Ledger)} {l : Ledger},
    Agrees store l → (∀ b ∈ bs, b.left.Regular) →
    Agrees store (bs.foldl (fun store b => b.write store) l) := by
  intro bs
  induction bs with
  | nil => exact fun h _ => h
  | cons b bs ih =>
    intro l h hbs
    obtain ⟨hb, hrest⟩ := List.forall_mem_cons.mp hbs
    exact ih (h.write hb) hrest

end Ledger

/-- What a block on a ledger leaves is regular, whatever is done inside of it. -/
theorem Block.left_regular {b : Block Ledger} {es : List Change} (h : b.Runs host)
    (hchanges : es.foldlM (fun d e => e.apply d) b.loaded = .ok b.left) : b.left.Regular := by
  have hfound : DocumentStore.load b.opened.store.store b.path = .ok (some b.loaded) := h.found
  obtain ⟨text, -, hread⟩ := MemoryStore.text?_of_load hfound
  exact regular_of_changes (Document.regular_of_read hread) hchanges

namespace Start

/-- A run on a ledger does what the run on the store in memory does. -/
theorem run_ledger (start : Start) (host : Host) (store : MemoryStore) :
    Ledger.wrapping.outcome (start.run host (.new store)) = start.run host store := by
  cases start with
  | text source => exact Ledger.wrapping.outcome_runSource host (.new store) source
  | script name => exact Ledger.wrapping.outcome_runScript host (.new store) name

/-- The texts after a run are those of the documents that were written, which are regular. -/
theorem run_agrees (start : Start) (host : Host) (store : MemoryStore) :
    Ledger.Agrees store (start.run host (Ledger.new store)).store := by
  obtain ⟨ds, hds⟩ := start.performs host (Ledger.new store)
  have haccounted := hds.accounted
  rw [haccounted.store Ledger.unnoticing]
  refine (Ledger.Agrees.new store).writeAll fun b hb => ?_
  obtain ⟨x, hx, rfl⟩ := List.mem_map.mp (List.mem_filter.mp hb).1
  obtain ⟨hruns, -, hchanges⟩ := haccounted.blocks x hx
  exact x.1.left_regular hruns hchanges

end Start

/-! ## Documents that can be read -/

open Xml.Document (CanRead)

theorem MemoryStore.mem_of_text? {store : MemoryStore} {path text : String}
    (h : store.text? path = some text) : (path, text) ∈ store.documents := by
  obtain ⟨⟨path', text'⟩, hfind, rfl⟩ := Option.map_eq_some_iff.mp h
  have hpath : path' = path := by simpa using List.find?_some hfind
  rw [← hpath]
  exact List.mem_of_find?_eq_some hfind

/-- If all documents of a store can be read, then after a run, however it ends, a document can be
read if and only if no block has written it, or the last one that has left it well-named. -/
theorem readable_iff_left_well_named (host : Host) (start : Start) (store : MemoryStore)
    (hstore : ∀ path text, store.text? path = some text → CanRead text) (path text : String)
    (htext : (start.run host store).store.text? path = some text) :
    CanRead text ↔
      ∀ d, (start.run host (Ledger.new store)).store.last? path = some d → d.wellNamed := by
  have hagrees := start.run_agrees host store
  have hrun : (start.run host store).store = (start.run host (Ledger.new store)).store.store :=
    congrArg Outcome.store (start.run_ledger host store).symm
  rw [hrun, hagrees.text? path] at htext
  cases hlast : (start.run host (Ledger.new store)).store.last? path with
  | none =>
    rw [hlast] at htext
    exact ⟨fun _ => nofun, fun _ => hstore path text htext⟩
  | some d =>
    rw [hlast] at htext
    cases htext
    rw [Xml.Document.canRead_write_iff (hagrees.regular hlast)]
    refine ⟨fun h d' hd' => ?_, fun h => h d rfl⟩
    cases hd'
    exact h

/-- An attribute with a qualifier is set where the qualifier is declared. -/
theorem readable_when_declared :
    let start : Start := .text "file 'd' \x7b set 'x:a' = '<1>' \x7d"
    let store : MemoryStore := ⟨[("d", "<root xmlns:x=\"u\"/>")]⟩
    (start.run ⟨[], 7⟩ store).store.text? "d" = some "<root xmlns:x=\"u\" x:a=\"&lt;1&gt;\" />" ∧
      CanRead "<root xmlns:x=\"u\" x:a=\"&lt;1&gt;\" />" := by
  intro start store
  have htext : (start.run ⟨[], 7⟩ store).store.text? "d" =
      some "<root xmlns:x=\"u\" x:a=\"&lt;1&gt;\" />" := by
    decide +kernel
  let left : Document := ⟨#[⟨.document, none, [1]⟩,
    ⟨.element ⟨"root", [("xmlns:x", "u"), ("x:a", "<1>")]⟩, some 0, []⟩], 1⟩
  have hlast : (start.run ⟨[], 7⟩ (Ledger.new store)).store.last? "d" = some left := by
    decide +kernel
  refine ⟨htext, (readable_iff_left_well_named ⟨[], 7⟩ start store ?_ "d" _ htext).mpr ?_⟩
  · intro path text h
    cases List.mem_singleton.mp (MemoryStore.mem_of_text? h)
    decide +kernel
  · intro d hd
    rw [hlast] at hd
    cases hd
    decide +kernel

/-- An attribute with a qualifier is set where the qualifier is not declared: the run ends
without a fault, and the document cannot be read any more. -/
theorem readable_documents_are_lost :
    let start : Start := .text "file 'd' \x7b set 'x:a' = 1 \x7d"
    let store : MemoryStore := ⟨[("d", "<root/>")]⟩
    (∀ path text, store.text? path = some text → CanRead text) ∧
      (start.run ⟨[], 7⟩ store).result.isOk ∧
      (start.run ⟨[], 7⟩ store).store.text? "d" = some "<root x:a=\"1\" />" ∧
      ¬CanRead "<root x:a=\"1\" />" := by
  refine ⟨fun path text h => ?_, by decide +kernel, by decide +kernel, by decide +kernel⟩
  cases List.mem_singleton.mp (MemoryStore.mem_of_text? h)
  decide +kernel

end PatchScript.Run
