import PatchScript.Proofs.Run.Wrapping

/-!
# Watching a run

A store is told every context that a run comes to.  A `Watched` store keeps them, so
that what holds of every state of a run can be said of the store it leaves.

Watching does not change a run: a run on the watched store gives the same, faults
included, as the run on the store inside, and leaves that store as the run does
(`Outcome.erase_runSource`, `Outcome.erase_runScript`).
-/

namespace PatchScript.Run

/-- A store and every context that a run on it has come to, the oldest first. -/
structure Watched (σ : Type) where
  /-- The store. -/
  store : σ
  /-- The contexts. -/
  seen : List Context

variable {σ : Type}

/-- A store that has seen nothing. -/
def Watched.new (store : σ) : Watched σ := ⟨store, []⟩

instance [DocumentStore σ] : DocumentStore (Watched σ) where
  load w := DocumentStore.load w.store
  persist w path d := (DocumentStore.persist w.store path d).map fun store => { w with store }
  note w c := ⟨DocumentStore.note w.store c, w.seen ++ [c]⟩

/-- What is written is not seen. -/
theorem Watched.seen_of_persist [DocumentStore σ] {w w' : Watched σ} {path : String}
    {d : Xml.Document} (h : DocumentStore.persist w path d = .ok w') : w'.seen = w.seen := by
  have h : (DocumentStore.persist w.store path d).map (fun store => { w with store }) = .ok w' := h
  cases hinside : DocumentStore.persist w.store path d with
  | ok store =>
    rw [hinside] at h
    cases h
    rfl
  | error e =>
    rw [hinside] at h
    cases h

/-- The outcome on the store inside. -/
def Outcome.erase (o : Outcome (Watched σ)) : Outcome σ := ⟨o.result, o.store.store, o.calls⟩

variable [DocumentStore σ]

/-- A watched store does what the store inside of it does. -/
def Watched.wrapping (σ : Type) [DocumentStore σ] : Wrapping (Watched σ) σ where
  inner := Watched.store
  loads _ _ := rfl
  persists w path d := by
    show ((DocumentStore.persist w.store path d).map _).map Watched.store = _
    cases DocumentStore.persist w.store path d <;> rfl
  notes _ _ := rfl

/-- Watching does not change what a run does. -/
theorem Outcome.erase_runSource (host : Host) (store : σ) (source : String) :
    (runSource host (Watched.new store) source).erase = runSource host store source :=
  (Watched.wrapping σ).outcome_runSource host (Watched.new store) source

@[inherit_doc Outcome.erase_runSource]
theorem Outcome.erase_runScript (host : Host) (store : σ) (name : String) :
    (runScript host (Watched.new store) name).erase = runScript host store name :=
  (Watched.wrapping σ).outcome_runScript host (Watched.new store) name

end PatchScript.Run
