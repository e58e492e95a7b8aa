import PatchScript.Proofs.Run.Accounts

/-!
# What a run writes

A document is written when the body of its block has come to an end, and at no other time:
so each time that a store is asked to write belongs to a block, and the document is what
the block was given, with the changes made that are made inside of it.  A block whose body
fails writes nothing, and neither does any block around it.

Hence the store in the end is the store of the start with the documents written of the
blocks that came to an end, in this order.
-/

namespace PatchScript.Run

open Xml (Document)
open Script (Term)

variable {σ : Type} [DocumentStore σ] {host : Host} {names : List String} {s t : Session σ}
  {ds : List (Deed σ)} {r : Except Fault Unit}

/-! ## The store -/

theorem Unnoticing.comeTo_store (hσ : Unnoticing σ) (s : Session σ) (c : Context) :
    (s.comeTo c).store = s.store := hσ s.store c

/-- The store with the document of a block written, if the store does not refuse it. -/
def Block.write (b : Block σ) (store : σ) : σ :=
  match DocumentStore.persist store b.path b.left with
  | .ok store => store
  | .error _ => store

omit [DocumentStore σ] in
/-- The blocks whose bodies come to an end without a fault, in the order in which they end. -/
def finishedOf (ds : List (Deed σ)) : List (Block σ) :=
  ((blocksOf ds).map (·.1)).filter (·.finished)

omit [DocumentStore σ] in
theorem finishedOf_append (ds ds' : List (Deed σ)) :
    finishedOf (ds ++ ds') = finishedOf ds ++ finishedOf ds' := by
  rw [finishedOf, blocksOf_append, List.map_append, List.filter_append]
  rfl

omit [DocumentStore σ] in
theorem finishedOf_block (b : Block σ) (inside : List (Deed σ)) :
    finishedOf [.block b inside] = finishedOf inside ++ if b.finished then [b] else [] := by
  rw [finishedOf, blocksOf, blocksOf, Deed.blocks, List.append_nil, List.map_append,
    List.filter_append, List.map_singleton, List.filter_cons, List.filter_nil]
  rfl

/-- When a block has ended, its document is written if its body has not failed. -/
theorem Block.Ends.store (hσ : Unnoticing σ) {b : Block σ} {r : Except Fault Unit} {t : Session σ}
    (h : b.Ends r t) :
    t.store = (if b.finished then [b] else []).foldl (fun store b => b.write store)
      b.closed.store := by
  have hended : b.ended.store = b.closed.store := hσ.comeTo_store _ _
  cases h with
  | failed he =>
    rw [finished, he]
    exact hended
  | written hok hpersist =>
    rw [hended] at hpersist
    rw [finished, hok]
    show _ = b.write b.closed.store
    rw [write, hpersist]
  | refused hok hpersist =>
    rw [finished, hok]
    show b.ended.store = b.write b.closed.store
    rw [hended] at hpersist ⊢
    rw [write, hpersist]

/-- The store afterwards is the store before with the documents written of the blocks that
came to an end. -/
theorem Does.store (hσ : Unnoticing σ) (h : Does host names s ds r t) :
    t.store = (finishedOf ds).foldl (fun store b => b.write store) s.store := by
  induction h with
  | nothing | fails | absent | unread => rfl
  | turns | changed => exact hσ.comeTo_store _ _
  | seq _ _ ih ih' => rw [ih', ih, finishedOf_append, List.foldl_append]
  | within _ _ _ ih => rw [hσ.comeTo_store, ih, hσ.comeTo_store]
  | included _ _ _ _ ih =>
    rw [hσ.comeTo_store, ih, hσ.comeTo_store]
    rw [finishedOf, finishedOf, blocksOf, blocksOf, Deed.blocks, List.append_nil]
  | @block _ b _ _ _ _ _ hends ih =>
    have hentered : b.entered.store = b.opened.store := hσ.comeTo_store _ _
    rw [hends.store hσ, ih, finishedOf_block, List.foldl_append, hentered]

/-- What a block leaves is what it was given, with the changes made to it. -/
theorem Block.Runs.changes {b : Block σ} (h : b.Runs host)
    (hinside : Does host names b.entered ds b.result b.closed) :
    (∀ x ∈ ds, ¬x.IsFile) ∧ (changesOf ds).foldlM (fun d e => e.apply d) b.loaded = .ok b.left := by
  obtain ⟨hfiles, left, hleft, hfold⟩ := hinside.open (d := b.loaded) rfl
  rw [h.left] at hleft
  cases hleft
  exact ⟨hfiles, hfold⟩

/-! ## Whole runs -/

/-- What is known of what is written in a run. -/
structure Accounted (host : Host) (start : Start) (store : σ) (ds : List (Deed σ))
    (o : Outcome σ) : Prop where
  /-- The run does this. -/
  performs : start.Performs host store ds o
  /-- Each block is run on the document that the store gives for its path, and what it
  leaves is this document with the changes made that are made inside of it. -/
  blocks : ∀ x ∈ blocksOf ds, x.1.Runs host ∧ x.1.opened.calls ++ [.load x.1.path] <+: o.calls ∧
    (changesOf x.2).foldlM (fun d e => e.apply d) x.1.loaded = .ok x.1.left
  /-- Where the store is asked to write, a block of this path has just come to the end of its
  body. -/
  written : ∀ before path, before ++ [.persist path] <+: o.calls → ∃ x ∈ blocksOf ds,
    x.1.path = path ∧ x.1.result = .ok () ∧ x.1.closed.calls = before
  /-- Nothing is asked of the store when the body of a block has failed, and the run fails
  with the same fault. -/
  failed : ∀ x ∈ blocksOf ds, ∀ e, x.1.result = .error e →
    o.result = .error e ∧ o.calls = x.1.closed.calls
  /-- The store in the end has the documents that the blocks have left which came to the end
  of their bodies. -/
  store : Unnoticing σ → o.store = (finishedOf ds).foldl (fun store b => b.write store) store
  /-- If nothing is included, files are visited one after the other. -/
  visits : ∀ source body, start.source host = .ok source → Script.read source = .ok body →
    Script.includesOf body = [] → ∃ visits : List Visit, o.calls = visits.flatMap Visit.calls

omit [DocumentStore σ] in
theorem eq_error_of_ended {α : Type} {r : Except Fault α} {e : Fault} (h : ended r = .error e) :
    r = .error e := by
  cases r with
  | ok => cases h
  | error e' => cases h; rfl

/-- What is done in a run tells all about what is written. -/
theorem Start.Performs.accounted {start : Start} {store : σ} {o : Outcome σ}
    (h : start.Performs host store ds o) : Accounted host start store ds o := by
  obtain ⟨names, s, t, hdoes, hnone, hcalls, hall, hstore⟩ := h.session
  have hlog : o.calls = callsOf ds := by
    rw [hall, hdoes.calls, hcalls, List.nil_append]
  refine ⟨h, fun x hx => ?_, ?_, ?_, ?_, ?_⟩
  · obtain ⟨hruns, _, hinner⟩ := hdoes.inside x hx
    refine ⟨hruns, ?_, (hruns.changes hinner).2⟩
    obtain ⟨-, hinside, hclosed⟩ := hdoes.placed x hx
    rw [hall]
    refine List.IsPrefix.trans ?_ hclosed
    rw [hinside, List.append_assoc, List.prefix_append_right_inj]
    exact ⟨_, rfl⟩
  · intro before path hat
    rw [hlog] at hat
    obtain ⟨x, hx, hpath, hresult, hclosed⟩ := hdoes.persisted before path hat
    rw [hcalls, List.nil_append] at hclosed
    exact ⟨x, hx, hpath, hresult, hclosed⟩
  · intro x hx e he
    obtain ⟨hfault, hclosed⟩ := hdoes.failed x hx e he
    exact ⟨eq_error_of_ended hfault, hall.trans hclosed⟩
  · intro hσ
    obtain ⟨hs, ho⟩ := hstore hσ
    rw [ho, hdoes.store hσ, hs]
  · intro source body hsource hread hincludes
    have hscripts : scriptsOf ds = [] := by
      have hsub := h.scripts hsource hread
      rw [hincludes] at hsub
      exact List.subset_nil.mp hsub
    rw [hlog]
    exact hdoes.visits hnone hscripts

end PatchScript.Run
