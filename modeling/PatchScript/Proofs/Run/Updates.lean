import PatchScript.Proofs.Run.Writing

/-!
# Updates that are lost

While a block is open, no other block of the same script is run.  But its body may include
a script, which has a context of its own with no document open, and shares the store: a
block of that script may open the same path, and what it writes is lost as soon as the
block around it is written.

This is the only way in which an update is lost (`updates_are_lost_to_included_scripts`).
-/

namespace PatchScript.Run

open Xml (Document)

variable {host : Host}

namespace MemoryStore

theorem text?_put (s : MemoryStore) (path text : String) :
    (s.put path text).text? path = some text := by
  rw [text?, put, List.find?_cons, beq_self_eq_true]
  rfl

/-- Writing a document leaves the texts at other paths. -/
theorem text?_put_of_ne {path path' : String} (h : path ≠ path') (s : MemoryStore)
    (text : String) : (s.put path text).text? path' = s.text? path' := by
  have hfilter : ∀ entries : List (String × String),
      (entries.filter (·.1 != path)).find? (·.1 == path') = entries.find? (·.1 == path') := by
    intro entries
    rw [List.find?_filter]
    refine congrArg (List.find? · entries) (funext fun entry => ?_)
    by_cases hentry : entry.1 = path'
    · simp [hentry, Ne.symm h]
    · simp [hentry]
  rw [text?, put, List.find?_cons, beq_false_of_ne h, hfilter]
  rfl

/-- Documents that are written at other paths leave the text at a path. -/
theorem text?_foldl_of_ne {path : String} : ∀ (bs : List (Block MemoryStore)) (s : MemoryStore),
    (∀ b ∈ bs, b.path ≠ path) →
      (bs.foldl (fun store b => b.write store) s).text? path = s.text? path := by
  intro bs
  induction bs with
  | nil => exact fun _ _ => rfl
  | cons b bs ih =>
    intro s h
    obtain ⟨hb, hbs⟩ := List.forall_mem_cons.mp h
    exact (ih (b.write s) hbs).trans (text?_put_of_ne hb s b.left.write)

/-- A document that a store in memory gives is read from the text that it has. -/
theorem text?_of_load {s : MemoryStore} {path : String} {d : Document}
    (h : DocumentStore.load s path = .ok (some d)) :
    ∃ text, s.text? path = some text ∧ Document.read text = .ok d := by
  have h : load s path = .ok (some d) := h
  rw [load] at h
  cases htext : s.text? path with
  | none =>
    rw [htext] at h
    cases h
  | some text =>
    rw [htext] at h
    dsimp only at h
    cases hread : Document.read text with
    | error e =>
      rw [hread] at h
      cases h
    | ok d' =>
      rw [hread] at h
      cases h
      exact ⟨text, rfl, hread⟩

end MemoryStore

/-! ## While a block is open -/

section

variable {σ : Type} {path : String}

theorem finishedOf_cons (d : Deed σ) (ds : List (Deed σ)) :
    finishedOf (d :: ds) = finishedOf [d] ++ finishedOf ds :=
  finishedOf_append [d] ds

theorem finishedOf_script (name : String) (inside : List (Deed σ)) :
    finishedOf [.script name inside] = finishedOf inside := by
  rw [finishedOf, blocksOf, blocksOf, Deed.blocks, List.append_nil]
  rfl

/-- A block asks to write its path if it comes to an end. -/
theorem Block.mem_writes {b : Block σ} :
    .persist path ∈ b.writes ↔ ∃ b' ∈ if b.finished then [b] else [], b'.path = path := by
  rw [writes]
  cases b.finished with
  | true => simp [eq_comm]
  | false => simp

mutual

theorem Deed.mem_calls_persist : ∀ d : Deed σ,
    .persist path ∈ d.calls ↔ ∃ b ∈ finishedOf [d], b.path = path
  | .change _ => by simp [Deed.calls, finishedOf, blocksOf, Deed.blocks]
  | .missed _ => by simp [Deed.calls, finishedOf, blocksOf, Deed.blocks]
  | .script name inside => by
    rw [Deed.calls, finishedOf_script]
    exact mem_callsOf_persist inside
  | .block b inside => by
    rw [Deed.calls, finishedOf_block, List.mem_append, List.mem_cons]
    rw [mem_callsOf_persist inside, Block.mem_writes]
    simp only [reduceCtorEq, false_or, List.mem_append, or_and_right, exists_or]

/-- A path is written by the blocks that come to an end. -/
theorem mem_callsOf_persist : ∀ ds : List (Deed σ),
    .persist path ∈ callsOf ds ↔ ∃ b ∈ finishedOf ds, b.path = path
  | [] => by simp [callsOf, finishedOf, blocksOf]
  | d :: ds => by
    rw [callsOf, List.mem_append, finishedOf_cons d ds]
    rw [d.mem_calls_persist, mem_callsOf_persist ds]
    simp only [List.mem_append, or_and_right, exists_or]

end

/-- Where nothing is done with files, blocks are run by included scripts only. -/
theorem blocksOf_of_not_isFile {ds : List (Deed σ)} (h : ∀ d ∈ ds, ¬d.IsFile) :
    ∀ y ∈ blocksOf ds, ∃ name inside, .script name inside ∈ ds ∧ y ∈ blocksOf inside := by
  induction ds with
  | nil => exact fun y hy => absurd hy List.not_mem_nil
  | cons d ds ih =>
    obtain ⟨hd, hds⟩ := List.forall_mem_cons.mp h
    intro y hy
    rw [blocksOf, List.mem_append] at hy
    rcases hy with hy | hy
    · cases d with
      | change => exact absurd hy List.not_mem_nil
      | script name inside => exact ⟨name, inside, List.mem_cons_self, hy⟩
      | missed | block => exact absurd trivial hd
    · obtain ⟨name, inside, hmem, hinside⟩ := ih hds y hy
      exact ⟨name, inside, List.mem_cons_of_mem _ hmem, hinside⟩

end

/-! ## Updates -/

/-- What is known of a block and of what was done inside of it, on a store in memory. -/
structure Attended (b : Block MemoryStore) (inside : List (Deed MemoryStore)) : Prop where
  /-- The blocks that are run while it is open are those of included scripts. -/
  others : ∀ y ∈ blocksOf inside, ∃ name ds, .script name ds ∈ inside ∧ y ∈ blocksOf ds
  /-- While it is open, its path is written by those of them that come to an end and have the
  same path. -/
  disturbed : .persist b.path ∈ callsOf inside ↔ ∃ b' ∈ finishedOf inside, b'.path = b.path
  /-- If there are none, the text at its path is still the one that was read. -/
  kept : (∀ b' ∈ finishedOf inside, b'.path ≠ b.path) → ∃ text,
    b.opened.store.text? b.path = some text ∧ Document.read text = .ok b.loaded ∧
      b.ended.store.text? b.path = some text

/-- When a block writes its document, the text at its path is the one that the document was
read from, unless a script that was included while the block was open has written to the same
path. -/
theorem updates_are_lost_to_included_scripts (host : Host) (start : Start) (store : MemoryStore) :
    ∃ ds, Accounted host start store ds (start.run host store) ∧
      ∀ x ∈ blocksOf ds, Attended x.1 x.2 := by
  obtain ⟨ds, hds⟩ := start.performs host store
  obtain ⟨names, s, t, hdoes, -⟩ := hds.session
  refine ⟨ds, hds.accounted, fun x hx => ?_⟩
  obtain ⟨hruns, names', hinside⟩ := hdoes.inside x hx
  refine ⟨blocksOf_of_not_isFile (hruns.changes hinside).1, mem_callsOf_persist x.2, fun h => ?_⟩
  obtain ⟨text, htext, hread⟩ := MemoryStore.text?_of_load hruns.found
  refine ⟨text, htext, hread, ?_⟩
  have hended : x.1.ended.store = x.1.closed.store := rfl
  have hentered : x.1.entered.store = x.1.opened.store := rfl
  rw [hended, hinside.store MemoryStore.unnoticing, MemoryStore.text?_foldl_of_ne _ _ h, hentered,
    htext]

/-- An included script sets an attribute of the document that is open where it is included:
the attribute is not there in the end. -/
theorem updates_are_lost :
    let host : Host := ⟨[("inner", .ok "file 'd' \x7b set 'a' = 1 \x7d")], 7⟩
    let start : Start := .text "file 'd' \x7b include inner set 'b' = 2 \x7d"
    let store : MemoryStore := ⟨[("d", "<r/>")]⟩
    (start.run host store).result.isOk ∧
      (start.run host store).calls = [.load "d", .load "d", .persist "d", .persist "d"] ∧
      (start.run host store).store.text? "d" = some "<r b=\"2\" />" ∧
      ∀ ds, start.Performs host store ds (start.run host store) →
        ∃ x ∈ blocksOf ds, x.1.result = .ok () ∧ .persist x.1.path ∈ callsOf x.2 := by
  intro host start store
  have hcalls : (start.run host store).calls =
      [.load "d", .load "d", .persist "d", .persist "d"] := by
    decide +kernel
  refine ⟨by decide +kernel, hcalls, by decide +kernel, fun ds hds => ?_⟩
  obtain ⟨x, hx, hpath, hresult, hclosed⟩ := hds.accounted.written
    [.load "d", .load "d", .persist "d"] "d" (by rw [hcalls]; exact List.prefix_refl _)
  refine ⟨x, hx, hresult, ?_⟩
  obtain ⟨names, s, t, hdoes, -⟩ := hds.session
  have hplaced := (hdoes.placed x hx).2.1
  rw [hclosed] at hplaced
  rw [hpath]
  -- The call before the block writes is to write, so it is not the load of the block.
  generalize x.1.opened.calls = before, callsOf x.2 = inside, x.1.path = path at hplaced
  match before with
  | [] => cases hplaced; exact List.mem_cons_of_mem _ List.mem_cons_self
  | [_] => cases hplaced; exact List.mem_cons_self
  | [_, _] => cases hplaced
  | [_, _, _] => cases hplaced
  | _ :: _ :: _ :: _ :: _ => cases hplaced

end PatchScript.Run
