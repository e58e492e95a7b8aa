import PatchScript.Proofs.Reading
import PatchScript.Proofs.Run.Confinement

/-!
# What a run does

A run changes documents, opens files and includes scripts; a file block and an included
script do such things in turn.  `Deed` says what is done, as a tree.  `Does` says that a
session comes from another by doing something: it is the evaluator with all left out that
neither the document nor the store can see.  For a file block it keeps the evidence that
its body was run, from the document that was loaded to the document that is written.

A block is only run where no document is open, and inside of it one is.  So what is done
inside of a block is changes of its document and included scripts, which have contexts of
their own.
-/

namespace PatchScript.Run

open Xml (Document NodeId)
open Script (Term)
open Eval

/-! ## Changes -/

/-- A change to the open document. -/
inductive Change where
  /-- An attribute is set. -/
  | set (id : NodeId) (name value : String)
  /-- An attribute is removed. -/
  | unset (id : NodeId) (name : String)
  /-- An element is appended. -/
  | append (parent : NodeId) (tag : String)
  /-- Elements are taken from their parents. -/
  | detach (ids : List NodeId)
deriving DecidableEq

/-- The document with a change made. -/
def Change.apply : Change → Document → Except Xml.Error Document
  | .set id name value, d => d.setAttribute id name value
  | .unset id name, d => .ok (d.removeAttribute id name)
  | .append parent tag, d => do return (← d.appendElement parent tag).1
  | .detach ids, d => .ok (ids.foldl Document.detach d)

/-- What directives do to a document is one of the changes. -/
theorem Edit.change {α : Type} {f : Document → Except Xml.Error (Document × α)} (h : Edit f) :
    ∃ e : Change, ∀ {d d' : Document} {a : α}, f d = .ok (d', a) → e.apply d = .ok d' := by
  cases h with
  | setAttribute id name value =>
    refine ⟨.set id name value, fun {d d' a} hf => ?_⟩
    obtain ⟨d₁, hset, hret⟩ := bind_eq_ok hf
    cases hret
    exact hset
  | removeAttribute id name =>
    refine ⟨.unset id name, fun hf => ?_⟩
    cases hf
    rfl
  | appendElement id tag =>
    refine ⟨.append id tag, fun {d d' a} hf => ?_⟩
    have hf : d.appendElement id tag = .ok (d', a) := hf
    rw [Change.apply, hf]
    rfl
  | detachAll ids =>
    refine ⟨.detach ids, fun hf => ?_⟩
    cases hf
    rfl

/-! ## Blocks and deeds -/

/-- One time that a file block was run, its document being there. -/
structure Block (σ : Type) where
  /-- The path. -/
  path : String
  /-- The directives. -/
  body : List (Term Nat)
  /-- The session in which the document was asked for. -/
  opened : Session σ
  /-- The document that the store gave. -/
  loaded : Document
  /-- How the body ended. -/
  result : Except Fault Unit
  /-- The session that the body left. -/
  closed : Session σ
  /-- The document in it. -/
  left : Document

/-- Something that a run does. -/
inductive Deed (σ : Type) where
  /-- The open document is changed. -/
  | change (e : Change)
  /-- An included script does something. -/
  | script (name : String) (inside : List (Deed σ))
  /-- A document is asked for that the store does not have or cannot give. -/
  | missed (path : String)
  /-- A file block does something. -/
  | block (b : Block σ) (inside : List (Deed σ))

variable {σ : Type}

namespace Block

/-- Did the body end without a fault? -/
def finished (b : Block σ) : Bool := b.result.isOk

/-- What the store is asked when the body has ended. -/
def writes (b : Block σ) : List StoreCall := if b.finished then [.persist b.path] else []

variable [DocumentStore σ]

/-- The session in which the body starts. -/
def entered (b : Block σ) : Session σ :=
  let asked : Session σ := { b.opened with calls := b.opened.calls ++ [.load b.path] }
  asked.comeTo (b.opened.context.enterDocument b.loaded)

/-- The session in which the document is closed. -/
def ended (b : Block σ) : Session σ :=
  b.closed.comeTo (b.opened.context.leaveDocument b.closed.context)

/-- The block was run as the evaluator runs it: with no document open, on the document
that the store gave, its whole body down to the end or to a fault. -/
structure Runs (host : Host) (b : Block σ) : Prop where
  /-- No document was open. -/
  alone : b.opened.context.document = none
  /-- The store gave the document. -/
  found : DocumentStore.load b.opened.store b.path = .ok (some b.loaded)
  /-- The body was run on it. -/
  ran : ∃ scripts presets,
    evalBody (waysAt host scripts presets) b.body b.entered = (b.result, b.closed)
  /-- The body left a document. -/
  left : b.closed.context.document = some b.left

/-- What comes of a block when its body has ended: a fault is handed on, and otherwise
the document is written, which the store may refuse. -/
inductive Ends (b : Block σ) : Except Fault Unit → Session σ → Prop where
  | failed {e : Fault} : b.result = .error e → Ends b (.error e) b.ended
  | written {store : σ} : b.result = .ok () →
    DocumentStore.persist b.ended.store b.path b.left = .ok store →
    Ends b (.ok ()) { b.ended with calls := b.ended.calls ++ [.persist b.path], store }
  | refused {e : Fault} : b.result = .ok () →
    DocumentStore.persist b.ended.store b.path b.left = .error e →
    Ends b (.error e) { b.ended with calls := b.ended.calls ++ [.persist b.path] }

end Block

mutual

/-- What the store is asked. -/
def Deed.calls : Deed σ → List StoreCall
  | .change _ => []
  | .script _ inside => callsOf inside
  | .missed path => [.load path]
  | .block b inside => .load b.path :: callsOf inside ++ b.writes

@[inherit_doc Deed.calls]
def callsOf : List (Deed σ) → List StoreCall
  | [] => []
  | d :: ds => d.calls ++ callsOf ds

end

mutual

/-- The blocks that are run, each with what was done inside of it, in the order in which
they end. -/
def Deed.blocks : Deed σ → List (Block σ × List (Deed σ))
  | .change _ | .missed _ => []
  | .script _ inside => blocksOf inside
  | .block b inside => blocksOf inside ++ [(b, inside)]

@[inherit_doc Deed.blocks]
def blocksOf : List (Deed σ) → List (Block σ × List (Deed σ))
  | [] => []
  | d :: ds => d.blocks ++ blocksOf ds

end

/-- The changes to the document that is open, those to other documents left out. -/
def changesOf : List (Deed σ) → List Change
  | [] => []
  | .change e :: ds => e :: changesOf ds
  | _ :: ds => changesOf ds

mutual

/-- The scripts that are included, those that are included by them left out. -/
def Deed.scripts : Deed σ → List String
  | .change _ | .missed _ => []
  | .script name _ => [name]
  | .block _ inside => scriptsOf inside

@[inherit_doc Deed.scripts]
def scriptsOf : List (Deed σ) → List String
  | [] => []
  | d :: ds => d.scripts ++ scriptsOf ds

end

/-- Is it something that is done with a file? -/
def Deed.IsFile : Deed σ → Prop
  | .missed _ | .block .. => True
  | .change _ | .script .. => False

/-- A result with no value. -/
def ended {α : Type} : Except Fault α → Except Fault Unit
  | .ok _ => .ok ()
  | .error e => .error e

/-! ## Doing -/

variable [DocumentStore σ]

/-- A session comes from another by doing something, with a fault at the end or without.
Of the scripts, only those of the names are included. -/
inductive Does (host : Host) :
    List String → Session σ → List (Deed σ) → Except Fault Unit → Session σ → Prop where
  | nothing {names : List String} (s : Session σ) : Does host names s [] (.ok ()) s
  | fails {names : List String} (s : Session σ) (e : Fault) : Does host names s [] (.error e) s
  | seq {names : List String} {s t u : Session σ} {ds ds' : List (Deed σ)}
    {r : Except Fault Unit} : Does host names s ds (.ok ()) t → Does host names t ds' r u →
    Does host names s (ds ++ ds') r u
  /-- The context changes, but not its document. -/
  | turns {names : List String} {s : Session σ} {c : Context} :
    c.document = s.context.document → Does host names s [] (.ok ()) (s.comeTo c)
  /-- Something is entered and left again, but no document. -/
  | within {names : List String} {s t : Session σ} {c c' : Context} {ds : List (Deed σ)}
    {r : Except Fault Unit} : c.document = s.context.document →
    Does host names (s.comeTo c) ds r t → c'.document = t.context.document →
    Does host names s ds r (t.comeTo c')
  | changed {names : List String} {s : Session σ} {d d' : Document} {e : Change} :
    s.context.document = some d → e.apply d = .ok d' →
    Does host names s [.change e] (.ok ()) (s.comeTo { s.context with document := some d' })
  /-- A script is run in a new context. -/
  | included {names : List String} {s t : Session σ} {name source : String}
    {body : List (Term Unit)} {ds : List (Deed σ)} {r : Except Fault Unit} : name ∈ names →
    host.sources.resolve name = .ok source → Script.read source = .ok body →
    Does host (Script.includesOf body)
      (s.comeTo (.new host.seed (s.context.chain ++ [name]))) ds r t →
    Does host names s [.script name ds] r (t.comeTo s.context)
  | absent {names : List String} {s : Session σ} {path : String} :
    s.context.document = none → DocumentStore.load s.store path = .ok none →
    Does host names s [.missed path] (.ok ())
      { s with calls := s.calls ++ [.load path] }
  | unread {names : List String} {s : Session σ} {path : String} {e : Fault} :
    s.context.document = none → DocumentStore.load s.store path = .error e →
    Does host names s [.missed path] (.error e)
      { s with calls := s.calls ++ [.load path] }
  | block {names : List String} {b : Block σ} {ds : List (Deed σ)} {r : Except Fault Unit}
    {t : Session σ} : b.Runs host → Does host names b.entered ds b.result b.closed →
    b.Ends r t → Does host names b.opened [.block b ds] r t

/-- A source is run in a new context, unless it is no script. -/
inductive Plays (host : Host) (chain : List String) (source : String) :
    Session σ → List (Deed σ) → Except Fault Unit → Session σ → Prop where
  | fails (s : Session σ) (e : Fault) : Plays host chain source s [] (.error e) s
  | runs {s t : Session σ} {body : List (Term Unit)} {ds : List (Deed σ)}
    {r : Except Fault Unit} : Script.read source = .ok body →
    Does host (Script.includesOf body) (s.comeTo (.new host.seed chain)) ds r t →
    Plays host chain source s ds r (t.comeTo s.context)

/-! ## Deeds one after the other -/

omit [DocumentStore σ] in
theorem callsOf_append (ds ds' : List (Deed σ)) :
    callsOf (ds ++ ds') = callsOf ds ++ callsOf ds' := by
  induction ds with
  | nil => rfl
  | cons d ds ih => rw [List.cons_append, callsOf, callsOf, ih, List.append_assoc]

omit [DocumentStore σ] in
theorem blocksOf_append (ds ds' : List (Deed σ)) :
    blocksOf (ds ++ ds') = blocksOf ds ++ blocksOf ds' := by
  induction ds with
  | nil => rfl
  | cons d ds ih => rw [List.cons_append, blocksOf, blocksOf, ih, List.append_assoc]

omit [DocumentStore σ] in
theorem changesOf_append (ds ds' : List (Deed σ)) :
    changesOf (ds ++ ds') = changesOf ds ++ changesOf ds' := by
  induction ds with
  | nil => rfl
  | cons d ds ih => cases d <;> simp only [List.cons_append, changesOf, ih]

omit [DocumentStore σ] in
theorem scriptsOf_append (ds ds' : List (Deed σ)) :
    scriptsOf (ds ++ ds') = scriptsOf ds ++ scriptsOf ds' := by
  induction ds with
  | nil => rfl
  | cons d ds ih => rw [List.cons_append, scriptsOf, scriptsOf, ih, List.append_assoc]

/-! ## The open document -/

variable {host : Host} {names : List String} {s t : Session σ} {ds : List (Deed σ)}
  {r : Except Fault Unit}

/-- The scripts that are included are those of the names. -/
theorem Does.scripts (h : Does host names s ds r t) : scriptsOf ds ⊆ names := by
  induction h with
  | nothing | fails | turns | changed | absent | unread => exact List.nil_subset _
  | seq _ _ ih ih' =>
    rw [scriptsOf_append]
    exact List.append_subset.mpr ⟨ih, ih'⟩
  | within _ _ _ ih => exact ih
  | included hname _ _ _ _ => exact List.cons_subset.mpr ⟨hname, List.nil_subset _⟩
  | block _ _ _ ih =>
    rw [scriptsOf, Deed.scripts, scriptsOf, List.append_nil]
    exact ih

/-- Where no document is open, none is open afterwards. -/
theorem Does.closed (h : Does host names s ds r t) (hs : s.context.document = none) :
    t.context.document = none := by
  induction h with
  | nothing | fails | absent | unread => exact hs
  | seq _ _ ih ih' => exact ih' (ih hs)
  | turns hc => exact hc.trans hs
  | within hc _ hc' ih => exact hc'.trans (ih (hc.trans hs))
  | changed hd _ => rw [hs] at hd; cases hd
  | included _ _ _ _ _ => exact hs
  | block _ _ hends _ => cases hends <;> exact hs

/-- Where a document is open, no file is opened, and what the document is afterwards comes
from the changes that were made, and from nothing else. -/
theorem Does.open (h : Does host names s ds r t) {d : Document}
    (hs : s.context.document = some d) :
    (∀ x ∈ ds, ¬x.IsFile) ∧ ∃ d', t.context.document = some d' ∧
      (changesOf ds).foldlM (fun d e => e.apply d) d = .ok d' := by
  induction h generalizing d with
  | nothing | fails => exact ⟨fun _ hx => absurd hx List.not_mem_nil, d, hs, rfl⟩
  | seq _ _ ih ih' =>
    obtain ⟨hfirst, d₁, hd₁, hfold₁⟩ := ih hs
    obtain ⟨hrest, d₂, hd₂, hfold₂⟩ := ih' hd₁
    refine ⟨List.forall_mem_append.mpr ⟨hfirst, hrest⟩, d₂, hd₂, ?_⟩
    rw [changesOf_append, List.foldlM_append, hfold₁]
    exact hfold₂
  | turns hc => exact ⟨fun _ hx => absurd hx List.not_mem_nil, d, hc.trans hs, rfl⟩
  | within hc _ hc' ih =>
    obtain ⟨hfiles, d', hd', hfold⟩ := ih (hc.trans hs)
    exact ⟨hfiles, d', hc'.trans hd', hfold⟩
  | changed hd happly =>
    rw [hs] at hd
    cases hd
    refine ⟨List.forall_mem_singleton.mpr not_false, _, rfl, ?_⟩
    rw [changesOf, changesOf, List.foldlM_cons, happly]
    rfl
  | included _ _ _ _ _ => exact ⟨List.forall_mem_singleton.mpr not_false, d, hs, rfl⟩
  | absent hnone _ | unread hnone _ => rw [hs] at hnone; cases hnone
  | block hruns _ _ _ => rw [hruns.alone] at hs; cases hs

end PatchScript.Run
