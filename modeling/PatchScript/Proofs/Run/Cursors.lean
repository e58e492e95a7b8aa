import PatchScript.Proofs.Run.Evolution
import PatchScript.Proofs.Run.Patches
import PatchScript.Proofs.Run.Stands
import PatchScript.Proofs.Run.Updates

/-!
# Cursors are safe

A run works on elements that it knows by their numbers.  It keeps the number of an element while
directives are run in it, which append and take away others, and the numbers of all elements that
a selector has found while the first ones of them are worked on.  A number says nothing of what it
is the number of, so it has to be known for each of them at any time that it is the number of an
element of the document that is open.

A watched store sees the contexts of a run but not what is put aside and not what a directive has
still to do.  So the run is followed through its stands: from each context to the next one these
make a move (`Goes`).  A guard makes a move when it is entered and one when it is left.  Which
elements are entered and changed is known from what came before, and this is why the evaluator is
gone through once more here: that a step is put together from others does not tell which element
it is about.

So stands are safe at all times (`cursors_are_safe`), whatever the directives are and however they
end.  Nothing is asked of the store but that the documents it gives can be made.
-/

namespace PatchScript.Run

open Xml (Document NodeId)
open Script (Term)
open Eval

variable {σ α β : Type}

/-! ## Stores -/

/-- The documents that a store gives can be made. -/
def GivesReachable (σ : Type) [DocumentStore σ] : Prop :=
  ∀ (store : σ) (path : String) (d : Document),
    DocumentStore.load store path = .ok (some d) → d.Reachable

theorem MemoryStore.givesReachable : GivesReachable MemoryStore := by
  intro store path d h
  obtain ⟨text, -, hread⟩ := MemoryStore.text?_of_load h
  exact .read hread

/-! ## Contexts -/

/-- The stand of a context, with the elements that are pending. -/
def Context.stand (c : Context) (pending : List NodeId) (outer : List Spot) : Stand :=
  ⟨c.document, ⟨c.cursor, pending⟩, outer⟩

theorem Context.element?_of_open {c : Context} {d : Document} {id : NodeId}
    (hid : c.element? = some id) (hd : c.document = some d) : id = c.cursor.getD d.root := by
  rw [element?, hd] at hid
  cases hcursor : c.cursor with
  | none =>
    rw [hcursor] at hid
    exact (Option.some.inj hid).symm
  | some id' =>
    rw [hcursor] at hid
    exact (Option.some.inj hid).symm

/-! ## Sessions -/

/-- A session comes from another one through contexts that show stands which move into each other.
At the ends, nothing is put aside that was not before, and the elements are those that are pending
there. -/
structure Goes (s : Session (Watched σ)) (p : List NodeId) (t : Session (Watched σ))
    (q : List NodeId) : Prop where
  /-- The element that was entered last is the same. -/
  cursor : t.context.cursor = s.context.cursor
  /-- A document is open if one was open, and it has the same root. -/
  root : t.context.document.map (·.root) = s.context.document.map (·.root)
  /-- The stands on the way. -/
  through (outer : List Spot) (saved : List Stand) : ∃ between : List Stands,
    t.store.seen.map Context.sight = s.store.seen.map Context.sight ++ between.map Stands.sight ∧
      Trail ⟨s.context.stand p outer, saved⟩ between ⟨t.context.stand q outer, saved⟩

namespace Goes

variable {s t u : Session (Watched σ)} {c c' : Context} {p q r : List NodeId}

/-- Nothing is come to. -/
theorem quiet (hcontext : t.context = s.context) (hseen : t.store.seen = s.store.seen) :
    Goes s p t p where
  cursor := by rw [hcontext]
  root := by rw [hcontext]
  through outer saved := ⟨[], by simp [hseen], by rw [hcontext]; exact .nil _⟩

theorem refl (s : Session (Watched σ)) (p : List NodeId) : Goes s p s p := .quiet rfl rfl

theorem trans (hst : Goes s p t q) (htu : Goes t q u r) : Goes s p u r where
  cursor := htu.cursor.trans hst.cursor
  root := htu.root.trans hst.root
  through outer saved := by
    obtain ⟨between, hseen, htrail⟩ := hst.through outer saved
    obtain ⟨between', hseen', htrail'⟩ := htu.through outer saved
    refine ⟨between ++ between', ?_, htrail.append htrail'⟩
    rw [hseen', hseen, List.map_append, List.append_assoc]

/-- The element that directives work on is the same. -/
theorem element? (h : Goes s p t q) : t.context.element? = s.context.element? := by
  rw [Context.element?, Context.element?, h.cursor, h.root]

/-- Where no document was open, none is open. -/
theorem closed (h : Goes s p t q) (hs : s.context.document = none) :
    t.context.document = none := by
  have hroot := h.root
  rw [hs] at hroot
  exact Option.map_eq_none_iff.mp hroot

variable [DocumentStore σ]

theorem seen_comeTo (s : Session (Watched σ)) (c : Context) :
    (s.comeTo c).store.seen.map Context.sight = s.store.seen.map Context.sight ++ [c.sight] := by
  show (s.store.seen ++ [c]).map Context.sight = _
  rw [List.map_append]
  rfl

/-- One context is come to. -/
theorem move (hcursor : c.cursor = s.context.cursor)
    (hroot : c.document.map (·.root) = s.context.document.map (·.root))
    (h : ∀ outer saved, Move ⟨s.context.stand p outer, saved⟩ ⟨c.stand q outer, saved⟩) :
    Goes s p (s.comeTo c) q where
  cursor := hcursor
  root := hroot
  through outer saved :=
    ⟨[⟨c.stand q outer, saved⟩], seen_comeTo s c, .single (h outer saved)⟩

/-- A context with the same document and the same element is come to. -/
theorem stay (hcursor : c.cursor = s.context.cursor)
    (hdocument : c.document = s.context.document) : Goes s p (s.comeTo c) p := by
  have same (outer : List Spot) : c.stand p outer = s.context.stand p outer := by
    rw [Context.stand, hcursor, hdocument, Context.stand]
  refine .move hcursor (congrArg _ hdocument) fun outer saved => ?_
  rw [same]
  exact .stays _

/-- Something is entered and left again, and what is done inside of it is done on top of what has
been put aside. -/
theorem guarded (hinside : Goes (s.comeTo c) [] t []) (hcursor : c'.cursor = s.context.cursor)
    (hroot : c'.document.map (·.root) = s.context.document.map (·.root))
    (h : ∀ outer saved, ∃ outer' saved',
      Move ⟨s.context.stand p outer, saved⟩ ⟨c.stand [] outer', saved'⟩ ∧
      Move ⟨t.context.stand [] outer', saved'⟩ ⟨c'.stand q outer, saved⟩) :
    Goes s p (t.comeTo c') q where
  cursor := hcursor
  root := hroot
  through outer saved := by
    obtain ⟨outer', saved', henter, hleave⟩ := h outer saved
    obtain ⟨between, hseen, htrail⟩ := hinside.through outer' saved'
    refine ⟨⟨c.stand [] outer', saved'⟩ :: (between ++ [⟨c'.stand q outer, saved⟩]), ?_,
      .cons henter (htrail.append (.single hleave))⟩
    rw [seen_comeTo, hseen, seen_comeTo, List.map_cons, List.map_append, List.append_assoc,
      List.append_assoc]
    rfl

end Goes

/-! ## Steps -/

/-- A step that goes through moves from every session, with nothing pending at the ends. -/
def Going (x : Eval (Watched σ) α) : Prop := ∀ s, Goes s [] (x s).2 []

namespace Going

variable {s t : Session (Watched σ)} {d : Document} {id target : NodeId} {p q r rest : List NodeId}

/-- What a step does in a session is enough to tell. -/
theorem of_run {x : Eval (Watched σ) α} {a : Except Fault α} (h : x s = (a, t))
    (ht : Goes s p t q) : Goes s p (x s).2 q := by
  rw [h]
  exact ht

/-- Two steps, one after the other.  Where the first one fails, nothing is pending any more that
has to be done by the second one. -/
theorem seq_from {x : Eval (Watched σ) α} {f : α → Eval (Watched σ) β}
    (hx : Goes s p (x s).2 q ∧ Goes s p (x s).2 r)
    (hf : ∀ a t, x s = (.ok a, t) → Goes s p t q → Goes t q (f a t).2 r) :
    Goes s p ((x >>= f) s).2 r := by
  cases hrun : x s with
  | mk a t =>
    rw [hrun] at hx
    cases a with
    | ok a =>
      rw [bind_run_ok hrun]
      exact hx.1.trans (hf a t hrun hx.1)
    | error e => exact of_run (bind_run_error hrun f) hx.2

theorem seq_at {x : Eval (Watched σ) α} {f : α → Eval (Watched σ) β} (hx : Goes s [] (x s).2 [])
    (hf : ∀ a t, x s = (.ok a, t) → Goes s [] t [] → Goes t [] (f a t).2 []) :
    Goes s [] ((x >>= f) s).2 [] := seq_from ⟨hx, hx⟩ hf

theorem ret (a : α) : Going (σ := σ) (pure a) := fun s => .refl s []

theorem fault (e : Fault) : Going (σ := σ) (α := α) (throw e) := fun s => .refl s []

theorem seq {x : Eval (Watched σ) α} {f : α → Eval (Watched σ) β} (hx : Going x)
    (hf : ∀ a, Going (f a)) : Going (x >>= f) := fun s => seq_at (hx s) fun a t _ _ => hf a t

theorem look {f : Context → Eval (Watched σ) β} (hf : ∀ c, Going (f c)) :
    Going (context >>= f) := fun s => hf s.context s

/-! ### Questions -/

/-- A question changes nothing, and if its answer is not the one without a document, it is the
answer of the document that is open. -/
theorem of_ask {question : Document → Except XPath.Error α} {none' a : α}
    (h : Eval.ask question none' s = (.ok a, t)) : t = s ∧
      (a = none' ∨ ∃ d, s.context.document = some d ∧ question d = .ok a) := by
  cases hd : s.context.document with
  | none =>
    rw [ask_run_none hd] at h
    cases h
    exact ⟨rfl, .inl rfl⟩
  | some d =>
    rw [ask_run_some hd] at h
    cases hq : question d with
    | ok answer =>
      rw [hq] at h
      cases h
      exact ⟨rfl, .inr ⟨d, rfl, hq⟩⟩
    | error e =>
      rw [hq] at h
      cases h

theorem ask (question : Document → Except XPath.Error α) (none' : α) :
    Going (σ := σ) (Eval.ask question none') := by
  intro s
  cases hd : s.context.document with
  | none => exact of_run (ask_run_none hd) (.refl s [])
  | some d => exact of_run (ask_run_some hd) (.refl s [])

/-- A child is looked for in the document that is open. -/
theorem search (id : NodeId) (tag : String) (n : Int) (s : Session (Watched σ)) :
    ∃ c, nthChild? id tag n s = (.ok c, s) ∧ ∀ target, c = some target →
      ∃ d, s.context.document = some d ∧ Found d id [target] := by
  cases hd : s.context.document with
  | none =>
    refine ⟨none, ?_, nofun⟩
    rw [nthChild?]
    split
    · rfl
    · rw [context_bind_run, hd]
      rfl
  | some d => exact ⟨_, nthChild?_run hd id tag n, fun target h => ⟨d, rfl, .child h⟩⟩

theorem callGet (selector : Option String) : Going (σ := σ) (callGet selector) := by
  cases selector with
  | none => exact .ret none
  | some s =>
    refine .look fun c => ?_
    dsimp only
    split
    · exact .ret none
    · exact .ask _ none

/-! ### Values -/

theorem literal (value : Script.Literal) : Going (σ := σ) (evalLiteral value) := by
  cases value with
  | text s =>
    refine .look fun c => ?_
    cases fillPlaceholders c.const? s with
    | ok value => exact .ret value
    | error name => exact .fault (.unresolved name)
  | number | integer | boolean => exact .ret _

theorem position (s : String) : Going (σ := σ) (positionOf s) := by
  unfold positionOf
  cases integerOf? s with
  | some n => exact .ret n
  | none => exact .fault (.invalidPosition s)

variable [DocumentStore σ]

/-! ### The context -/

theorem stays {f : Context → Context} (hcursor : ∀ c, (f c).cursor = c.cursor)
    (hdocument : ∀ c, (f c).document = c.document) : Going (σ := σ) (modifyContext f) :=
  fun _ => .stay (hcursor _) (hdocument _)

theorem diagnose (d : Diagnostic) : Going (σ := σ) (modifyContext (·.diagnose d)) :=
  .stays (fun _ => rfl) fun _ => rfl

theorem bindName (name : String) (b : Binding) : Going (σ := σ) (bindName name b) := by
  intro s
  cases h : s.context.bind name b with
  | ok c =>
    exact of_run (bindName_run_ok h) (.stay (Context.Keeps.bind h).cursor (Context.bind_document h))
  | error e => exact of_run (bindName_run_error h) (.refl s [])

/-- The element that directives work on is asked for first, and where there is one, nothing has
been done then. -/
theorem cursor {f : Option NodeId → Eval (Watched σ) α} (directive : String)
    (hnone : Going (f none))
    (hsome : ∀ id s, s.context.element? = some id → Goes s [] (f (some id) s).2 []) :
    Going (cursor? directive >>= f) := by
  intro s
  cases hid : s.context.element? with
  | some id =>
    rw [bind_run_ok (cursor?_run directive hid)]
    exact hsome id s hid
  | none =>
    have hrun : cursor? directive s =
        (.ok none, s.comeTo (s.context.diagnose (Skipped.cursorMissing directive).diagnostic)) := by
      rw [cursor?]
      rw [context_bind_run, hid]
      rfl
    rw [bind_run_ok hrun]
    exact (diagnose _ s).trans (hnone _)

/-! ### Changes -/

/-- The document is changed at the element that directives work on. -/
theorem change {f : Document → Except Xml.Error (Document × α)}
    (hid : s.context.element? = some id)
    (hf : ∀ d d' a, s.context.document = some d → f d = .ok (d', a) →
      ∃ e : Change, e.ActsOn d id ∧ e.apply d = .ok d' ∧ d'.root = d.root) :
    Goes s [] (change f s).2 [] := by
  cases hd : s.context.document with
  | none => exact of_run (change_run_none hd) (.refl s [])
  | some d =>
    cases hfd : f d with
    | ok r =>
      obtain ⟨d', a⟩ := r
      obtain ⟨e, hacts, happly, hroot⟩ := hf d d' a hd hfd
      rw [Context.element?_of_open hid hd] at hacts
      refine of_run (change_run_ok hd hfd) (.move rfl ?_ fun outer saved => ?_)
      · rw [hd]
        exact congrArg some hroot
      · rw [Context.stand, hd]
        exact .changes hacts happly
    | error e => exact of_run (change_run_error hd hfd) (.refl s [])

theorem set (hid : s.context.element? = some id) (name value : String) :
    Goes s [] (Eval.change (fun d => do
      let d ← d.setAttribute id name value
      return (d, ())) s).2 [] := by
  refine change hid fun d d' a _ hf => ?_
  obtain ⟨d₁, hset, hret⟩ := bind_eq_ok hf
  cases hret
  exact ⟨.set id name value, .set name value, hset, (Document.Step.setAttribute hset).root⟩

theorem unset (hid : s.context.element? = some id) (name : String) :
    Goes s [] (Eval.change (fun d => .ok (d.removeAttribute id name, ())) s).2 [] := by
  refine change hid fun d d' a _ hf => ?_
  cases hf
  exact ⟨.unset id name, .unset name, rfl, rfl⟩

theorem detachAll {targets : List NodeId} (hid : s.context.element? = some id)
    (hd : s.context.document = some d) (hfound : Found d id targets) :
    Goes s [] (detachAll targets s).2 [] := by
  refine seq_at (change hid fun d₁ d' a hd₁ hf => ?_) fun _ t _ _ => .refl t []
  rw [hd] at hd₁
  cases hd₁
  cases hf
  exact ⟨.detach targets, .detach hfound, rfl, (Document.steps_detachAll targets d).root⟩

/-! ### Entering elements -/

/-- An element is entered and left again, after which others may be pending, unless there was a
fault. -/
theorem visit {x : Eval (Watched σ) α} (hx : Going x)
    (hmove : ∀ outer saved, Move ⟨s.context.stand p outer, saved⟩
      ⟨⟨s.context.document, ⟨some target, []⟩, ⟨s.context.cursor, rest⟩ :: outer⟩, saved⟩) :
    Goes s p (atElement target x s).2 rest ∧ Goes s p (atElement target x s).2 [] := by
  have hinside := hx (s.comeTo (s.context.enterElement target))
  refine ⟨hinside.guarded rfl hinside.root fun outer saved => ?_,
    hinside.guarded rfl hinside.root fun outer saved => ?_⟩
  · exact ⟨_, saved, hmove outer saved, .leaves ..⟩
  · exact ⟨_, saved, hmove outer saved, .fails ..⟩

/-- The first one of the elements that were found is entered. -/
theorem visit_found {x : Eval (Watched σ) α} (hx : Going x) (hid : s.context.element? = some id)
    (hd : s.context.document = some d) (hfound : Found d id (target :: rest)) :
    Goes s [] (atElement target x s).2 rest ∧ Goes s [] (atElement target x s).2 [] := by
  rw [Context.element?_of_open hid hd] at hfound
  refine visit hx fun outer saved => ?_
  rw [Context.stand, hd]
  exact .finds hfound

/-- The elements that are pending are entered one after the other. -/
theorem visit_pending {x : Eval (Watched σ) Unit} (hx : Going x) : ∀ (targets : List NodeId)
    (s : Session (Watched σ)), Goes s targets (targets.forM (fun id => atElement id x) s).2 [] := by
  intro targets
  induction targets with
  | nil => exact fun s => .refl s []
  | cons target targets ih =>
    intro s
    exact seq_from (visit hx fun outer saved => .continues ..) fun _ t _ _ => ih t

theorem visit_every {x : Eval (Watched σ) Unit} (hx : Going x)
    (hid : s.context.element? = some id) (hd : s.context.document = some d)
    (hfound : Found d id (target :: rest)) :
    Goes s [] ((target :: rest).forM (fun id => atElement id x) s).2 [] :=
  seq_from (visit_found hx hid hd hfound) fun _ t _ _ => visit_pending hx rest t

/-- An element is appended and entered. -/
theorem visit_made {x : Eval (Watched σ) Unit} (hx : Going x)
    (hid : s.context.element? = some id) (tag : String) :
    Goes s [] ((do atElement? (← appendElement id tag) x) s).2 [] := by
  have happend : Goes s [] (appendElement id tag s).2 [] := by
    refine change hid fun d d' target _ hf => ?_
    refine ⟨.append id tag, .append tag, ?_, ?_⟩
    · rw [Change.apply, hf]
      rfl
    · rw [(Document.appendElement_ok hf).1, Document.push]
  refine seq_at happend fun made t hrun ht => ?_
  cases made with
  | none => exact .refl t []
  | some target =>
    have hmade : ∃ d, t.context.document = some d ∧ Found d id [target] := by
      cases hd : s.context.document with
      | none =>
        rw [appendElement, change_run_none hd] at hrun
        cases hrun
      | some d =>
        cases hf : d.appendElement id tag with
        | ok r =>
          rw [appendElement, change_run_ok hd hf] at hrun
          cases hrun
          exact ⟨r.1, rfl, .made hf⟩
        | error e =>
          rw [appendElement, change_run_error hd hf] at hrun
          cases hrun
    obtain ⟨d, hd, hfound⟩ := hmade
    exact (visit_found hx (ht.element?.trans hid) hd hfound).2

theorem addAt {x : Eval (Watched σ) Unit} (hx : Going x) (hid : s.context.element? = some id)
    (tag : String) (n : Int) : Goes s [] (addAt id tag n x s).2 [] := by
  obtain ⟨before, hbefore, -⟩ := search id tag (n - 1) s
  obtain ⟨there, hthere, -⟩ := search id tag n s
  rw [Run.addAt]
  rw [bind_run_ok hbefore, bind_run_ok hthere]
  split
  · exact .refl s []
  · exact visit_made hx hid tag

theorem changeOrAddAt {x : Eval (Watched σ) Unit} (hx : Going x)
    (hid : s.context.element? = some id) (tag : String) (n : Int) :
    Goes s [] (changeOrAddAt id tag n x s).2 [] := by
  obtain ⟨before, hbefore, -⟩ := search id tag (n - 1) s
  obtain ⟨there, hthere, hfound⟩ := search id tag n s
  rw [Run.changeOrAddAt]
  split
  · exact .refl s []
  · dsimp only
    rw [bind_run_ok hbefore]
    split
    · exact diagnose _ s
    · rw [bind_run_ok hthere]
      cases there with
      | none => exact visit_made hx hid tag
      | some target =>
        obtain ⟨d, hd, htarget⟩ := hfound target rfl
        exact (visit_found hx hid hd htarget).2

/-! ### Presets -/

theorem bindParams (preset : String) : ∀ (index : Nat) (params : List String)
    (values : List (Option String)),
    Going (σ := σ) (bindParams preset index params values)
  | _, [], _ => .ret ()
  | _, _ :: _, [] => .ret ()
  | index, p :: ps, v :: vs => by
    unfold Run.bindParams
    cases v with
    | none => exact (fault _).seq fun _ => bindParams preset (index + 1) ps vs
    | some value => exact (bindName p _).seq fun _ => bindParams preset (index + 1) ps vs

theorem inPreset (p : Preset) {x : Eval (Watched σ) α} (hx : Going x) : Going (inPreset p x) := by
  intro s
  cases h : s.context.activeFrom p.mark with
  | nil =>
    rw [inPreset_run_nil h]
    have hinside := hx (s.comeTo (s.context.enterPreset p))
    have henter : Goes s [] (s.comeTo (s.context.enterPreset p)) [] := .stay rfl rfl
    exact (henter.trans hinside).trans (.stay rfl rfl)
  | cons q qs =>
    rw [inPreset_run_cons h]
    exact .refl s []

/-- The ways out of terms lead to steps that go through moves. -/
structure Along (w : Ways (Watched σ)) : Prop where
  /-- The way to the body of a preset. -/
  body (body : List (Term Nat)) : Going (w.body body)
  /-- The way to another script. -/
  script (name : String) : Going (w.script name)

variable {w : Ways (Watched σ)}

theorem callPreset (hw : Along w) (p : Preset) (values : List (Option String)) :
    Going (callPreset w p values) := by
  have entered : Going (enter w p values.dropLast) := by
    have inside := ((bindParams p.name 0 p.params values.dropLast).seq fun _ =>
      hw.body p.body).inPreset p
    unfold enter
    split
    · exact (fault _).seq fun _ => inside
    · exact inside
  rw [callPreset_eq]
  refine .look fun c => ?_
  dsimp only
  split
  · exact (fault _).seq fun _ => entered
  · exact entered

theorem callName (hw : Along w) (name : String) {first : Eval (Watched σ) (Option String)}
    {all : Eval (Watched σ) (List (Option String))} (hfirst : Going first) (hall : Going all) :
    Going (callName w name first all) := by
  refine .look fun c => ?_
  cases c.func? name with
  | none => exact .ret none
  | some callee =>
    cases callee with
    | get => exact hfirst.seq fun v => callGet v
    | template text => exact hall.seq fun vs => .ret _
    | preset p => exact hall.seq fun vs => (callPreset hw p vs).seq fun _ => .ret none

/-! ### Files -/

theorem load (path : String) : Going (σ := σ) (Eval.load path) :=
  fun s => of_run (load_run path s) (.quiet rfl rfl)

theorem persist (path : String) (d : Document) : Going (σ := σ) (Eval.persist path d) := by
  intro s
  cases h : DocumentStore.persist s.store path d with
  | ok store => exact of_run (persist_run_ok h) (.quiet rfl (Watched.seen_of_persist h))
  | error e => exact of_run (persist_run_error h) (.quiet rfl rfl)

/-- A document is opened and left again, where none is open. -/
theorem onDocument {x : Eval (Watched σ) α} (hx : Going x) (hd : d.Reachable)
    (hs : s.context.document = none) : Goes s [] (onDocument d x s).2 [] := by
  have handed : Going (do let answer ← x; return (answer, (← context).document)) :=
    hx.seq fun a => .look fun c => .ret _
  have hinside := handed (s.comeTo (s.context.enterDocument d))
  refine hinside.guarded rfl rfl fun outer saved => ?_
  refine ⟨[], s.context.stand [] outer :: saved, .opens saved hs hd, ?_⟩
  rw [Context.stand, hinside.cursor]
  exact .returns _ _ saved

theorem openFile (hσ : GivesReachable σ) (path : String) {x : Eval (Watched σ) Unit}
    (hx : Going x) (hs : s.context.document = none) : Goes s [] (openFile path x s).2 [] := by
  refine seq_at (load path s) fun found t hrun ht => ?_
  cases found with
  | none => exact diagnose _ t
  | some d =>
    rw [load_run] at hrun
    have hd : d.Reachable := hσ s.store.store path d (Prod.ext_iff.mp hrun).1
    refine seq_at (onDocument hx hd (ht.closed hs)) fun r u _ _ => ?_
    obtain ⟨-, after⟩ := r
    cases after with
    | some d => exact persist path d u
    | none => exact .refl u []

/-! ### Terms -/

/-- A number in a directive is one that stands there, or one that is evaluated. -/
theorem number {position : Term Nat} (hposition : Going (Run.eval w position))
    {f : Int → Eval (Watched σ) α} (hf : ∀ n t, Goes s [] t [] → Goes t [] (f n t).2 []) :
    Goes s [] ((match integerOfTerm? position with
      | some n => do
        let n ← pure n
        f n
      | none => do
        let text ← Run.eval w position
        let n ← positionOf (text.getD "")
        f n) s).2 [] := by
  cases integerOfTerm? position with
  | some n => exact hf n s (.refl s [])
  | none =>
    refine seq_at (hposition s) fun text t _ ht => ?_
    exact seq_at (Going.position _ t) fun n u _ hu => hf n u (ht.trans hu)

mutual

/-- A term goes through moves, if the ways out of it do. -/
theorem eval (hσ : GivesReachable σ) (hw : Along w) : ∀ t : Term Nat, Going (Run.eval w t)
  | .literal value => (literal value).seq fun _ => .ret _
  | .name name negative =>
    .look fun c => .ret (some (withSign negative ((c.const? name).getD name)))
  | .call name args negative =>
    (callName hw name (evalFirst hσ hw none args) (evalArgs hσ hw args)).seq fun _ => .ret _
  | .block body => (evalBody hσ hw body).seq fun _ => .ret none
  | .const name value => (eval hσ hw value).seq fun _ => (bindName name _).seq fun _ => .ret none
  | .preset mark name params body => (bindName name _).seq fun _ => .ret none
  | .use name args => by
    simp only [Run.eval]
    refine .look fun c => ?_
    split
    · exact (diagnose _).seq fun _ => .ret none
    · refine (callName hw name (evalFirst hσ hw _ args) ?_).seq fun _ => .ret none
      exact (evalArgs hσ hw args).seq fun vs => .ret _
  | .include name => (hw.script name).seq fun _ => .ret none
  | .file path body => by
    intro s
    rw [Run.eval]
    rw [context_bind_run]
    cases hs : s.context.document with
    | some d => exact (diagnose _).seq (fun _ => .ret none) s
    | none =>
      refine seq_at (eval hσ hw path s) fun at' t _ ht => ?_
      refine seq_at ?_ fun _ u _ _ => .refl u []
      exact openFile hσ (at'.getD "") (evalBody hσ hw body) (ht.closed hs)
  | .set attr value => by
    simp only [Run.eval]
    refine cursor "set" (.ret none) fun id s hid => ?_
    refine seq_at (eval hσ hw attr s) fun name t _ ht => ?_
    refine seq_at (eval hσ hw value t) fun text u _ hu => ?_
    have hid : u.context.element? = some id := (ht.trans hu).element?.trans hid
    exact seq_at (set hid _ _) fun _ v _ _ => .refl v []
  | .removeAttribute attr => by
    simp only [Run.eval]
    refine cursor "remove" (.ret none) fun id s hid => ?_
    refine seq_at (eval hσ hw attr s) fun name t _ ht => ?_
    exact seq_at (unset (ht.element?.trans hid) _) fun _ u _ _ => .refl u []
  | .removeElement selector => by
    simp only [Run.eval]
    refine cursor "remove" (.ret none) fun id s hid => ?_
    refine seq_at (eval hσ hw selector s) fun text t _ ht => ?_
    refine seq_at (ask _ _ t) fun target u hrun _ => ?_
    obtain ⟨rfl, htarget⟩ := of_ask hrun
    cases target with
    | none => exact (diagnose _).seq (fun _ => .ret none) u
    | some target =>
      obtain ⟨d, hd, htarget⟩ := htarget.resolve_left nofun
      refine seq_at ?_ fun _ v _ _ => .refl v []
      exact detachAll (ht.element?.trans hid) hd (.first htarget)
  | .removeAll selector => by
    simp only [Run.eval]
    refine cursor "remove" (.ret none) fun id s hid => ?_
    refine seq_at (eval hσ hw selector s) fun text t _ ht => ?_
    refine seq_at (ask _ _ t) fun targets u hrun _ => ?_
    obtain ⟨rfl, htargets⟩ := of_ask hrun
    cases targets with
    | nil => exact (diagnose _).seq (fun _ => .ret none) u
    | cons target targets =>
      obtain ⟨d, hd, htargets⟩ := htargets.resolve_left nofun
      refine seq_at ?_ fun _ v _ _ => .refl v []
      exact detachAll (ht.element?.trans hid) hd (.every htargets)
  | .add tag body => by
    simp only [Run.eval]
    refine cursor "add" (.ret none) fun id s hid => ?_
    refine seq_at (eval hσ hw tag s) fun name t _ ht => ?_
    have made := visit_made (evalBody hσ hw body) (ht.element?.trans hid) (name.getD "")
    have done := seq_at made fun _ u _ _ => (ret (none : Option String)) u
    rwa [bind_assoc] at done
  | .addAt tag position body => by
    simp only [Run.eval]
    refine cursor "add" (.ret none) fun id s hid => ?_
    refine seq_at (eval hσ hw tag s) fun name t _ ht => ?_
    refine number (eval hσ hw position) fun n u hu => ?_
    refine seq_at ?_ fun _ v _ _ => .refl v []
    exact addAt (evalBody hσ hw body) ((ht.trans hu).element?.trans hid) _ n
  | .change selector body => by
    simp only [Run.eval]
    refine cursor "change" (.ret none) fun id s hid => ?_
    refine seq_at (eval hσ hw selector s) fun text t _ ht => ?_
    refine seq_at (ask _ _ t) fun target u hrun _ => ?_
    obtain ⟨rfl, htarget⟩ := of_ask hrun
    cases target with
    | none => exact (diagnose _).seq (fun _ => .ret none) u
    | some target =>
      obtain ⟨d, hd, htarget⟩ := htarget.resolve_left nofun
      refine seq_at ?_ fun _ v _ _ => .refl v []
      exact (visit_found (evalBody hσ hw body) (ht.element?.trans hid) hd (.first htarget)).2
  | .changeAll selector body => by
    simp only [Run.eval]
    refine cursor "all" (.ret none) fun id s hid => ?_
    refine seq_at (eval hσ hw selector s) fun text t _ ht => ?_
    refine seq_at (ask _ _ t) fun targets u hrun _ => ?_
    obtain ⟨rfl, htargets⟩ := of_ask hrun
    cases targets with
    | nil => exact (diagnose _).seq (fun _ => .ret none) u
    | cons target targets =>
      obtain ⟨d, hd, htargets⟩ := htargets.resolve_left nofun
      refine seq_at ?_ fun _ v _ _ => .refl v []
      exact visit_every (evalBody hσ hw body) (ht.element?.trans hid) hd (.every htargets)
  | .changeOrAdd tag body => by
    simp only [Run.eval]
    refine cursor "change_add" (.ret none) fun id s hid => ?_
    refine seq_at (eval hσ hw tag s) fun name t _ ht => ?_
    refine seq_at ?_ fun _ u _ _ => .refl u []
    exact changeOrAddAt (evalBody hσ hw body) (ht.element?.trans hid) _ 1
  | .changeOrAddAt tag position body => by
    simp only [Run.eval]
    refine cursor "change_add" (.ret none) fun id s hid => ?_
    refine seq_at (eval hσ hw tag s) fun name t _ ht => ?_
    refine number (eval hσ hw position) fun n u hu => ?_
    refine seq_at ?_ fun _ v _ _ => .refl v []
    exact changeOrAddAt (evalBody hσ hw body) ((ht.trans hu).element?.trans hid) _ n

theorem evalBody (hσ : GivesReachable σ) (hw : Along w) :
    ∀ ts : List (Term Nat), Going (Run.evalBody w ts)
  | [] => .ret ()
  | t :: ts => (eval hσ hw t).seq fun _ => evalBody hσ hw ts

theorem evalFirst (hσ : GivesReachable σ) (hw : Along w) (none' : Option String) :
    ∀ ts : List (Term Nat), Going (Run.evalFirst w none' ts)
  | [] => .ret none'
  | t :: _ => eval hσ hw t

theorem evalArgs (hσ : GivesReachable σ) (hw : Along w) :
    ∀ ts : List (Term Nat), Going (Run.evalArgs w ts)
  | [] => .ret []
  | t :: ts => (eval hσ hw t).seq fun _ => (evalArgs hσ hw ts).seq fun _ => .ret _

end

/-! ### Scripts -/

theorem bodyAt (hσ : GivesReachable σ) {script : String → Eval (Watched σ) Unit}
    (h : ∀ name, Going (script name)) :
    ∀ (levels : Nat) (body : List (Term Nat)), Going (bodyAt script levels body) := by
  intro levels
  induction levels with
  | zero => exact fun _ => .fault .levels
  | succ n ih => exact fun body => evalBody hσ ⟨ih, h⟩ body

theorem runTerms (hσ : GivesReachable σ) {script : String → Eval (Watched σ) Unit}
    (h : ∀ name, Going (script name)) (body : List (Term Unit)) :
    Going (runTerms script body) := by
  have counted : Going (σ := σ) (numbered body) := by
    refine .look fun c => seq ?_ fun _ => .ret (Script.numberAll c.nextMark body).1
    exact .stays (fun _ => rfl) fun _ => rfl
  refine counted.seq fun body s => ?_
  have out : waysOut script body s =
      (.ok ⟨Run.bodyAt script (Script.presetsOf body + s.context.presets + 1), script⟩, s) := rfl
  rw [bind_run_ok out]
  exact evalBody hσ ⟨bodyAt hσ h _, h⟩ body s

theorem includeWith (host : Host) {run : List String → String → Eval (Watched σ) (List Diagnostic)}
    (hrun : ∀ chain source, Going (run chain source)) (name : String) :
    Going (includeWith host run name) := by
  have told (ds : List Diagnostic) :
      Going (σ := σ) (ds.forM fun d => modifyContext (·.diagnose d)) := by
    induction ds with
    | nil => exact .ret ()
    | cons d ds ih => exact (diagnose d).seq fun _ => ih
  refine .look fun c => ?_
  dsimp only
  split
  · refine (fault (.includeCycle _)).seq fun _ => ?_
    cases host.sources.resolve name with
    | error e => exact .fault e
    | ok source => exact (hrun _ source).seq told
  · cases host.sources.resolve name with
    | error e => exact .fault e
    | ok source => exact (hrun _ source).seq told

theorem runAt (hσ : GivesReachable σ) (host : Host) :
    ∀ (levels : Nat) (chain : List String) (source : String),
      Going (σ := σ) (runAt host levels chain source) := by
  intro levels
  induction levels with
  | zero => exact fun _ _ => .fault .levels
  | succ n ih =>
    intro chain source s
    rw [Run.runAt]
    cases Script.read source with
    | error e => exact .refl s []
    | ok body =>
      have run := (runTerms hσ (includeWith host ih) body).seq fun _ =>
        .look fun c => ret c.diagnostics
      have hinside := run (s.comeTo (.new host.seed chain))
      refine hinside.guarded rfl rfl fun outer saved => ?_
      refine ⟨[], s.context.stand [] outer :: saved, .starts _ saved, ?_⟩
      rw [Context.stand, hinside.cursor]
      exact .returns _ _ saved

theorem waysAt (hσ : GivesReachable σ) (host : Host) (scripts presets : Nat) :
    Along (σ := σ) (waysAt host scripts presets) := by
  have script := includeWith (σ := σ) host (runAt hσ host scripts)
  exact ⟨bodyAt hσ script presets, script⟩

end Going

/-! ## Whole runs -/

variable [DocumentStore σ]

/-- The elements of a run, followed through stands that the contexts of the run show.

`seen` and `moves` say what the stands are.  The rest holds of all of them, those that are put
aside included. -/
structure Secures (o : Outcome σ) (watched : Outcome (Watched σ)) (Ss : List Stands) : Prop where
  /-- Watching the run does not change it. -/
  same : watched.erase = o
  /-- The stands are what the contexts show. -/
  seen : watched.store.seen.map Context.sight = Ss.map Stands.sight
  /-- They move into each other, from those of a new run on. -/
  moves : (Stands.start :: Ss).IsChain Move
  /-- All documents can be made, so that what their nodes are linked to are nodes. -/
  documents : ∀ S ∈ Stands.start :: Ss, ∀ a ∈ S.live :: S.saved, ∀ d, a.document = some d →
    d.Reachable
  /-- If an element has been entered, or has been found and not entered yet, then the document that
  it was found in is open or will be open again, it is in the arena of this document as it is now,
  and it is an element. -/
  elements : ∀ S ∈ Stands.start :: Ss, ∀ a ∈ S.live :: S.saved, ∀ id ∈ a.ids,
    ∃ d, a.document = some d ∧ id < d.nodes.size ∧ d.isElement id
  /-- What directives work on is an element of the open document. -/
  element : ∀ c ∈ watched.store.seen, ∀ id, c.element? = some id →
    ∃ d, c.document = some d ∧ id < d.nodes.size ∧ d.isElement id
  /-- A document is changed at this element only, and what is taken away are elements, up to the
  last one. -/
  changes : ∀ S T, [S, T] <:+: Stands.start :: Ss → T.saved = S.saved →
    ∀ d d', S.live.document = some d → T.live.document = some d' → d' = d ∨
      ∃ e : Change, e.ActsOn d (S.live.spot.cursor.getD d.root) ∧
        d.isElement (S.live.spot.cursor.getD d.root) ∧ e.apply d = .ok d' ∧
        ∀ done rest, e = .detach (done ++ rest) →
          ∀ target ∈ rest, (done.foldl Document.detach d).isElement target

/-- Between two contexts of one script in which a document is open, the document is the same, or it
has been changed at the element that directives work on. -/
theorem Move.document {S T : Stands} (h : Move S T) (hS : S.Safe) (hsaved : T.saved = S.saved)
    {d d' : Document} (hd : S.live.document = some d) (hd' : T.live.document = some d') :
    d' = d ∨ ∃ e : Change, e.ActsOn d (S.live.spot.cursor.getD d.root) ∧
      d.isElement (S.live.spot.cursor.getD d.root) ∧ e.apply d = .ok d' ∧
      ∀ done rest, e = .detach (done ++ rest) →
        ∀ target ∈ rest, (done.foldl Document.detach d).isElement target := by
  have same {document : Option Document} (h : document = some d) (h' : document = some d') :
      d' = d := Option.some.inj (h'.symm.trans h)
  cases h with
  | changes hacts happly =>
    cases hd
    cases hd'
    refine .inr ⟨_, hacts, (hS _ List.mem_cons_self).isElement, happly, ?_⟩
    rintro done rest rfl
    exact hacts.detaching
  | stays | continues | leaves | fails => exact .inl (same hd hd')
  | finds => exact .inl (same hd hd')
  | opens | starts => exact absurd hsaved (List.cons_ne_self _ _)
  | returns => exact absurd hsaved.symm (List.cons_ne_self _ _)

omit [DocumentStore σ] in
/-- What is known of stands that move into each other holds of a run that has them. -/
theorem Secures.of_trail {o : Outcome σ} {watched : Outcome (Watched σ)} {Ss : List Stands}
    {S : Stands} (same : watched.erase = o)
    (seen : watched.store.seen.map Context.sight = Ss.map Stands.sight)
    (trail : Trail .start Ss S) : Secures o watched Ss := by
  have safe := trail.safe .start
  refine ⟨same, seen, trail.isChain, fun S hS a ha d => (safe S hS a ha).reachable,
    fun S hS a ha id hid => ?_, fun c hc id hid => ?_, fun S T hmove hsaved d d' hd hd' => ?_⟩
  · obtain ⟨d, hd, helement⟩ := (safe S hS a ha).elements id hid
    exact ⟨d, hd, Document.lt_size_of_isElement helement, helement⟩
  · have hshown : c.sight ∈ Ss.map Stands.sight := seen ▸ List.mem_map_of_mem hc
    obtain ⟨S, hS, hsight⟩ := List.mem_map.mp hshown
    obtain ⟨hdocument, hcursor⟩ := Prod.ext_iff.mp hsight
    have hid : S.live.spot.cursor.or (S.live.document.map (·.root)) = some id := by
      rw [show S.live.spot.cursor = c.cursor from hcursor,
        show S.live.document = c.document from hdocument]
      exact hid
    have hlive := safe S (List.mem_cons_of_mem _ hS) S.live List.mem_cons_self
    obtain ⟨d, hd, helement⟩ := hlive.element hid
    exact ⟨d, hdocument.symm.trans hd, Document.lt_size_of_isElement helement, helement⟩
  · have hS : S ∈ Stands.start :: Ss := hmove.subset List.mem_cons_self
    have hmove := trail.isChain.infix hmove
    exact (List.isChain_pair.mp hmove).document (safe S hS) hsaved hd hd'

/-- A run that goes from the start is secure. -/
theorem Secures.of_going {host : Host} {store : σ} {x : Eval (Watched σ) (List Diagnostic)}
    {y : Eval σ (List Diagnostic)} (hsame : (Watched.wrapping σ).Follows x y) (h : Going x) :
    ∃ Ss, Secures (.of host store y) (.of host (.new store) x) Ss := by
  obtain ⟨Ss, hseen, htrail⟩ := (h (.new host (.new store))).through [] []
  exact ⟨Ss, .of_trail (Wrapping.outcome_of host (Watched.new store) hsame) hseen htrail⟩

/-- In every run, of a source or of a script of a table, whatever it enters and however it ends,
the elements that it works on are safe.  In every context that it comes to, if an element has been
entered, a document is open and the element is one of its arena and an element node.  So are the
elements that were entered before and will be come back to, and those that a directive has found
and not entered yet, whatever has been appended and taken away since.  A document is changed at
the element that directives work on only, and this is the same before and after a term is run. -/
theorem cursors_are_safe (hσ : GivesReachable σ) (host : Host) (store : σ) :
    (∀ source, ∃ Ss, Secures (runSource host store source)
      (runSource host (Watched.new store) source) Ss) ∧
    (∀ name, ∃ Ss, Secures (runScript host store name)
      (runScript host (Watched.new store) name) Ss) ∧
    ∀ (scripts presets : Nat) (t : Term Nat) (s : Session σ),
      (eval (waysAt host scripts presets) t s).2.context.element? = s.context.element? := by
  refine ⟨fun source => ?_, fun name => ?_, fun scripts presets t s => ?_⟩
  · exact Secures.of_going (.runAt host host.levels [] source)
      (.runAt hσ host host.levels [] source)
  · unfold runScript
    cases host.sources.resolve name with
    | error e => exact Secures.of_going (.fault e) (.fault e)
    | ok source =>
      exact Secures.of_going (.runAt host host.levels [name] source)
        (.runAt hσ host host.levels [name] source)
  · have same := (Watched.wrapping σ).follows_eval host scripts presets t s.watched
    have hgoes := Going.eval hσ (Going.waysAt hσ host scripts presets) t s.watched
    exact (congrArg (·.2.context.element?) same).trans hgoes.element?

/-- An element is taken away while it is the one that directives work on, and changed then. -/
theorem cursors_are_safe_when_detached :
    let source := "file 'd' \x7b change 'a' \x7b remove all '../a' set 'x' = 1 \x7d \x7d"
    let store : MemoryStore := ⟨[("d", "<r><a /></r>")]⟩
    let watched := runSource ⟨[], 7⟩ (Watched.new store) source
    GivesReachable MemoryStore ∧
      (runSource ⟨[], 7⟩ store source).store.text? "d" = some "<r />" ∧
      watched.store.seen.map (·.cursor) =
        [none, none, none, some 2, some 2, some 2, none, none, none] ∧
      ∃ Ss, Secures (runSource ⟨[], 7⟩ store source) watched Ss := by
  refine ⟨MemoryStore.givesReachable, by decide +kernel, by decide +kernel, ?_⟩
  exact (cursors_are_safe MemoryStore.givesReachable ⟨[], 7⟩ _).1 _

end PatchScript.Run
