import PatchScript.Proofs.Run.Families
import PatchScript.Proofs.Run.Isolation
import PatchScript.Run.Program

/-!
# What steps do not see

What was told before a step, and what the store was asked before, makes no difference to
the step, and of the sentinel it sees little.  A *veil* puts other texts in these places: it
replaces the sentinel, and it puts diagnostics and calls in front of those that there are.
Steps are `Veiled` by a family of veils if they do the same under each of them, which the
basic steps are.

Some steps see through a veil, and then less is known of them.  `UnderVeils` is for what is
known of families of steps in general: it holds of the steps that are veiled and is kept by
steps one after the other, by a look at the context and by guards.  So it is kept by
whatever the evaluator enters and leaves.
-/

namespace PatchScript.Run

open Script (Term)
open Eval

variable {σ α β ι : Type}

/-! ## Veils -/

/-- Another sentinel, and what was told and asked before. -/
structure Veil where
  /-- The sentinel in place of one. -/
  sentinel : String → String
  /-- What was told before, the oldest first. -/
  diagnostics : List Diagnostic
  /-- What the store was asked before, the oldest first. -/
  calls : List StoreCall

namespace Veil

variable (v : Veil)

/-- The context under the veil. -/
def context (c : Context) : Context :=
  { c with sentinel := v.sentinel c.sentinel, diagnostics := v.diagnostics ++ c.diagnostics }

/-- The session under the veil. -/
def session (s : Session σ) : Session σ :=
  { s with context := v.context s.context, calls := v.calls ++ s.calls }

theorem looks (c : Context) : (v.context c).LooksLike c := ⟨rfl, rfl, rfl, rfl⟩

theorem bind (c : Context) (name : String) (b : Binding) :
    (v.context c).bind name b = (c.bind name b).map v.context := by
  have sameScope : (v.context c).innermost = c.innermost := rfl
  have sameFrames : (v.context c).frames = c.frames := rfl
  rw [Context.bind, Context.bind, sameScope, sameFrames]
  split
  · rfl
  · cases c.frames <;> rfl

theorem diagnose (c : Context) (d : Diagnostic) :
    (v.context c).diagnose d = v.context (c.diagnose d) := by
  rw [Context.diagnose, Context.diagnose, context, context, List.append_assoc]

/-- A session comes to a context under the veil as it comes to the context. -/
theorem comeTo [DocumentStore σ] (hσ : Unnoticing σ) (s : Session σ) (c : Context) :
    (v.session s).comeTo (v.context c) = v.session (s.comeTo c) := by
  have sameStore : DocumentStore.note s.store (v.context c) = DocumentStore.note s.store c :=
    (hσ _ _).trans (hσ _ _).symm
  rw [Session.comeTo, Session.comeTo, session, session, sameStore]

end Veil

/-! ## Veiled steps -/

/-- Steps, one for each index, that do the same in every session under the veils. -/
def Veiled (veil : ι → Veil) (x : ι → Eval σ α) : Prop :=
  ∀ s, ∃ (t : Session σ) (r : Except Fault α), ∀ i,
    x i ((veil i).session s) = (r, (veil i).session t)

namespace Veiled

variable {veil : ι → Veil}

theorem ret (a : α) : Veiled (σ := σ) veil fun _ => pure a := fun s => ⟨s, .ok a, fun _ => rfl⟩

theorem fault (e : Fault) : Veiled (σ := σ) (α := α) veil fun _ => throw e :=
  fun s => ⟨s, .error e, fun _ => rfl⟩

theorem seq {x : ι → Eval σ α} {f : ι → α → Eval σ β} (hx : Veiled veil x)
    (hf : ∀ a, Veiled veil (f · a)) : Veiled veil fun i => x i >>= f i := by
  intro s
  obtain ⟨t, r, hrun⟩ := hx s
  cases r with
  | error e => exact ⟨t, .error e, fun i => bind_run_error (hrun i) (f i)⟩
  | ok a =>
    obtain ⟨u, r, hrun'⟩ := hf a t
    exact ⟨u, r, fun i => (bind_run_ok (hrun i) (f i)).trans (hrun' i)⟩

theorem look {f : ι → Context → Eval σ β}
    (hf : ∀ c : Context, Veiled veil fun i => f i ((veil i).context c)) :
    Veiled veil fun i => context >>= f i := by
  intro s
  obtain ⟨t, r, hrun⟩ := hf s.context s
  exact ⟨t, r, fun i => (context_bind_run (f i) _).trans (hrun i)⟩

theorem ask (question : Xml.Document → Except XPath.Error α) (none' : α) :
    Veiled (σ := σ) veil fun _ => ask question none' := by
  intro s
  cases h : s.context.document with
  | none => exact ⟨s, .ok none', fun i => ask_run_none (s := (veil i).session s) h⟩
  | some d =>
    exact ⟨s, (question d).mapError .xpath, fun i => ask_run_some (s := (veil i).session s) h⟩

/-- What the store was asked before stays in front. -/
theorem called (v : Veil) (s : Session σ) (call : StoreCall) (store : σ) :
    ({ v.session s with calls := (v.session s).calls ++ [call], store } : Session σ) =
      v.session { s with calls := s.calls ++ [call], store } := by
  rw [Veil.session, Veil.session, List.append_assoc]

variable [DocumentStore σ]

theorem load (path : String) : Veiled (σ := σ) veil fun _ => load path := fun s =>
  ⟨{ s with calls := s.calls ++ [.load path] }, DocumentStore.load s.store path, fun i =>
    (load_run path ((veil i).session s)).trans
      (congrArg (Prod.mk _) (called (veil i) s (.load path) s.store))⟩

theorem persist (path : String) (d : Xml.Document) :
    Veiled (σ := σ) veil fun _ => persist path d := by
  intro s
  cases h : DocumentStore.persist s.store path d with
  | ok store =>
    refine ⟨{ s with calls := s.calls ++ [.persist path], store }, .ok (), fun i => ?_⟩
    have hcalled := called (veil i) s (.persist path) store
    exact (persist_run_ok (s := (veil i).session s) h).trans (congrArg (Prod.mk _) hcalled)
  | error e =>
    refine ⟨{ s with calls := s.calls ++ [.persist path] }, .error e, fun i => ?_⟩
    have hcalled := called (veil i) s (.persist path) s.store
    exact (persist_run_error (s := (veil i).session s) h).trans (congrArg (Prod.mk _) hcalled)

variable (hσ : Unnoticing σ)

include hσ

theorem modify {f : ι → Context → Context} (f' : Context → Context)
    (hf : ∀ i c, f i ((veil i).context c) = (veil i).context (f' c)) :
    Veiled (σ := σ) veil fun i => modifyContext (f i) := by
  intro s
  refine ⟨s.comeTo (f' s.context), .ok (), fun i => ?_⟩
  have came : ((veil i).session s).comeTo (f i ((veil i).session s).context) = _ :=
    (congrArg _ (hf i s.context)).trans ((veil i).comeTo hσ s _)
  exact (modifyContext_run (f i) _).trans (congrArg (Prod.mk _) came)

theorem tells (d : Diagnostic) : Veiled (σ := σ) veil fun _ => modifyContext (·.diagnose d) :=
  modify hσ (·.diagnose d) fun i c => (veil i).diagnose c d

theorem bindName (name : String) (b : Binding) :
    Veiled (σ := σ) veil fun _ => bindName name b := by
  intro s
  have bound (i : ι) := (veil i).bind s.context name b
  cases h : s.context.bind name b with
  | ok c =>
    refine ⟨s.comeTo c, .ok (), fun i => ?_⟩
    have hbound := bound i
    rw [h] at hbound
    exact (bindName_run_ok (s := (veil i).session s) hbound).trans
      (congrArg (Prod.mk _) ((veil i).comeTo hσ s c))
  | error e =>
    refine ⟨s, .error e, fun i => ?_⟩
    have hbound := bound i
    rw [h] at hbound
    exact bindName_run_error (s := (veil i).session s) hbound

theorem change (f : Xml.Document → Except Xml.Error (Xml.Document × α)) :
    Veiled (σ := σ) veil fun _ => change f := by
  intro s
  cases h : s.context.document with
  | none => exact ⟨s, .ok none, fun i => change_run_none (s := (veil i).session s) h⟩
  | some d =>
    cases hf : f d with
    | ok r =>
      obtain ⟨d', a⟩ := r
      let changed : Context := { s.context with document := some d' }
      refine ⟨s.comeTo changed, .ok (some a), fun i => ?_⟩
      exact (change_run_ok (s := (veil i).session s) h hf).trans
        (congrArg (Prod.mk _) ((veil i).comeTo hσ s changed))
    | error e =>
      exact ⟨s, .error (.xml e), fun i => change_run_error (s := (veil i).session s) h hf⟩

theorem within {enter : ι → Context → Context} (enter' : Context → Context)
    {leave : Context → Context → Context} {x : ι → Eval σ α} (hx : Veiled veil x)
    (henter : ∀ i c, enter i ((veil i).context c) = (veil i).context (enter' c))
    (hleave : ∀ i before c, leave ((veil i).context before) ((veil i).context c) =
      (veil i).context (leave before c)) :
    Veiled veil fun i => within (enter i) leave (x i) := by
  intro s
  obtain ⟨t, r, hrun⟩ := hx (s.comeTo (enter' s.context))
  refine ⟨t.comeTo (leave s.context t.context), r, fun i => ?_⟩
  have entered : ((veil i).session s).comeTo (enter i ((veil i).session s).context) =
      (veil i).session (s.comeTo (enter' s.context)) :=
    (congrArg _ (henter i s.context)).trans ((veil i).comeTo hσ ..)
  refine (within_run ..).trans ?_
  rw [entered, hrun]
  show (r, ((veil i).session t).comeTo
    (leave ((veil i).context s.context) ((veil i).context t.context))) = _
  rw [hleave, (veil i).comeTo hσ]

end Veiled

/-! ## What is entered and left -/

/-- What is known of families of steps, some of which see through the veils: it holds of steps
that are veiled, and is kept where they are put together. -/
structure UnderVeils (σ : Type) [DocumentStore σ] (veil : ι → Veil) where
  /-- What is known. -/
  holds : {α : Type} → (ι → Eval σ α) → Prop
  veiled {α : Type} {x : ι → Eval σ α} : Veiled veil x → holds x
  seq {α β : Type} {x : ι → Eval σ α} {f : ι → α → Eval σ β} :
    holds x → (∀ a, holds (f · a)) → holds fun i => x i >>= f i
  look {β : Type} {f : ι → Context → Eval σ β} :
    (∀ c : Context, holds fun i => f i ((veil i).context c)) → holds fun i => context >>= f i
  within {α : Type} {enter : ι → Context → Context} (enter' : Context → Context)
    {leave : Context → Context → Context} {x : ι → Eval σ α} : holds x →
    (∀ i c, enter i ((veil i).context c) = (veil i).context (enter' c)) →
    (∀ i before c, leave ((veil i).context before) ((veil i).context c) =
      (veil i).context (leave before c)) →
    holds fun i => within (enter i) leave (x i)

/-- Being veiled is kept where steps are put together. -/
def Veiled.underVeils [DocumentStore σ] (hσ : Unnoticing σ) (veil : ι → Veil) :
    UnderVeils σ veil where
  holds := Veiled veil
  veiled := id
  seq := .seq
  look := .look
  within enter' _ _ hx henter hleave := .within hσ enter' hx henter hleave

namespace UnderVeils

variable [DocumentStore σ] {veil : ι → Veil} (P : UnderVeils σ veil)

theorem ret (a : α) : P.holds fun _ => pure a := P.veiled (.ret a)

theorem atElement (id : Xml.NodeId) {x : ι → Eval σ α} (hx : P.holds x) :
    P.holds fun i => atElement id (x i) :=
  P.within (·.enterElement id) hx (fun _ _ => rfl) fun _ _ _ => rfl

theorem inPreset (p : Preset) {x : ι → Eval σ α} (hx : P.holds x) :
    P.holds fun i => inPreset p (x i) := by
  refine P.look fun c => ?_
  have sameActive (i : ι) : ((veil i).context c).activeFrom p.mark = c.activeFrom p.mark := rfl
  simp only [sameActive]
  cases c.activeFrom p.mark with
  | nil => exact P.within (·.enterPreset p) hx (fun _ _ => rfl) fun _ _ _ => rfl
  | cons q qs => exact P.veiled (.fault _)

theorem onDocument (d : Xml.Document) {x : ι → Eval σ α} (hx : P.holds x) :
    P.holds fun i => onDocument d (x i) := by
  have handed : P.holds fun i => do let answer ← x i; return (answer, (← context).document) :=
    P.seq hx fun a => P.look fun c => P.ret (a, c.document)
  exact P.within (·.enterDocument d) handed (fun _ _ => rfl) fun _ _ _ => rfl

variable (hσ : Unnoticing σ)

include hσ

theorem openFile (path : String) {x : ι → Eval σ Unit} (hx : P.holds x) :
    P.holds fun i => openFile path (x i) := by
  refine P.seq (P.veiled (.load path)) fun d => ?_
  cases d with
  | none => exact P.veiled (.tells hσ _)
  | some d =>
    refine P.seq (P.onDocument d hx) fun r => ?_
    obtain ⟨-, after⟩ := r
    cases after with
    | some d => exact P.veiled (.persist path d)
    | none => exact P.ret _

theorem file {w : ι → Ways σ} {path : Term Nat} {body : List (Term Nat)}
    (hpath : P.holds fun i => eval (w i) path) (hbody : P.holds fun i => evalBody (w i) body) :
    P.holds fun i => eval (w i) (.file path body) := by
  simp only [eval]
  refine P.look fun c => ?_
  have sameDocument (i : ι) : ((veil i).context c).document = c.document := rfl
  simp only [sameDocument]
  by_cases hopen : c.document.isSome
  · simp only [hopen, if_true]
    exact P.seq (P.veiled (.tells hσ _)) fun _ => P.ret _
  · simp only [hopen, Bool.false_eq_true, if_false]
    exact P.seq hpath fun at' => P.seq (P.openFile hσ _ hbody) fun _ => P.ret _

/-! ### Scripts -/

theorem numbered (body : List (Term Unit)) : P.holds fun _ => numbered body := by
  refine P.look fun c => ?_
  let given := Script.numberAll c.nextMark body
  have renumbered : Veiled (σ := σ) veil fun _ =>
      modifyContext fun c => { c with nextMark := given.2 } :=
    .modify hσ (fun c => { c with nextMark := given.2 }) fun _ _ => rfl
  exact P.seq (P.veiled renumbered) fun _ => P.ret given.1

/-- How deep presets can nest is counted in the context, and is the same under all veils. -/
theorem runTerms {script : ι → String → Eval σ Unit}
    (h : ∀ levels body, P.holds fun i => evalBody ⟨bodyAt (script i) levels, script i⟩ body)
    (body : List (Term Unit)) : P.holds fun i => runTerms (script i) body := by
  refine P.seq (P.numbered hσ body) fun body => ?_
  simp only [waysOut, bind_assoc, pure_bind]
  refine P.look fun c => ?_
  have samePresets (i : ι) : ((veil i).context c).presets = c.presets := rfl
  simp only [samePresets]
  exact h _ body

theorem told (ds : List Diagnostic) :
    P.holds fun _ => ds.forM fun d => modifyContext (·.diagnose d) := by
  induction ds with
  | nil => exact P.ret ()
  | cons d ds ih => exact P.seq (P.veiled (.tells hσ d)) fun _ => ih

theorem includeWith (sources : Sources) (host : ι → Host) (hhost : ∀ i, (host i).sources = sources)
    {run : ι → List String → String → Eval σ (List Diagnostic)}
    (hrun : ∀ chain source, P.holds fun i => run i chain source) (name : String) :
    P.holds fun i => includeWith (host i) (run i) name := by
  simp only [Run.includeWith, hhost]
  refine P.look fun c => ?_
  have sameChain (i : ι) : ((veil i).context c).chain = c.chain := rfl
  have entered (source : String) := P.seq (hrun (c.chain ++ [name]) source) (P.told hσ)
  simp only [sameChain]
  by_cases hcycle : name ∈ c.chain
  · simp only [hcycle, if_true]
    cases sources.resolve name with
    | error e => exact P.seq (P.veiled (.fault _)) fun _ => P.veiled (.fault e)
    | ok source => exact P.seq (P.veiled (.fault _)) fun _ => entered source
  · simp only [hcycle, if_false]
    cases sources.resolve name with
    | error e => exact P.veiled (.fault e)
    | ok source => exact entered source

end UnderVeils

end PatchScript.Run
