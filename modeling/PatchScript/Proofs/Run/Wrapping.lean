import PatchScript.Proofs.Run.Congruence
import PatchScript.Proofs.Run.Steps
import PatchScript.Run.Program

/-!
# Stores that hold another store

A store may hold another one, do what that one does, and keep something besides: what it has
been told, or what has been written to it.  No run can see this.  So a run on the store around
gives the same, faults included, as the run on the store inside, and leaves that store as the
run does (`Wrapping.outcome_runSource`, `Wrapping.outcome_runScript`).
-/

namespace PatchScript.Run

open Script (Term)
open Eval

variable {σ τ α β : Type} [DocumentStore τ] [DocumentStore σ]

/-- A store `τ` does what the store `σ` inside of it does. -/
structure Wrapping (τ σ : Type) [DocumentStore τ] [DocumentStore σ] where
  /-- The store inside. -/
  inner : τ → σ
  loads (t : τ) (path : String) : DocumentStore.load t path = DocumentStore.load (inner t) path
  persists (t : τ) (path : String) (d : Xml.Document) :
    (DocumentStore.persist t path d).map inner = DocumentStore.persist (inner t) path d
  notes (t : τ) (c : Context) : inner (DocumentStore.note t c) = DocumentStore.note (inner t) c

namespace Wrapping

/-- The session on the store inside. -/
def session (W : Wrapping τ σ) (s : Session τ) : Session σ := ⟨s.context, W.inner s.store, s.calls⟩

/-- The outcome on the store inside. -/
def outcome (W : Wrapping τ σ) (o : Outcome τ) : Outcome σ := ⟨o.result, W.inner o.store, o.calls⟩

/-! ## Steps -/

/-- A step does on the store around what the other step does on the store inside. -/
def Follows (W : Wrapping τ σ) (x : Eval τ α) (y : Eval σ α) : Prop :=
  ∀ s, y (W.session s) = ((x s).1, W.session (x s).2)

variable {W : Wrapping τ σ}

theorem session_comeTo (s : Session τ) (c : Context) :
    W.session (s.comeTo c) = (W.session s).comeTo c :=
  congrArg (Session.mk c · s.calls) (W.notes s.store c)

namespace Follows

/-- What the two steps do is enough to tell that the one does what the other does. -/
theorem of_run {x : Eval τ α} {y : Eval σ α} {s t : Session τ}
    {r : Except Fault α} (hx : x s = (r, t)) (hy : y (W.session s) = (r, W.session t)) :
    y (W.session s) = ((x s).1, W.session (x s).2) := by
  rw [hy, hx]

theorem ret (a : α) : W.Follows (pure a) (pure a) := fun _ => rfl

theorem fault (e : Fault) : W.Follows (α := α) (throw e) (throw e) := fun _ => rfl

theorem look : W.Follows context context := fun _ => rfl

theorem seq {x : Eval τ α} {y : Eval σ α} {f : α → Eval τ β}
    {g : α → Eval σ β} (hx : W.Follows x y) (hf : ∀ a, W.Follows (f a) (g a)) :
    W.Follows (x >>= f) (y >>= g) := by
  intro s
  have hy := hx s
  cases hr : x s with
  | mk r t =>
    rw [hr] at hy
    cases r with
    | ok a => rw [bind_run_ok hr, bind_run_ok hy, hf a t]
    | error e => rw [bind_run_error hr, bind_run_error hy]

theorem ask (question : Xml.Document → Except XPath.Error α) (none' : α) :
    W.Follows (ask question none') (ask question none') := by
  intro s
  cases h : s.context.document with
  | none => exact of_run (ask_run_none h) (ask_run_none (s := W.session s) h)
  | some d => exact of_run (ask_run_some h) (ask_run_some (s := W.session s) h)

theorem modify (f : Context → Context) : W.Follows (modifyContext f) (modifyContext f) := by
  intro s
  refine of_run (modifyContext_run f s) ?_
  rw [modifyContext_run, session_comeTo]
  rfl

theorem within {enter : Context → Context} {leave : Context → Context → Context}
    {x : Eval τ α} {y : Eval σ α} (h : W.Follows x y) :
    W.Follows (within enter leave x) (within enter leave y) := by
  intro s
  have hin := h (s.comeTo (enter s.context))
  rw [session_comeTo] at hin
  rw [within_run, within_run, show (W.session s).context = s.context from rfl, hin, session_comeTo]
  rfl

theorem bindName (name : String) (b : Binding) :
    W.Follows (bindName name b) (bindName name b) := by
  intro s
  cases h : s.context.bind name b with
  | ok c =>
    refine of_run (bindName_run_ok h) ?_
    rw [bindName_run_ok (s := W.session s) h, session_comeTo]
  | error e => exact of_run (bindName_run_error h) (bindName_run_error (s := W.session s) h)

theorem change (f : Xml.Document → Except Xml.Error (Xml.Document × α)) :
    W.Follows (change f) (change f) := by
  intro s
  cases h : s.context.document with
  | none => exact of_run (change_run_none h) (change_run_none (s := W.session s) h)
  | some d =>
    cases hf : f d with
    | ok r =>
      refine of_run (change_run_ok h hf) ?_
      rw [change_run_ok (s := W.session s) h hf, session_comeTo]
      rfl
    | error e => exact of_run (change_run_error h hf) (change_run_error (s := W.session s) h hf)

theorem load (path : String) : W.Follows (load path) (load path) := by
  intro s
  refine of_run (load_run path s) ?_
  rw [load_run, W.loads]
  rfl

theorem persist (path : String) (d : Xml.Document) :
    W.Follows (persist path d) (persist path d) := by
  intro s
  have hinside := W.persists s.store path d
  cases h : DocumentStore.persist s.store path d with
  | ok store =>
    rw [h] at hinside
    exact of_run (persist_run_ok h) (persist_run_ok (s := W.session s) hinside.symm)
  | error e =>
    rw [h] at hinside
    exact of_run (persist_run_error h) (persist_run_error (s := W.session s) hinside.symm)

theorem inPreset (p : Preset) {x : Eval τ α} {y : Eval σ α} (h : W.Follows x y) :
    W.Follows (inPreset p x) (inPreset p y) := by
  refine look.seq fun c => ?_
  cases c.activeFrom p.mark with
  | nil => exact h.within
  | cons q qs => exact fault _

theorem openFile (path : String) {x : Eval τ Unit} {y : Eval σ Unit}
    (h : W.Follows x y) : W.Follows (openFile path x) (openFile path y) := by
  refine (load path).seq fun d => ?_
  cases d with
  | none => exact modify _
  | some d =>
    have inside : W.Follows (onDocument d x) (onDocument d y) :=
      (h.seq fun _ => look.seq fun _ => ret _).within
    refine inside.seq fun r => ?_
    obtain ⟨-, after⟩ := r
    cases after with
    | some d => exact persist path d
    | none => exact ret _

theorem file {w : Ways τ} {w' : Ways σ} {path : Term Nat} {body : List (Term Nat)}
    (hpath : W.Follows (eval w path) (eval w' path))
    (hbody : W.Follows (evalBody w body) (evalBody w' body)) :
    W.Follows (eval w (.file path body)) (eval w' (.file path body)) := by
  rw [eval, eval]
  refine look.seq fun c => ?_
  dsimp only
  split
  · exact (modify _).seq fun _ => ret _
  · exact hpath.seq fun at' => (hbody.openFile _).seq fun _ => ret _

/-- Following is a relation that every way to put steps together keeps. -/
def congruence (W : Wrapping τ σ) : Congruence τ σ (fun _ => True) fun _ => True where
  related := W.Follows
  follows _ _ := True
  ret := ret
  seq := seq
  look hf := look.seq fun c => hf c fun _ _ _ _ _ => trivial
  fault _ := fault _
  binds name b _ := bindName name b
  skips _ := modify _
  asks none' _ := ask _ none'
  changes _ := change _
  elements _ _ _ h := h.within
  files _ hpath hbody := hpath.file hbody

/-! ## Runs -/

theorem along {w : Ways τ} {w' : Ways σ}
    (hbody : ∀ body, W.Follows (w.body body) (w'.body body))
    (hscript : ∀ name, W.Follows (w.script name) (w'.script name)) :
    (congruence W).Along w w' where
  follows := trivial
  preset p values _ := by
    have filled := (congruence W).bindParams p.name 0 p.params values
    exact (seq filled fun _ => hbody p.body).inPreset p
  script name _ := hscript name

/-- Of the presets and scripts that terms lead to nothing has to be known. -/
theorem covered (ts : List (Term Nat)) : CoveredAll (fun _ => True) (fun _ => True) ts :=
  .of_forall ts (fun _ _ => trivial) fun _ _ => trivial

theorem bodyAt {script : String → Eval τ Unit} {script' : String → Eval σ Unit}
    (h : ∀ name, W.Follows (script name) (script' name)) :
    ∀ (levels : Nat) (body : List (Term Nat)),
    W.Follows (bodyAt script levels body) (bodyAt script' levels body) := by
  intro levels
  induction levels with
  | zero => exact fun _ => fault .levels
  | succ n ih => exact fun body => Congruence.evalBody (along ih h) body (covered body)

/-- The ways out of terms do the same, if those to scripts do. -/
theorem waysOut {script : String → Eval τ Unit} {script' : String → Eval σ Unit}
    (h : ∀ name, W.Follows (script name) (script' name)) (body : List (Term Nat))
    {f : Ways τ → Eval τ α} {g : Ways σ → Eval σ α}
    (hf : ∀ {w w'}, (congruence W).Along w w' → W.Follows (f w) (g w')) :
    W.Follows (waysOut script body >>= f) (waysOut script' body >>= g) := by
  intro s
  have out : Run.waysOut script body s =
      (.ok ⟨Run.bodyAt script (Script.presetsOf body + s.context.presets + 1), script⟩, s) := rfl
  have out' : Run.waysOut script' body (W.session s) =
      (.ok ⟨Run.bodyAt script' (Script.presetsOf body + s.context.presets + 1), script'⟩,
        W.session s) := rfl
  rw [bind_run_ok out, bind_run_ok out']
  exact hf (along (bodyAt h _) h) s

theorem runTerms {script : String → Eval τ Unit} {script' : String → Eval σ Unit}
    (h : ∀ name, W.Follows (script name) (script' name)) (body : List (Term Unit)) :
    W.Follows (runTerms script body) (runTerms script' body) := by
  have counted : W.Follows (numbered body) (numbered body) :=
    look.seq fun c => (modify _).seq fun _ => ret _
  refine counted.seq fun body => waysOut h body fun hw => ?_
  exact Congruence.evalBody hw body (covered body)

theorem includeWith (host : Host)
    {run : List String → String → Eval τ (List Diagnostic)}
    {run' : List String → String → Eval σ (List Diagnostic)}
    (h : ∀ chain source, W.Follows (run chain source) (run' chain source)) (name : String) :
    W.Follows (includeWith host run name) (includeWith host run' name) := by
  have told (ds : List Diagnostic) : W.Follows
      (ds.forM fun d => modifyContext (·.diagnose d))
      (ds.forM fun d => modifyContext (·.diagnose d)) :=
    (congruence W).forM ds fun d => modify _
  refine look.seq fun c => ?_
  dsimp only
  cases host.sources.resolve name with
  | error e =>
    split
    · exact (fault _).seq fun _ => fault e
    · exact fault e
  | ok source =>
    have entered := (h (c.chain ++ [name]) source).seq told
    split
    · exact (fault _).seq fun _ => entered
    · exact entered

theorem runAt (host : Host) : ∀ (levels : Nat) (chain : List String) (source : String),
    W.Follows (runAt host levels chain source) (runAt host levels chain source) := by
  intro levels
  induction levels with
  | zero => exact fun _ _ => fault .levels
  | succ n ih =>
    intro chain source
    unfold Run.runAt
    cases Script.read source with
    | error e => exact fault (.source e)
    | ok body =>
      have run := runTerms (includeWith host ih) body
      exact (run.seq fun _ => look.seq fun c => ret _).within

end Follows

/-! ## Outcomes -/

theorem outcome_of (host : Host) (store : τ) {x : Eval τ (List Diagnostic)}
    {y : Eval σ (List Diagnostic)} (h : W.Follows x y) :
    W.outcome (.of host store x) = .of host (W.inner store) y := by
  have hrun : y (.new host (W.inner store)) = _ := h (.new host store)
  unfold Outcome.of
  rw [hrun]
  rfl

/-- A run on the store around does what the run on the store inside does. -/
theorem outcome_runSource (W : Wrapping τ σ) (host : Host) (store : τ) (source : String) :
    W.outcome (runSource host store source) = runSource host (W.inner store) source :=
  outcome_of host store (.runAt host host.levels [] source)

@[inherit_doc outcome_runSource]
theorem outcome_runScript (W : Wrapping τ σ) (host : Host) (store : τ) (name : String) :
    W.outcome (runScript host store name) = runScript host (W.inner store) name := by
  refine outcome_of host store ?_
  cases host.sources.resolve name with
  | error e => exact .fault e
  | ok source => exact .runAt host host.levels [name] source

end Wrapping

end PatchScript.Run
