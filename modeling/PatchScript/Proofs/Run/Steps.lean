import PatchScript.Run.Session

/-!
# What the basic steps do

A step is a function from a session to a result and a session.  Here each basic step
is applied to a session, so that no proof about steps has to open one.
-/

namespace PatchScript.Run

open Eval

variable {σ α β : Type}

namespace Eval

/-! ## Putting steps together -/

theorem pure_run (a : α) (s : Session σ) : (pure a : Eval σ α) s = (.ok a, s) := rfl

theorem throw_run (e : Fault) (s : Session σ) : (throw e : Eval σ α) s = (.error e, s) := rfl

theorem bind_run_ok {x : Eval σ α} {s t : Session σ} {a : α} (h : x s = (.ok a, t))
    (f : α → Eval σ β) : (x >>= f) s = f a t := by
  show ExceptT.bindCont f (x s).1 (x s).2 = f a t
  rw [h]
  rfl

theorem bind_run_error {x : Eval σ α} {s t : Session σ} {e : Fault} (h : x s = (.error e, t))
    (f : α → Eval σ β) : (x >>= f) s = (.error e, t) := by
  show ExceptT.bindCont f (x s).1 (x s).2 = (.error e, t)
  rw [h]
  rfl

/-- What comes before in a session can be put in another way. -/
theorem bind_run_congr {x y : Eval σ α} {s t : Session σ} (h : x s = y t) (f : α → Eval σ β) :
    (x >>= f) s = (y >>= f) t := by
  show ExceptT.bindCont f (x s).1 (x s).2 = ExceptT.bindCont f (y t).1 (y t).2
  rw [h]

theorem bind_run_eq_ok {x : Eval σ α} {f : α → Eval σ β} {s t : Session σ} {b : β}
    (h : (x >>= f) s = (.ok b, t)) : ∃ a u, x s = (.ok a, u) ∧ f a u = (.ok b, t) := by
  cases hx : x s with
  | mk r u =>
    cases r with
    | ok a =>
      rw [bind_run_ok hx] at h
      exact ⟨a, u, rfl, h⟩
    | error e =>
      rw [bind_run_error hx] at h
      cases h

theorem context_bind_run (f : Context → Eval σ β) (s : Session σ) :
    (context >>= f) s = f s.context s := rfl

/-! ## Questions -/

theorem ask_run_none {question : Xml.Document → Except XPath.Error α} {none' : α} {s : Session σ}
    (h : s.context.document = none) : ask question none' s = (.ok none', s) := by
  rw [ask]
  rw [context_bind_run, h]
  rfl

theorem ask_run_some {question : Xml.Document → Except XPath.Error α} {none' : α} {s : Session σ}
    {d : Xml.Document} (h : s.context.document = some d) :
    ask question none' s = ((question d).mapError .xpath, s) := by
  rw [ask]
  rw [context_bind_run, h]
  dsimp only
  cases question d with
  | ok answer => rfl
  | error e => rfl

end Eval

variable [DocumentStore σ]

@[simp] theorem Session.comeTo_context (s : Session σ) (c : Context) :
    (s.comeTo c).context = c := rfl

@[simp] theorem Session.comeTo_calls (s : Session σ) (c : Context) :
    (s.comeTo c).calls = s.calls := rfl

@[simp] theorem Session.comeTo_store (s : Session σ) (c : Context) :
    (s.comeTo c).store = DocumentStore.note s.store c := rfl

namespace Eval

/-! ## The context -/

theorem modifyContext_run (f : Context → Context) (s : Session σ) :
    modifyContext f s = (.ok (), s.comeTo (f s.context)) := rfl

theorem skip_run (why : Skipped) (s : Session σ) :
    skip why s = (.ok (), s.comeTo (s.context.diagnose why.diagnostic)) := rfl

theorem bindName_run_ok {name : String} {b : Binding} {s : Session σ} {c : Context}
    (h : s.context.bind name b = .ok c) : bindName name b s = (.ok (), s.comeTo c) := by
  rw [bindName]
  rw [context_bind_run, h]
  rfl

theorem bindName_run_error {name : String} {b : Binding} {s : Session σ} {e : Fault}
    (h : s.context.bind name b = .error e) : bindName name b s = (.error e, s) := by
  rw [bindName]
  rw [context_bind_run, h]
  rfl

/-! ## Changes -/

theorem change_run_none {f : Xml.Document → Except Xml.Error (Xml.Document × α)} {s : Session σ}
    (h : s.context.document = none) : change f s = (.ok none, s) := by
  rw [change]
  rw [context_bind_run, h]
  rfl

theorem change_run_ok {f : Xml.Document → Except Xml.Error (Xml.Document × α)} {s : Session σ}
    {d d' : Xml.Document} {a : α} (h : s.context.document = some d) (hf : f d = .ok (d', a)) :
    change f s = (.ok (some a), s.comeTo { s.context with document := some d' }) := by
  rw [change]
  rw [context_bind_run, h]
  dsimp only
  rw [hf]
  rfl

theorem change_run_error {f : Xml.Document → Except Xml.Error (Xml.Document × α)} {s : Session σ}
    {d : Xml.Document} {e : Xml.Error} (h : s.context.document = some d) (hf : f d = .error e) :
    change f s = (.error (.xml e), s) := by
  rw [change]
  rw [context_bind_run, h]
  dsimp only
  rw [hf]
  rfl

/-! ## The store -/

theorem load_run (path : String) (s : Session σ) :
    load path s =
      (DocumentStore.load s.store path, { s with calls := s.calls ++ [.load path] }) := by
  let asked : Session σ := { s with calls := s.calls ++ [.load path] }
  have hget : (get : Eval σ (Session σ)) asked = (.ok asked, asked) := rfl
  refine (bind_run_ok (t := asked) rfl _).trans ((bind_run_ok hget _).trans ?_)
  dsimp only [asked]
  cases DocumentStore.load s.store path with
  | ok d => rfl
  | error e => rfl

theorem persist_run_ok {path : String} {d : Xml.Document} {s : Session σ} {store : σ}
    (h : DocumentStore.persist s.store path d = .ok store) :
    persist path d s = (.ok (), { s with calls := s.calls ++ [.persist path], store }) := by
  let asked : Session σ := { s with calls := s.calls ++ [.persist path] }
  have hget : (get : Eval σ (Session σ)) asked = (.ok asked, asked) := rfl
  refine (bind_run_ok (t := asked) rfl _).trans ((bind_run_ok hget _).trans ?_)
  dsimp only [asked]
  rw [h]
  rfl

theorem persist_run_error {path : String} {d : Xml.Document} {s : Session σ} {e : Fault}
    (h : DocumentStore.persist s.store path d = .error e) :
    persist path d s = (.error e, { s with calls := s.calls ++ [.persist path] }) := by
  let asked : Session σ := { s with calls := s.calls ++ [.persist path] }
  have hget : (get : Eval σ (Session σ)) asked = (.ok asked, asked) := rfl
  refine (bind_run_ok (t := asked) rfl _).trans ((bind_run_ok hget _).trans ?_)
  dsimp only [asked]
  rw [h]
  rfl

/-! ## Entering and leaving -/

theorem within_run (enter : Context → Context) (leave : Context → Context → Context)
    (step : Eval σ α) (s : Session σ) :
    within enter leave step s =
      ((step (s.comeTo (enter s.context))).1,
        (step (s.comeTo (enter s.context))).2.comeTo
          (leave s.context (step (s.comeTo (enter s.context))).2.context)) := rfl

theorem inPreset_run_nil {p : Preset} {step : Eval σ α} {s : Session σ}
    (h : s.context.activeFrom p.mark = []) :
    inPreset p step s = within (·.enterPreset p) Context.leavePreset step s := by
  rw [inPreset]
  rw [context_bind_run, h]

theorem inPreset_run_cons {p q : Preset} {qs : List Preset} {step : Eval σ α} {s : Session σ}
    (h : s.context.activeFrom p.mark = q :: qs) :
    inPreset p step s =
      (.error (.presetRecursion p.name ((q :: qs).map (·.name) ++ [p.name])), s) := by
  rw [inPreset]
  rw [context_bind_run, h]
  rfl

end Eval

end PatchScript.Run
