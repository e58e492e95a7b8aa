import PatchScript.Proofs.Run.Confinement

/-!
# What is told

A run tells of nothing but directives that did nothing, whatever it includes.  A diagnostic is made
where a directive is skipped, and stays as it is where a script hands on what it has told itself
(`reported_of_runScript`).  So a diagnostic is of one of a few sorts.  Its code is fixed, and its
message is a fixed text around one that the script or a document gave, which is quoted as it is.
-/

namespace PatchScript.Run

open Script (Term)
open Eval

/-! ## Diagnostics -/

namespace Skipped

/-- The text that the diagnostic quotes, if it quotes one. -/
def quoted : Skipped → String
  | .cursorMissing directive => directive
  | .elementNotFound selector => selector
  | .elementsNotFound selector => selector
  | .fileNotFound path => path
  | .fileNested => ""
  | .predecessorMissing tag => tag
  | .presetNotFound name => name

/-- The letters and underscores of a code. -/
def isCodeChar (c : Char) : Bool := c.isUpper || c == '_'

theorem isCodeChar_of_mem_code (why : Skipped) :
    ∀ c ∈ why.diagnostic.code.toList, isCodeChar c := by
  have hall : why.diagnostic.code.toList.all isCodeChar := by
    cases why <;> simp only [diagnostic] <;> decide
  exact List.all_eq_true.mp hall

/-- A line ends in a message where it ends in the text that is quoted. -/
theorem lineFeed_mem_message (why : Skipped) :
    '\n' ∈ why.diagnostic.message.toList ↔ '\n' ∈ why.quoted.toList := by
  cases why <;> simp [diagnostic, quoted]

end Skipped

/-- Diagnostics that are about directives that did nothing. -/
def Reported (ds : List Diagnostic) : Prop := ∃ whys : List Skipped, whys.map (·.diagnostic) = ds

namespace Reported

theorem nil : Reported [] := ⟨[], rfl⟩

theorem diagnose {c : Context} (h : Reported c.diagnostics) (why : Skipped) :
    Reported (c.diagnose why.diagnostic).diagnostics := by
  obtain ⟨whys, hwhys⟩ := h
  refine ⟨whys ++ [why], ?_⟩
  rw [List.map_append, hwhys]
  rfl

end Reported

theorem Context.bind_diagnostics {c c' : Context} {name : String} {b : Binding}
    (h : c.bind name b = .ok c') : c'.diagnostics = c.diagnostics := by
  rw [Context.bind] at h
  split at h
  · cases h
  · split at h <;> cases h <;> rfl

/-! ## Steps -/

variable {σ α β : Type} [DocumentStore σ]

/-- That all diagnostics are about directives that did nothing, as an invariance of steps. -/
def reporting (σ : Type) [DocumentStore σ] : Invariance σ fun _ => True where
  holds s := Reported s.context.diagnostics
  leads _ _ := True
  admits _ := True
  refl _ := trivial
  trans _ _ := trivial
  declares _ := fun _ _ _ _ _ => trivial
  raises _ := trivial
  refuses _ := trivial
  recursion _ _ := trivial
  answers _ _ := trivial
  rejects _ _ := trivial
  unloaded _ := trivial
  unwritten _ := trivial
  binds hs hc _ := by
    refine ⟨?_, trivial⟩
    rwa [Session.comeTo_context, Context.bind_diagnostics hc]
  skips why hs := ⟨hs.diagnose why, trivial⟩
  edits hs _ _ _ := ⟨hs, trivial⟩
  asked _ hs := ⟨hs, trivial⟩
  written hs _ := ⟨hs, trivial⟩
  entersElement _ hs := hs
  leavesElement _ ht _ := ⟨ht, trivial⟩
  entersDocument _ hs := hs
  leavesDocument _ ht _ := ⟨ht, trivial⟩

/-- A step that tells only of directives that did nothing. -/
def Reports (x : Eval σ α) : Prop :=
  ∀ s : Session σ, Reported s.context.diagnostics → Reported (x s).2.context.diagnostics

theorem Reports.steady {x : Eval σ α} (h : Reports x) : (reporting σ).Steady x :=
  fun s hs => ⟨h s hs, trivial, fun _ _ => trivial⟩

theorem Reports.of_steady {x : Eval σ α} (h : (reporting σ).Steady x) : Reports x :=
  fun s hs => (h s hs).holds

namespace Reports

theorem fault (e : Fault) : Reports (σ := σ) (α := α) (throw e) :=
  .of_steady ((reporting σ).fault trivial)

theorem seq {x : Eval σ α} {f : α → Eval σ β} (hx : Reports x) (hf : ∀ a, Reports (f a)) :
    Reports (x >>= f) :=
  .of_steady (hx.steady.seq fun a => (hf a).steady)

theorem inPreset (p : Preset) {x : Eval σ α} (hx : Reports x) : Reports (inPreset p x) := by
  intro s hs
  cases h : s.context.activeFrom p.mark with
  | nil =>
    rw [inPreset_run_nil h]
    exact hx (s.comeTo (s.context.enterPreset p)) hs
  | cons q qs =>
    rw [inPreset_run_cons h]
    exact hs

/-! ### Terms -/

theorem ways {w : Ways σ} (hbody : ∀ body, Reports (w.body body))
    (hscript : ∀ name, Reports (w.script name)) : (reporting σ).SteadyWays w where
  preset p values _ := by
    have filled : Reports (bindParams (σ := σ) p.name 0 p.params values) :=
      .of_steady ((reporting σ).bindParams p.name 0 p.params values)
    exact ((filled.seq fun _ => hbody p.body).inPreset p).steady
  script name := (hscript name).steady

theorem bodyAt {script : String → Eval σ Unit} (h : ∀ name, Reports (script name)) :
    ∀ (levels : Nat) (body : List (Term Nat)), Reports (bodyAt script levels body) := by
  intro levels
  induction levels with
  | zero => exact fun _ => .fault .levels
  | succ n ih => exact fun body => .of_steady ((ways ih h).evalBody body fun _ _ => trivial)

theorem runTerms {script : String → Eval σ Unit} (h : ∀ name, Reports (script name))
    (body : List (Term Unit)) : Reports (runTerms script body) := by
  have counted : Reports (σ := σ) (numbered body) := fun _ hs => hs
  refine counted.seq fun body s hs => ?_
  exact bodyAt h (Script.presetsOf body + s.context.presets + 2) body s hs

/-! ### Scripts -/

theorem told (whys : List Skipped) : Reports (σ := σ)
    ((whys.map (·.diagnostic)).forM fun d => modifyContext (·.diagnose d)) := by
  induction whys with
  | nil => exact fun _ hs => hs
  | cons why whys ih => exact seq (.of_steady ((reporting σ).skip why)) fun _ => ih

/-- A script that is included hands on what it has told itself. -/
theorem includeWith (host : Host) {run : List String → String → Eval σ (List Diagnostic)}
    (hrun : ∀ chain source, Reports (run chain source))
    (hresult : ∀ chain source s ds, (run chain source s).1 = .ok ds → Reported ds)
    (name : String) : Reports (includeWith host run name) := by
  intro s hs
  rw [Run.includeWith]
  rw [context_bind_run]
  dsimp only
  split
  · exact hs
  · cases host.sources.resolve name with
    | error e => exact hs
    | ok source =>
      have outside := (hrun (s.context.chain ++ [name]) source).steady s hs
      refine (outside.seq fun ds t hds ht => ?_).holds
      obtain ⟨whys, rfl⟩ := hresult _ _ s ds (by rw [hds])
      exact (told whys).steady t ht

/-- In a context of its own a step starts with nothing told. -/
theorem inNew {x : Eval σ Unit} (hx : Reports x) (seed : UInt32) (chain : List String)
    {s : Session σ} {ds : List Diagnostic}
    (h : (within (fun _ => .new seed chain) (fun before _ => before) (do
      x
      return (← context).diagnostics) s).1 = .ok ds) : Reported ds := by
  obtain ⟨u, hran⟩ : ∃ u, (x >>= fun _ => do return (← context).diagnostics)
      (s.comeTo (.new seed chain)) = (.ok ds, u) := ⟨_, Prod.ext h rfl⟩
  have inside := hx (s.comeTo (.new seed chain)) .nil
  obtain ⟨⟨⟩, t, hrun, hlast⟩ := bind_run_eq_ok hran
  cases hlast
  rwa [hrun] at inside

end Reports

/-- What a script tells in a context of its own is about directives that did nothing. -/
theorem reported_of_runAt (host : Host) : ∀ (levels : Nat) (chain : List String) (source : String)
    (s : Session σ) (ds : List Diagnostic),
    (runAt host levels chain source s).1 = .ok ds → Reported ds := by
  intro levels
  induction levels with
  | zero => exact fun _ _ _ _ h => by cases h
  | succ n ih =>
    intro chain source s ds h
    rw [runAt] at h
    cases hread : Script.read source with
    | error e =>
      rw [hread] at h
      cases h
    | ok body =>
      rw [hread] at h
      have outside (chain : List String) (source : String) :
          Reports (σ := σ) (runAt host n chain source) := fun s hs => by
        rwa [runAt_context]
      exact (Reports.runTerms (.includeWith host outside ih) body).inNew host.seed chain h

/-- Whatever a whole run tells is told of directives that did nothing. -/
theorem reported_of_runScript {host : Host} {store : σ} {name : String} {ds : List Diagnostic}
    (h : (runScript host store name).result = .ok ds) : Reported ds := by
  rw [runScript] at h
  cases hresolve : host.sources.resolve name with
  | error e =>
    rw [hresolve] at h
    cases h
  | ok source =>
    rw [hresolve] at h
    exact reported_of_runAt host host.levels [name] source (.new host store) ds h

end PatchScript.Run
