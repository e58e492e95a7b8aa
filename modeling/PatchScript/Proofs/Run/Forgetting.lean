import PatchScript.Proofs.Run.Confinement
import PatchScript.Proofs.Run.Veils

/-!
# The past does not matter

What has been diagnosed is told at the end of a run, and the calls of the store are on
record, but no step reads either.  So terms do the same with any *past*: they have the same
result, and what they tell and ask comes after what was told and asked before
(`evalBody_forgets`).

Included scripts need a word.  A script does hand on what it has diagnosed, to the script
that includes it.  But it starts with nothing told, so what it hands on is its own.
-/

namespace PatchScript.Run

open Script (Term)
open Eval

variable {σ α : Type}

/-! ## The past -/

/-- What was told and what the store was asked, the oldest first. -/
abbrev Past := List Diagnostic × List StoreCall

/-- More that was told and asked before. -/
def Veil.ofPast (past : Past) : Veil := ⟨id, past.1, past.2⟩

/-- A step that does the same with any past. -/
abbrev Forgetful (x : Eval σ α) : Prop := Veiled Veil.ofPast fun _ => x

/-- The session with another past. -/
def Session.withPast (s : Session σ) (diagnostics : List Diagnostic) (calls : List StoreCall) :
    Session σ :=
  { s with context := { s.context with diagnostics }, calls }

theorem Veil.ofPast_session (past : Past) (s : Session σ) :
    (Veil.ofPast past).session s =
      s.withPast (past.1 ++ s.context.diagnostics) (past.2 ++ s.calls) := rfl

/-- A step that does the same with any past adds to it, in one and the same way. -/
theorem Forgetful.run_withPast {x : Eval σ α} (hx : Forgetful x) (s : Session σ) :
    ∃ (r : Except Fault α) (t : Session σ) (told : List Diagnostic) (asked : List StoreCall),
      ∀ ds calls, x (s.withPast ds calls) = (r, t.withPast (ds ++ told) (calls ++ asked)) := by
  obtain ⟨t, r, hrun⟩ := hx (s.withPast [] [])
  refine ⟨r, t, t.context.diagnostics, t.calls, fun ds calls => ?_⟩
  have hpast := hrun (ds, calls)
  rw [Veil.ofPast_session, Veil.ofPast_session] at hpast
  have hsame : (s.withPast [] []).withPast (ds ++ []) (calls ++ []) = s.withPast ds calls := by
    rw [List.append_nil, List.append_nil]
    rfl
  exact (congrArg x hsame.symm).trans hpast

/-! ## Steps that forget -/

namespace Forgetful

/-- The gate of a preset is opened by the sentinel, whatever the past is. -/
theorem gated (preset : String) (values : List (Option String)) {x : Past → Eval σ Unit}
    (hx : Veiled Veil.ofPast x) :
    Veiled Veil.ofPast fun past => gated preset values (x past) := by
  refine .look fun c => ?_
  have sameSentinel (past : Past) : ((Veil.ofPast past).context c).sentinel = c.sentinel := rfl
  simp only [sameSentinel]
  by_cases hopen : values.getLast? = some (some c.sentinel)
  · simp only [hopen, ne_eq, not_true_eq_false, if_false]
    exact hx
  · simp only [hopen, ne_eq, not_false_eq_true, if_true]
    exact .seq (.fault _) fun _ => hx

theorem callGet (selector : Option String) : Forgetful (σ := σ) (callGet selector) := by
  cases selector with
  | none => exact .ret none
  | some s =>
    refine .look fun c => ?_
    have sameElement (past : Past) : ((Veil.ofPast past).context c).element? = c.element? := rfl
    simp only [sameElement]
    split
    · exact .ret none
    · exact .ask _ _

variable [DocumentStore σ] (hσ : Unnoticing σ)

/-- Forgetting the past is a property of families that every way to put steps together keeps. -/
def congruence (hσ : Unnoticing σ) :
    FamilyCongruence Past σ σ (fun _ => True) fun _ => True where
  related x _ := Veiled Veil.ofPast x
  follows _ _ := True
  seen past := (Veil.ofPast past).context
  looks past := (Veil.ofPast past).looks
  ret := .ret
  seq := .seq
  look hf := .look fun c => hf c fun _ _ _ _ _ => trivial
  fault _ := .fault _
  binds name b _ := .bindName hσ name b
  skips why := .tells hσ why.diagnostic
  asks none' _ := .ask _ none'
  changes _ := .change hσ _
  elements id _ _ hx := (Veiled.underVeils hσ _).atElement id hx
  files _ hpath hbody := (Veiled.underVeils hσ _).file hσ hpath hbody
  gates preset values _ _ hx := gated preset values hx
  opens preset values c _ _ hx := gated preset (values ++ [some c.sentinel]) hx
  selects c := .seq (callGet (some c.sentinel)) fun _ => .ret none

include hσ

/-! ### Terms -/

theorem along {w : Ways σ} (hbody : ∀ body, Forgetful (w.body body))
    (hscript : ∀ name, Forgetful (w.script name)) :
    (congruence hσ).Along (fun _ => w) fun _ => w where
  follows := trivial
  preset p values _ := by
    have filled := (congruence (σ := σ) hσ).bindParams p.name 0 p.params values
    exact (Veiled.underVeils hσ _).inPreset p (.seq filled fun _ => hbody p.body)
  script name _ := hscript name

theorem evalBody {w : Ways σ} (hbody : ∀ body, Forgetful (w.body body))
    (hscript : ∀ name, Forgetful (w.script name)) (ts : List (Term Nat)) :
    Forgetful (evalBody w ts) :=
  FamilyCongruence.evalBody (along hσ hbody hscript) ts
    (.of_forall ts (fun _ _ => trivial) fun _ _ => trivial)

theorem bodyAt {script : String → Eval σ Unit} (h : ∀ name, Forgetful (script name)) :
    ∀ (levels : Nat) (body : List (Term Nat)), Forgetful (bodyAt script levels body) := by
  intro levels
  induction levels with
  | zero => exact fun _ => .fault .levels
  | succ n ih => exact fun body => evalBody hσ ih h body

/-! ### Scripts -/

/-- A script that starts with nothing told hands on what it has told itself. -/
theorem inNew (seed : UInt32) (chain : List String) {x : Eval σ Unit} (hx : Forgetful x) :
    Forgetful (within (fun _ => .new seed chain) (fun before _ => before) do
      x
      return (← context).diagnostics) := by
  intro s
  obtain ⟨t, r, hrun⟩ := hx (s.comeTo (.new seed chain))
  refine ⟨t.comeTo s.context, r.map fun _ => t.context.diagnostics, fun past => ?_⟩
  -- Of the past only the calls are there when the script starts.
  let calls : Veil := .ofPast ([], past.2)
  have entered : ((Veil.ofPast past).session s).comeTo (.new seed chain) =
      calls.session (s.comeTo (.new seed chain)) := calls.comeTo hσ s (.new seed chain)
  have ran : x (calls.session (s.comeTo (.new seed chain))) = (r, calls.session t) :=
    hrun ([], past.2)
  have handed : (do x; return (← context).diagnostics : Eval σ (List Diagnostic))
      (calls.session (s.comeTo (.new seed chain))) =
      (r.map fun _ => t.context.diagnostics, calls.session t) := by
    cases r with
    | ok a => exact bind_run_ok ran _
    | error e => exact bind_run_error ran _
  refine (within_run ..).trans ?_
  rw [entered, handed]
  exact congrArg (Prod.mk _) ((Veil.ofPast past).comeTo hσ t s.context)

theorem runAt (host : Host) : ∀ (levels : Nat) (chain : List String) (source : String),
    Forgetful (σ := σ) (runAt host levels chain source) := by
  intro levels
  induction levels with
  | zero => exact fun _ _ => .fault .levels
  | succ n ih =>
    intro chain source
    rw [Run.runAt]
    cases Script.read source with
    | error e => exact .fault (.source e)
    | ok body =>
      have included := (Veiled.underVeils hσ Veil.ofPast).includeWith hσ host.sources
        (fun _ => host) (fun _ => rfl) ih
      exact inNew hσ host.seed chain <| (Veiled.underVeils hσ _).runTerms hσ
        (fun levels => evalBody hσ (bodyAt hσ included levels) included) body

end Forgetful

/-! ## Results -/

/-- Terms have the same result with any past, and add the same to it. -/
theorem evalBody_forgets [DocumentStore σ] (hσ : Unnoticing σ) (host : Host)
    (scripts presets : Nat) (ts : List (Term Nat)) :
    Forgetful (σ := σ) (evalBody (waysAt host scripts presets) ts) := by
  have included := (Veiled.underVeils (σ := σ) hσ Veil.ofPast).includeWith hσ host.sources
    (fun _ => host) (fun _ => rfl) (Forgetful.runAt hσ host scripts)
  exact Forgetful.evalBody (w := waysAt host scripts presets) hσ
    (Forgetful.bodyAt hσ included presets) included ts

end PatchScript.Run
