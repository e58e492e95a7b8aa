import Mathlib.Data.List.Basic
import PatchScript.Proofs.Run.Veils
import PatchScript.Proofs.XPath.Hexadecimal
import PatchScript.Run.Program

/-!
# Sentinels do nothing but open presets

Runs that have different seeds, and so different sentinels, do the same until a preset is called
without `use`.  Then they are refused with the same fault, all but those whose sentinel is the
last value of the call: this text is the *guess* of the script, and a script can only make one,
since the other runs end there.

So the steps with all seeds do one and the same in a session, whatever its sentinel, but for the
seeds of one guess (`AlikeAt`), and every way to put steps together keeps that
(`Alike.congruence`).

One thing is left out.  A `use` of `get` that has no argument gives the sentinel to `get` for a
selector.  The answer is dropped, but the run ends if the sentinel is no expression, and the fault
shows it.
-/

namespace PatchScript.Run

open Script (Term)
open Eval

variable {σ α β : Type}

/-! ## Sentinels -/

/-- The context with another sentinel. -/
def Context.withSentinel (c : Context) (key : String) : Context := { c with sentinel := key }

/-- The session with another sentinel in its context. -/
def Session.withSentinel (s : Session σ) (key : String) : Session σ :=
  { s with context := s.context.withSentinel key }

/-- Another sentinel as a veil. -/
def Veil.ofSentinel (key : String) : Veil := ⟨fun _ => key, [], []⟩

/-- A session that comes to a context with another sentinel is the same in all else. -/
theorem Unnoticing.comeTo_withSentinel [DocumentStore σ] (hσ : Unnoticing σ) (s : Session σ)
    (c : Context) (key : String) :
    (s.withSentinel key).comeTo (c.withSentinel key) = (s.comeTo c).withSentinel key :=
  (Veil.ofSentinel key).comeTo hσ s c

/-! ## Sentinels as selectors -/

section
variable {key : String} (h : ∀ c ∈ key.toList, c ∈ XPath.hexadecimal)

include h

theorem fromTop_notMem_hexadecimal : fromTop ∉ key.toList :=
  fun hc => absurd (h fromTop hc) (by decide)

theorem head?_hexadecimal : key.toList.head? ≠ some fromTop :=
  fun hc => fromTop_notMem_hexadecimal h (List.mem_of_head? hc)

theorem filter_hexadecimal : String.ofList (key.toList.filter (· != fromTop)) = key := by
  have hunmarked (c : Char) (hc : c ∈ key.toList) : c != fromTop :=
    bne_iff_ne.mpr fun hmark => fromTop_notMem_hexadecimal h (hmark ▸ hc)
  rw [List.filter_eq_self.mpr hunmarked, String.ofList_toList]

theorem callGet_run_none {s : Session σ} (hid : s.context.element? = none) :
    callGet (some key) s = (.ok none, s) := by
  rw [callGet, context_bind_run, if_neg (head?_hexadecimal h), hid]
  rfl

theorem callGet_run_some {s : Session σ} {id : Xml.NodeId} (hid : s.context.element? = some id) :
    callGet (some key) s = ask (fun d => (XPath.evaluateString d id key).map some) none s := by
  rw [callGet, context_bind_run, if_neg (head?_hexadecimal h), hid]
  dsimp only
  rw [filter_hexadecimal h]

end

/-! ## Steps with many sentinels -/

/-- Steps, one for each index, that do the same in a session with the sentinel of the index, unless
this is the guess, or it was read as an expression and is none. -/
structure AlikeAt {ι : Type} (key : ι → String) (x : ι → Eval σ α) (s t : Session σ)
    (r : Except Fault α) (guess : Option String) : Prop where
  /-- A guess is made by calling a preset without `use`. -/
  refused : guess ≠ none → ∃ preset, r = .error (.presetUseRequired preset)
  /-- What is done without a guess. -/
  same (i : ι) : guess ≠ some (key i) →
    x i (s.withSentinel (key i)) = (r, t.withSentinel (key i)) ∨
      ∃ fault, (x i (s.withSentinel (key i))).1 =
        .error (.xpath (.unreadable (key i) fault))

/-- Steps, one for each index, that do the same in every session. -/
def Alike {ι : Type} (key : ι → String) (x : ι → Eval σ α) : Prop :=
  ∀ s, ∃ (t : Session σ) (r : Except Fault α) (guess : Option String), AlikeAt key x s t r guess

variable {ι : Type} {key : ι → String}

/-- No guess is made by steps that do the same without exception. -/
theorem AlikeAt.of_run {x : ι → Eval σ α} {s t : Session σ} {r : Except Fault α}
    (h : ∀ i, x i (s.withSentinel (key i)) = (r, t.withSentinel (key i))) :
    AlikeAt key x s t r none where
  refused h := absurd rfl h
  same i _ := .inl (h i)

/-- What is known of steps is known of others that do the same. -/
theorem AlikeAt.congr {x y : ι → Eval σ α} {s t : Session σ} {r : Except Fault α}
    {guess : Option String} (h : AlikeAt key y s t r guess)
    (hxy : ∀ i, x i (s.withSentinel (key i)) = y i (s.withSentinel (key i))) :
    AlikeAt key x s t r guess where
  refused := h.refused
  same i hguess := by
    rw [hxy]
    exact h.same i hguess

namespace Alike

/-- Steps that do the same without exception in every session are alike. -/
theorem of_run {x : ι → Eval σ α} (h : ∀ s : Session σ, ∃ (t : Session σ) (r : Except Fault α),
    ∀ i, x i (s.withSentinel (key i)) = (r, t.withSentinel (key i))) : Alike key x := by
  intro s
  obtain ⟨t, r, hrun⟩ := h s
  exact ⟨t, r, none, .of_run hrun⟩

/-- Steps that do not see the sentinel are alike. -/
theorem of_veiled {x : ι → Eval σ α} (h : Veiled (fun i => .ofSentinel (key i)) x) :
    Alike key x :=
  of_run h

theorem ret (a : α) : Alike (σ := σ) key fun _ => pure a := of_veiled (.ret a)

theorem fault (e : Fault) : Alike (σ := σ) (α := α) key fun _ => throw e := of_veiled (.fault e)

theorem seq {x : ι → Eval σ α} {f : ι → α → Eval σ β} (hx : Alike key x)
    (hf : ∀ a, Alike key (f · a)) : Alike key fun i => x i >>= f i := by
  intro s
  obtain ⟨t, r, guess, hsame⟩ := hx s
  -- A sentinel that is read as an expression ends both steps.
  have unread {i : ι} (h : ∃ fault, (x i (s.withSentinel (key i))).1 =
      .error (.xpath (.unreadable (key i) fault))) :
      ∃ fault, ((x i >>= f i) (s.withSentinel (key i))).1 =
        .error (.xpath (.unreadable (key i) fault)) := by
    obtain ⟨fault, hfault⟩ := h
    exact ⟨fault, congrArg Prod.fst (bind_run_error (Prod.ext hfault rfl) (f i))⟩
  cases r with
  | error e =>
    refine ⟨t, .error e, guess, fun hguess => ?_, fun i hguess => ?_⟩
    · obtain ⟨preset, hr⟩ := hsame.refused hguess
      cases hr
      exact ⟨preset, rfl⟩
    · rcases hsame.same i hguess with hrun | hfault
      · exact .inl (bind_run_error hrun (f i))
      · exact .inr (unread hfault)
  | ok a =>
    cases guess with
    | some key =>
      obtain ⟨preset, hr⟩ := hsame.refused nofun
      cases hr
    | none =>
      obtain ⟨u, r, guess, hsame'⟩ := hf a t
      refine ⟨u, r, guess, hsame'.refused, fun i hguess => ?_⟩
      rcases hsame.same i nofun with hrun | hfault
      · rw [bind_run_ok hrun (f i)]
        exact hsame'.same i hguess
      · exact .inr (unread hfault)

/-- What is done with the context has to be alike. -/
theorem look {f : ι → Context → Eval σ β}
    (hf : ∀ c : Context, Alike key fun i => f i (c.withSentinel (key i))) :
    Alike key fun i => context >>= f i := by
  intro s
  obtain ⟨t, r, guess, hsame⟩ := hf s.context s
  exact ⟨t, r, guess, hsame.congr fun i => context_bind_run (f i) _⟩

variable [DocumentStore σ] (hσ : Unnoticing σ)

include hσ

/-- Steps in a context that is entered and left. -/
theorem within {enter : ι → Context → Context} (enter' : Context → Context)
    {leave : Context → Context → Context} {x : ι → Eval σ α} (hx : Alike key x)
    (henter : ∀ i c, enter i (c.withSentinel (key i)) =
      (enter' c).withSentinel (key i))
    (hleave : ∀ i before c, leave (before.withSentinel (key i)) (c.withSentinel (key i)) =
      (leave before c).withSentinel (key i)) :
    Alike key fun i => within (enter i) leave (x i) := by
  intro s
  obtain ⟨t, r, guess, hsame⟩ := hx (s.comeTo (enter' s.context))
  refine ⟨t.comeTo (leave s.context t.context), r, guess, hsame.refused, fun i hguess => ?_⟩
  have entered : (s.withSentinel (key i)).comeTo
      (enter i (s.withSentinel (key i)).context) =
      (s.comeTo (enter' s.context)).withSentinel (key i) :=
    (congrArg _ (henter i s.context)).trans (hσ.comeTo_withSentinel ..)
  rw [within_run, entered]
  rcases hsame.same i hguess with hrun | hfault
  · left
    rw [hrun]
    show (r, (t.withSentinel _).comeTo
      (leave (s.context.withSentinel _) (t.context.withSentinel _))) = _
    rw [hleave, hσ.comeTo_withSentinel]
  · exact .inr hfault

/-! ### Where the sentinel matters -/

omit [DocumentStore σ] hσ in
/-- The last value is the guess, if it is a text. -/
theorem gated (preset : String) (values : List (Option String)) (x : ι → Eval σ Unit) :
    Alike key fun i => gated preset values (x i) := by
  intro s
  refine ⟨s, .error (.presetUseRequired preset), values.getLast?.join, fun _ => ⟨preset, rfl⟩,
    fun i hguess => .inl (gated_run_refused fun hlast => ?_)⟩
  rw [hlast] at hguess
  exact hguess rfl

omit [DocumentStore σ] hσ in
/-- A gate that is opened with the sentinel lets all pass. -/
theorem opened (preset : String) (values : List (Option String)) {x : ι → Eval σ Unit}
    (hx : Alike key x) :
    Alike key fun i => Run.gated preset (values ++ [some (key i)]) (x i) := by
  intro s
  obtain ⟨t, r, guess, hsame⟩ := hx s
  exact ⟨t, r, guess, hsame.congr fun i => gated_run_opened List.getLast?_concat⟩

omit [DocumentStore σ] hσ in
/-- The answer to a sentinel is dropped. -/
theorem selected (hkey : ∀ i, ∀ c ∈ (key i).toList, c ∈ XPath.hexadecimal) :
    Alike (σ := σ) key fun i => do
      let _ ← callGet (some (key i))
      return (none : Option String) := by
  intro s
  cases hid : s.context.element? with
  | none =>
    exact ⟨s, .ok none, none, .of_run fun i =>
      bind_run_ok (callGet_run_none (s := s.withSentinel (key i)) (hkey i) hid) _⟩
  | some id =>
    have hget (i : ι) := callGet_run_some (s := s.withSentinel (key i)) (hkey i) hid
    cases hd : s.context.document with
    | none =>
      exact ⟨s, .ok none, none, .of_run fun i => bind_run_ok ((hget i).trans (ask_run_none hd)) _⟩
    | some d =>
      refine ⟨s, .ok none, none, fun h => absurd rfl h, fun i _ => ?_⟩
      have hasked := (hget i).trans (ask_run_some hd)
      rcases XPath.evaluateString_hexadecimal (hkey i) d id with ⟨text, htext⟩ | ⟨fault, hfault⟩
      · rw [htext] at hasked
        exact .inl (bind_run_ok hasked _)
      · rw [hfault] at hasked
        exact .inr ⟨fault, congrArg Prod.fst (bind_run_error hasked _)⟩

/-! ### What the evaluator does -/

/-- Being alike is known of steps that do not see the sentinel, and of some others. -/
def underVeils (key : ι → String) (hσ : Unnoticing σ) :
    UnderVeils σ fun i => .ofSentinel (key i) where
  holds x := Alike key x
  veiled := of_veiled
  seq := seq
  look := look
  within enter' _ _ hx henter hleave := within hσ enter' hx henter hleave

/-- Being alike is a property of families that every way to put steps together keeps. -/
def congruence (hσ : Unnoticing σ) (hkey : ∀ i, ∀ c ∈ (key i).toList, c ∈ XPath.hexadecimal) :
    FamilyCongruence ι σ σ (fun _ => True) fun _ => True where
  related x _ := Alike key x
  follows _ _ := True
  seen i c := c.withSentinel (key i)
  looks i c := (Veil.ofSentinel (key i)).looks c
  ret := ret
  seq := seq
  look hf := look fun c => hf c fun _ _ _ _ _ => trivial
  fault _ := fault _
  binds name b _ := of_veiled (.bindName hσ name b)
  skips why := of_veiled (.tells hσ why.diagnostic)
  asks none' _ := of_veiled (.ask _ none')
  changes _ := of_veiled (.change hσ _)
  elements id _ _ hx := (underVeils key hσ).atElement id hx
  files _ hpath hbody := (underVeils key hσ).file hσ hpath hbody
  gates preset values x _ _ := gated preset values x
  opens preset values _ _ _ hx := opened preset values hx
  selects _ := selected hkey

/-! ## Terms -/

variable (hkey : ∀ i, ∀ c ∈ (key i).toList, c ∈ XPath.hexadecimal)

include hkey

theorem along {w : ι → Ways σ} (hbody : ∀ body, Alike key fun i => (w i).body body)
    (hscript : ∀ name, Alike key fun i => (w i).script name) :
    (congruence hσ hkey).Along w w where
  follows := trivial
  preset p values _ := by
    have filled := (congruence hσ hkey).bindParams p.name 0 p.params values
    exact (underVeils key hσ).inPreset p (seq filled fun _ => hbody p.body)
  script name _ := hscript name

theorem evalBody {w : ι → Ways σ} (hw : (congruence hσ hkey).Along w w) (ts : List (Term Nat)) :
    Alike key fun i => evalBody (w i) ts :=
  FamilyCongruence.evalBody hw ts (.of_forall ts (fun _ _ => trivial) fun _ _ => trivial)

theorem bodyAt {script : ι → String → Eval σ Unit}
    (h : ∀ name, Alike key fun i => script i name) :
    ∀ (levels : Nat) (body : List (Term Nat)),
      Alike key fun i => bodyAt (script i) levels body := by
  intro levels
  induction levels with
  | zero => exact fun _ => fault .levels
  | succ n ih => exact fun body => evalBody hσ hkey (along hσ hkey ih h) body

/-! ## Scripts -/

theorem runTerms {script : ι → String → Eval σ Unit}
    (h : ∀ name, Alike key fun i => script i name) (body : List (Term Unit)) :
    Alike key fun i => runTerms (script i) body :=
  (underVeils key hσ).runTerms hσ
    (fun levels => evalBody hσ hkey (along hσ hkey (bodyAt hσ hkey h levels) h)) body

theorem runAt (sources : Sources) (host : ι → Host) (hhost : ∀ i, (host i).sources = sources)
    (hseed : ∀ i, key i = sentinelOf (host i).seed) :
    ∀ (levels : Nat) (chain : List String) (source : String),
      Alike (σ := σ) key fun i => runAt (host i) levels chain source := by
  intro levels
  induction levels with
  | zero => exact fun _ _ => fault .levels
  | succ n ih =>
    intro chain source
    simp only [Run.runAt]
    cases Script.read source with
    | error e => exact fault (.source e)
    | ok body =>
      have ran : Alike (σ := σ) key fun i => do
          Run.runTerms (Run.includeWith (host i) (Run.runAt (host i) n)) body
          return (← context).diagnostics :=
        (runTerms hσ hkey ((underVeils key hσ).includeWith hσ sources host hhost ih) body).seq fun _ =>
          look fun c => ret c.diagnostics
      -- A new context differs from those of other seeds in the sentinel only.
      refine within hσ (fun _ => .new 0 chain) ran (fun i c => ?_) fun _ _ _ => rfl
      rw [hseed]
      rfl

end Alike

/-! ## Whole runs -/

theorem Outcome.of_eq {host : Host} {store : σ} {x : Eval σ (List Diagnostic)}
    {r : Except Fault (List Diagnostic)} {t : Session σ} {key : String}
    (h : x (.new host store) = (r, t.withSentinel key)) :
    Outcome.of host store x = ⟨r, t.store, t.calls⟩ := by
  rw [Outcome.of, h]
  rfl

variable [DocumentStore σ]

end PatchScript.Run
