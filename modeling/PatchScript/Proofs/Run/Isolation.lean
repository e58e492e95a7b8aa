import PatchScript.Proofs.Run.Confinement

/-!
# Presets see no local names

A preset is entered by putting all frames aside, and it is left by putting them back.
So nothing that is done in between can tell which frames they were: two sessions that
differ in the frames of their contexts only come to the same session when they enter a
preset, and they differ in nothing else when they have left it.

`FrameBlind` says this of a step.  The checks before a preset is entered do not look at
the frames either, so a call is blind to the frames as a whole, as soon as its arguments
have the same values.
-/

namespace PatchScript.Run

open Script (Term)
open Eval

variable {σ α β : Type}

/-- The context with other frames. -/
def Context.withFrames (c : Context) (frames : List Scope) : Context := { c with frames }

/-- The session with other frames in its context. -/
def Session.withFrames (s : Session σ) (frames : List Scope) : Session σ :=
  { s with context := s.context.withFrames frames }

/-- A step that leaves the frames as they are and does the same whatever they are. -/
def FrameBlind (x : Eval σ α) : Prop :=
  ∀ (s : Session σ) (frames : List Scope), (x s).2.context.frames = s.context.frames ∧
    x (s.withFrames frames) = ((x s).1, (x s).2.withFrames frames)

namespace FrameBlind

theorem fault (e : Fault) : FrameBlind (σ := σ) (α := α) (throw e) := fun _ _ => ⟨rfl, rfl⟩

theorem seq {x : Eval σ α} {f : α → Eval σ β} (hx : FrameBlind x)
    (hf : ∀ a, FrameBlind (f a)) : FrameBlind (x >>= f) := by
  intro s frames
  obtain ⟨hframes, hrun⟩ := hx s frames
  cases hr : x s with
  | mk r t =>
    rw [hr] at hframes hrun
    cases r with
    | ok a =>
      obtain ⟨hframes', hrun'⟩ := hf a t frames
      rw [bind_run_ok hr, bind_run_ok hrun]
      exact ⟨hframes'.trans hframes, hrun'⟩
    | error e =>
      rw [bind_run_error hr, bind_run_error hrun]
      exact ⟨hframes, rfl⟩

/-- What is done with the context has to be the same for all frames. -/
theorem look {f : Context → Eval σ β} (hsame : ∀ c frames, f (c.withFrames frames) = f c)
    (hf : ∀ c, FrameBlind (f c)) : FrameBlind (context >>= f) := by
  intro s frames
  rw [context_bind_run, context_bind_run]
  have same : f (s.withFrames frames).context = f s.context := hsame s.context frames
  rw [same]
  exact hf s.context s frames

end FrameBlind

variable [DocumentStore σ]

/-- A store that takes no notice of the contexts that a run comes to. -/
def Unnoticing (σ : Type) [DocumentStore σ] : Prop :=
  ∀ (store : σ) (c : Context), DocumentStore.note store c = store

theorem MemoryStore.unnoticing : Unnoticing MemoryStore := fun _ _ => rfl

/-- A session that comes to contexts with different frames is the same in all else. -/
theorem Unnoticing.comeTo_withFrames (hσ : Unnoticing σ) (s : Session σ) (c : Context)
    (frames frames' : List Scope) :
    (s.withFrames frames).comeTo (c.withFrames frames') = (s.comeTo c).withFrames frames' := by
  have sameStore : DocumentStore.note s.store (c.withFrames frames') =
      DocumentStore.note s.store c := (hσ _ _).trans (hσ _ _).symm
  rw [Session.comeTo, Session.comeTo, Session.withFrames, Session.withFrames, sameStore]

/-- A preset is run without the frames, whatever it does. -/
theorem FrameBlind.inPreset (hσ : Unnoticing σ) (p : Preset) (x : Eval σ α) :
    FrameBlind (inPreset p x) := by
  intro s frames
  have sameActive : (s.withFrames frames).context.activeFrom p.mark =
      s.context.activeFrom p.mark := rfl
  cases h : s.context.activeFrom p.mark with
  | cons q qs =>
    rw [inPreset_run_cons h, inPreset_run_cons (sameActive.trans h)]
    exact ⟨rfl, rfl⟩
  | nil =>
    rw [inPreset_run_nil h, inPreset_run_nil (sameActive.trans h)]
    refine ⟨rfl, ?_⟩
    -- Both runs come to the same session, since all frames are put aside.
    have entered : (s.withFrames frames).comeTo ((s.withFrames frames).context.enterPreset p) =
        s.comeTo (s.context.enterPreset p) :=
      hσ.comeTo_withFrames s (s.context.enterPreset p) frames [[]]
    rw [within_run, within_run, entered]
    refine congrArg (Prod.mk _) ?_
    generalize (x (s.comeTo (s.context.enterPreset p))).2 = t
    exact hσ.comeTo_withFrames t (s.context.leavePreset t.context) t.context.frames frames

/-- Before a preset is entered, the sentinel and the number of arguments are checked. -/
theorem FrameBlind.callPreset (hσ : Unnoticing σ) (w : Ways σ) (p : Preset)
    (values : List (Option String)) : FrameBlind (callPreset w p values) := by
  have counted : FrameBlind (σ := σ) (do
      if values.dropLast.length < p.params.length then
        throw (.presetMissingArgs p.name p.params.length values.dropLast.length)
      Eval.inPreset p do
        bindParams p.name 0 p.params values.dropLast
        w.body p.body) := by
    split
    · exact (fault _).seq fun _ => inPreset hσ p _
    · exact inPreset hσ p _
  refine look (fun _ _ => rfl) fun c => ?_
  dsimp only
  split
  · exact (fault _).seq fun _ => counted
  · exact counted

/-! ## The global scope -/

/-- The names that a preset binds are in the frame that is made for it. -/
theorem globals_inPreset {p : Preset} {x : Eval σ α} (hx : Keeps x) (s : Session σ) :
    (inPreset p x s).2.context.globals = s.context.globals := by
  cases h : s.context.activeFrom p.mark with
  | nil =>
    rw [inPreset_run_nil h]
    exact ((hx (s.comeTo (s.context.enterPreset p))).entered rfl).2
  | cons q qs =>
    rw [inPreset_run_cons h]

theorem globals_callPreset {w : Ways σ} (hw : ∀ body, Keeps (w.body body)) (p : Preset)
    (values : List (Option String)) (s : Session σ) :
    (callPreset w p values s).2.context.globals = s.context.globals := by
  have filled : Keeps (bindParams (σ := σ) p.name 0 p.params values.dropLast) :=
    .of_steady ((keeping σ).bindParams p.name 0 p.params values.dropLast)
  have entered := globals_inPreset (p := p) (filled.seq fun _ => hw p.body) s
  rw [callPreset, context_bind_run]
  dsimp only
  split
  · rfl
  · split
    · rfl
    · exact entered

/-! ## Calls -/

/-- The two outcomes of a call from sessions that differ in their frames only: the result
is the same, and so is the session that is left, but for the frames, which each session
has kept. -/
structure Isolated (s : Session σ) (frames : List Scope) (r r' : Except Fault α × Session σ) :
    Prop where
  /-- The calls give the same, or fail with the same fault. -/
  result : r'.1 = r.1
  /-- The document is the same. -/
  document : r'.2.context.document = r.2.context.document
  /-- The same has been diagnosed, behind what was diagnosed before. -/
  diagnostics : ∃ told, r.2.context.diagnostics = s.context.diagnostics ++ told ∧
    r'.2.context.diagnostics = s.context.diagnostics ++ told
  /-- The store is the same. -/
  store : r'.2.store = r.2.store
  /-- The store was asked the same. -/
  calls : r'.2.calls = r.2.calls
  /-- No name was bound globally. -/
  globals : r.2.context.globals = s.context.globals ∧ r'.2.context.globals = s.context.globals
  /-- The frames are those from before. -/
  frames : r.2.context.frames = s.context.frames ∧ r'.2.context.frames = frames

/-- What a preset does, and how it ends, does not depend on the frames of the context that
it is called in, and leaves them as they are.  So no name that is bound locally where the
preset is called or where it is declared has an influence on it. -/
theorem presets_are_isolated (hσ : Unnoticing σ) (host : Host) (scripts presets : Nat)
    (p : Preset) (args : List (Term Nat)) (values : List (Option String)) (s : Session σ)
    (frames : List Scope)
    (hargs : evalArgs (waysAt host scripts presets) args s = (.ok values, s))
    (hargs' : evalArgs (waysAt host scripts presets) args (s.withFrames frames) =
      (.ok values, s.withFrames frames)) :
    let call := evalArgs (waysAt host scripts presets) args >>=
      callPreset (waysAt host scripts presets) p
    Isolated s frames (call s) (call (s.withFrames frames)) := by
  dsimp only
  rw [bind_run_ok hargs, bind_run_ok hargs']
  obtain ⟨hframes, hrun⟩ :=
    FrameBlind.callPreset hσ (waysAt host scripts presets) p values s frames
  have hglobals := globals_callPreset (w := waysAt host scripts presets)
    (.bodyAt (.include host scripts) presets) p values s
  have keeps : Keeps (σ := σ) (callPreset (waysAt host scripts presets) p values) :=
    .of_steady (Congruence.callPreset (Keeps.waysAt host scripts presets).along trivial values)
  obtain ⟨told, htold⟩ := (keeps s).diagnostics
  rw [hrun]
  exact ⟨rfl, rfl, ⟨told, htold.symm, htold.symm⟩, rfl, rfl, ⟨hglobals, hglobals⟩, ⟨hframes, rfl⟩⟩

/-- A preset that reads a constant which is bound where it is called, but not globally: it
fails with and without that frame. -/
theorem presets_are_isolated_of_local_constant :
    let host : Host := ⟨[], 7⟩
    let p : Preset := ⟨0, "p", ["a"], [.const "b" (.literal (.text "\x7bc\x7d"))]⟩
    let args : List (Term Nat) := [.literal (.text "1"), .literal (.text "key")]
    let s : Session MemoryStore :=
      ⟨{ Context.new 7 [] with sentinel := "key", frames := [[("c", .constant "2")]] }, ⟨[]⟩, []⟩
    let call := evalArgs (waysAt host 1 1) args >>= callPreset (waysAt host 1 1) p
    (call s).1 = .error (.unresolved "c") ∧ Isolated s [] (call s) (call (s.withFrames [])) :=
  ⟨rfl, presets_are_isolated MemoryStore.unnoticing _ 1 1 _ _ [some "1", some "key"] _ [] rfl rfl⟩

end PatchScript.Run
