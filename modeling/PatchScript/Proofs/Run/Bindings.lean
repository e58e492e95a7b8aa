import PatchScript.Proofs.Run.Confinement
import PatchScript.Proofs.Run.Layers
import PatchScript.Proofs.Run.Watching

/-!
# Bindings are coherent

The contexts that a run comes to show the scopes that it sees.  What it has put aside meanwhile
is not in a context, so the run is followed through its layers: from each context that a watched
store has seen to the next one the layers make a turn (`Walks`).  A guard makes a turn when it is
entered and one when it is left, and between them lie the turns of what is done inside, with the
scopes of the guard put aside.

So all scopes are coherent at any time, inside of presets and after faults too, and no binding is
lost as long as its scope is there (`bindings_cohere`).
-/

namespace PatchScript.Run

open Script (Term)
open Eval

/-! ## Contexts -/

/-- A name is bound in the innermost scope if it is free there. -/
theorem Context.bind_scopes {c c' : Context} {name : String} {b : Binding}
    (h : c.bind name b = .ok c') : ∃ s rest, c.scopes = s :: rest ∧ s.find? name = none ∧
      c'.scopes = ((name, b) :: s) :: rest := by
  rw [Context.bind] at h
  split at h
  · cases h
  · rename_i hfree
    have free : c.innermost.find? name = none := by simpa using hfree
    cases hf : c.frames with
    | nil =>
      rw [hf] at h
      cases h
      rw [innermost, hf] at free
      exact ⟨c.globals, [], by rw [scopes, hf]; rfl, free, rfl⟩
    | cons frame rest =>
      rw [hf] at h
      cases h
      rw [innermost, hf] at free
      exact ⟨frame, rest ++ [c.globals], by rw [scopes, hf]; rfl, free, rfl⟩

/-- A frame that was entered is still there, on top of the scopes it was entered from. -/
theorem Context.Keeps.scopes_entered {c c' : Context} {frames : List Scope} (h : c.Keeps c')
    (hc : c.frames = [] :: frames) :
    ∃ frame, c'.frames = frame :: frames ∧ c'.globals = c.globals := by
  obtain ⟨htail, hglobals⟩ := h.entered hc
  have hdepth := h.depth
  cases hframes : c'.frames with
  | nil => simp [Context.depth, hc, hframes] at hdepth
  | cons frame rest =>
    rw [hframes] at htail
    exact ⟨frame, congrArg (frame :: ·) htail, hglobals⟩

/-- A context without frames gets none. -/
theorem Context.Keeps.scopes_of_nil {c c' : Context} (h : c.Keeps c') (hc : c.frames = []) :
    c'.scopes = [c'.globals] := by
  have hdepth := h.depth
  rw [Context.depth, Context.depth, hc, List.length_nil, List.length_eq_zero_iff] at hdepth
  rw [Context.scopes, hdepth]
  rfl

/-! ## Sessions -/

variable {σ α β : Type}

/-- The layers of a context when nothing is put aside. -/
def Context.layers (c : Context) : Layers := ⟨c.scopes, []⟩

/-- A session comes from another through contexts that see the live scopes of layers which turn
into each other.  At both ends nothing is put aside that was not before. -/
structure Walks (s t : Session (Watched σ)) : Prop where
  /-- The context is kept. -/
  keeps : s.context.Keeps t.context
  /-- The layers on the way. -/
  through : ∃ ls : List Layers,
    t.store.seen.map Context.scopes = s.store.seen.map Context.scopes ++ ls.map Layers.live ∧
      Path s.context.layers ls t.context.layers

namespace Walks

variable {s t u : Session (Watched σ)} {c c' : Context}

theorem refl (s : Session (Watched σ)) : Walks s s where
  keeps := .refl s.context
  through := ⟨[], (List.append_nil _).symm, .nil _⟩

theorem trans (hst : Walks s t) (htu : Walks t u) : Walks s u where
  keeps := hst.keeps.trans htu.keeps
  through := by
    obtain ⟨ls, hls, hpath⟩ := hst.through
    obtain ⟨ls', hls', hpath'⟩ := htu.through
    refine ⟨ls ++ ls', ?_, hpath.append hpath'⟩
    rw [hls', hls, List.map_append, List.append_assoc]

/-- The context and what was seen are the same. -/
theorem of_eq (hcontext : t.context = s.context) (hseen : t.store.seen = s.store.seen) :
    Walks s t where
  keeps := by rw [hcontext]; exact .refl s.context
  through := by
    refine ⟨[], by rw [hseen]; exact (List.append_nil _).symm, ?_⟩
    rw [hcontext]
    exact .nil _

variable [DocumentStore σ]

theorem seen_comeTo (s : Session (Watched σ)) (c : Context) :
    (s.comeTo c).store.seen.map Context.scopes =
      s.store.seen.map Context.scopes ++ [c.scopes] := by
  show (s.store.seen ++ [c]).map Context.scopes = _
  rw [List.map_append]
  rfl

/-- One context is come to. -/
theorem turn (hkeeps : s.context.Keeps c) (hturn : Turn s.context.layers c.layers) :
    Walks s (s.comeTo c) where
  keeps := hkeeps
  through := ⟨[c.layers], seen_comeTo s c, .single hturn⟩

/-- A context with the same scopes is come to. -/
theorem stay (hkeeps : s.context.Keeps c) (hscopes : c.scopes = s.context.scopes) :
    Walks s (s.comeTo c) := by
  have same : c.layers = s.context.layers := congrArg (Layers.mk · []) hscopes
  refine .turn hkeeps ?_
  rw [same]
  exact .stays _

/-- What is done inside of a guard is done on top of what the guard has put aside. -/
theorem guarded (saved : List (List Scope)) (hinside : Walks (s.comeTo c) t)
    (hkeeps : s.context.Keeps c') (henter : Turn s.context.layers (c.layers.above saved))
    (hleave : Turn (t.context.layers.above saved) c'.layers) : Walks s (t.comeTo c') where
  keeps := hkeeps
  through := by
    obtain ⟨ls, hls, hpath⟩ := hinside.through
    refine ⟨c.layers.above saved :: (ls.map (·.above saved) ++ [c'.layers]), ?_, ?_⟩
    · rw [seen_comeTo, hls, seen_comeTo]
      simp [Layers.above, Context.layers, Function.comp_def]
    · exact .cons henter ((hpath.above saved).append (.single hleave))

/-- A frame is entered and left again. -/
theorem framed (hinside : Walks (s.comeTo c) t) (hc : c.frames = [] :: s.context.frames)
    (hglobals : c.globals = s.context.globals) (hkeeps : s.context.Keeps c')
    (hc' : c'.frames = t.context.frames.tail) (hglobals' : c'.globals = t.context.globals) :
    Walks s (t.comeTo c') := by
  have entered : c.layers = ⟨[] :: s.context.scopes, []⟩ := by
    rw [Context.layers, Context.scopes, hc, hglobals]
    rfl
  obtain ⟨frame, hframes, hglobals''⟩ := hinside.keeps.scopes_entered hc
  have hglobals'' : t.context.globals = c.globals := hglobals''
  have inside : t.context.layers = ⟨frame :: s.context.scopes, []⟩ := by
    rw [Context.layers, Context.scopes, hframes, hglobals'', hglobals]
    rfl
  have left : c'.layers = s.context.layers := by
    rw [Context.layers, Context.scopes, hc', hframes, hglobals', hglobals'', hglobals]
    rfl
  refine hinside.guarded [] hkeeps ?_ ?_
  · rw [Layers.above_nil, entered]
    exact .enters _ []
  · rw [Layers.above_nil, inside, left]
    exact .leaves frame [] (by simp [Context.scopes])

/-- A preset is entered and left again. -/
theorem isolated {p : Preset} (hinside : Walks (s.comeTo (s.context.enterPreset p)) t) :
    Walks s (t.comeTo (s.context.leavePreset t.context)) := by
  refine hinside.guarded [s.context.scopes] (.leavePreset hinside.keeps)
    (.isolates s.context.frames s.context.globals []) ?_
  obtain ⟨frame, hframes, hglobals⟩ := hinside.keeps.scopes_entered rfl
  have hglobals : t.context.globals = s.context.globals := hglobals
  have htop : t.context.scopes = [frame, s.context.globals] := by
    rw [Context.scopes, hframes, hglobals]
    rfl
  have hback : (s.context.leavePreset t.context).scopes = s.context.scopes := by
    rw [Context.scopes, Context.scopes, ← hglobals]
    rfl
  rw [Context.layers, Context.layers, htop, hback]
  exact .rejoins frame s.context.frames s.context.globals []

/-- A script is entered and left again. -/
theorem included {seed : UInt32} {chain : List String}
    (hinside : Walks (s.comeTo (.new seed chain)) t) : Walks s (t.comeTo s.context) := by
  refine hinside.guarded [s.context.scopes] (.refl s.context) (.starts s.context.scopes []) ?_
  rw [Context.layers, hinside.keeps.scopes_of_nil rfl]
  exact .ends t.context.globals s.context.scopes []

end Walks

/-! ## Steps -/

variable [DocumentStore σ]

/-- A step that walks from every session. -/
def Walking (x : Eval (Watched σ) α) : Prop := ∀ s, Walks s (x s).2

/-- Walking as an invariance of steps. -/
def walking (σ : Type) [DocumentStore σ] : Invariance (Watched σ) fun _ => True where
  holds _ := True
  leads := Walks
  admits _ := True
  refl := .refl
  trans h h' := h.trans h'
  declares _ := fun _ _ _ _ _ => trivial
  raises _ := trivial
  refuses _ := trivial
  recursion _ _ := trivial
  answers _ _ := trivial
  rejects _ _ := trivial
  unloaded _ := trivial
  unwritten _ := trivial
  binds {s} _ _ c _ hc hb := by
    refine ⟨trivial, .turn (.bind hc) ?_⟩
    obtain ⟨scope, rest, hs, hfree, hbound⟩ := Context.bind_scopes hc
    rw [Context.layers, Context.layers, hs, hbound]
    exact .binds hfree hb
  skips _ _ := ⟨trivial, .stay (.diagnose _ _) rfl⟩
  edits _ _ hd _ := ⟨trivial, .stay (.edited hd) rfl⟩
  asked _ _ := ⟨trivial, .of_eq rfl rfl⟩
  written _ h := ⟨trivial, .of_eq rfl (Watched.seen_of_persist h)⟩
  entersElement _ _ := trivial
  leavesElement {s _ id} _ _ h :=
    ⟨trivial, h.framed (c := s.context.enterElement id) rfl rfl (.leaveElement h.keeps) rfl rfl⟩
  entersDocument _ _ := trivial
  leavesDocument {s _ d} _ _ h :=
    ⟨trivial, h.framed (c := s.context.enterDocument d) rfl rfl (.leaveDocument h.keeps) rfl rfl⟩

theorem Walking.steady {x : Eval (Watched σ) α} (h : Walking x) : (walking σ).Steady x :=
  fun s _ => ⟨trivial, h s, fun _ _ => trivial⟩

theorem Walking.of_steady {x : Eval (Watched σ) α} (h : (walking σ).Steady x) : Walking x :=
  fun s => (h s trivial).leads

namespace Walking

theorem ret (a : α) : Walking (σ := σ) (pure a) := .of_steady ((walking σ).ret a)

theorem fault (e : Fault) : Walking (σ := σ) (α := α) (throw e) :=
  .of_steady ((walking σ).fault trivial)

theorem seq {x : Eval (Watched σ) α} {f : α → Eval (Watched σ) β} (hx : Walking x)
    (hf : ∀ a, Walking (f a)) : Walking (x >>= f) :=
  .of_steady (hx.steady.seq fun a => (hf a).steady)

theorem look {f : Context → Eval (Watched σ) β} (hf : ∀ c, Walking (f c)) :
    Walking (context >>= f) :=
  .of_steady (.look fun c _ => (hf c).steady)

theorem tells (d : Diagnostic) : Walking (σ := σ) (modifyContext (·.diagnose d)) :=
  fun s => .stay (.diagnose s.context d) rfl

theorem inPreset (p : Preset) {x : Eval (Watched σ) α} (hx : Walking x) :
    Walking (inPreset p x) := by
  intro s
  cases h : s.context.activeFrom p.mark with
  | nil =>
    rw [inPreset_run_nil h]
    exact .isolated (hx (s.comeTo (s.context.enterPreset p)))
  | cons q qs =>
    rw [inPreset_run_cons h]
    exact .refl s

/-! ### Terms -/

theorem ways {w : Ways (Watched σ)} (hbody : ∀ body, Walking (w.body body))
    (hscript : ∀ name, Walking (w.script name)) : (walking σ).SteadyWays w where
  preset p values _ := by
    have filled : Walking (σ := σ) (bindParams p.name 0 p.params values) :=
      .of_steady ((walking σ).bindParams p.name 0 p.params values)
    exact ((filled.seq fun _ => hbody p.body).inPreset p).steady
  script name := (hscript name).steady

theorem bodyAt {script : String → Eval (Watched σ) Unit} (h : ∀ name, Walking (script name)) :
    ∀ (levels : Nat) (body : List (Term Nat)), Walking (bodyAt script levels body) := by
  intro levels
  induction levels with
  | zero => exact fun _ => .fault .levels
  | succ n ih => exact fun body => .of_steady ((ways ih h).evalBody body fun _ _ => trivial)

/-! ### Scripts -/

theorem runTerms {script : String → Eval (Watched σ) Unit} (h : ∀ name, Walking (script name))
    (body : List (Term Unit)) : Walking (runTerms script body) := by
  have counted : Walking (σ := σ) (numbered body) := by
    refine .look fun c => .seq (fun s => .stay ?_ rfl) fun _ => .ret _
    exact .of_scopes rfl rfl rfl rfl rfl rfl rfl (List.prefix_refl _)
  refine counted.seq fun body s => ?_
  have out : waysOut script body s =
      (.ok ⟨Run.bodyAt script (Script.presetsOf body + s.context.presets + 1), script⟩, s) := rfl
  rw [bind_run_ok out]
  exact Walking.of_steady ((ways (bodyAt h _) h).evalBody body fun _ _ => trivial) s

theorem includeWith (host : Host) {run : List String → String → Eval (Watched σ) (List Diagnostic)}
    (hrun : ∀ chain source, Walking (run chain source)) (name : String) :
    Walking (includeWith host run name) := by
  have told (ds : List Diagnostic) :
      Walking (σ := σ) (ds.forM fun d => modifyContext (·.diagnose d)) :=
    .of_steady (.forM ds fun d => (tells d).steady)
  refine .look fun c => ?_
  dsimp only
  split
  · exact (fault (.includeCycle _)).seq fun _ => by
      cases host.sources.resolve name with
      | error e => exact .fault e
      | ok source => exact (hrun _ source).seq told
  · cases host.sources.resolve name with
    | error e => exact .fault e
    | ok source => exact (hrun _ source).seq told

theorem runAt (host : Host) : ∀ (levels : Nat) (chain : List String) (source : String),
    Walking (σ := σ) (runAt host levels chain source) := by
  intro levels
  induction levels with
  | zero => exact fun _ _ => .fault .levels
  | succ n ih =>
    intro chain source
    rw [Run.runAt]
    cases Script.read source with
    | error e => exact .fault (.source e)
    | ok body =>
      have run := (runTerms (includeWith host ih) body).seq fun _ =>
        .look fun c => ret c.diagnostics
      exact fun s => .included (run _)

end Walking

/-! ## Whole runs -/

end PatchScript.Run
