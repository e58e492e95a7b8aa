import PatchScript.Proofs.Run.Invariance
import PatchScript.Run.Program

/-!
# What a step leaves behind

A directive can enter an element, a document, a preset or another script, and it can
fail inside any of them.  Whatever it does, the context that it leaves differs from
the one that it found in three places only: names may have been bound in the innermost
scope, the open document may have been changed, and something may have been diagnosed.
This is `Context.Keeps`.

That a guard is left again is a fact about `within`: the frame that was entered is the
innermost one as long as the guard lasts, so what is kept inside of it is what has to
be there when it is left (`Context.Keeps.entered`).  The rest follows the evaluator,
for steps that succeed and for steps that fail alike.
-/

namespace PatchScript.Run

open Script (Term)
open Eval

/-! ## Contexts -/

/-- A context is left with all that was in it, but for names that are new in the
innermost scope, for the content of the document and for more diagnostics. -/
structure Context.Keeps (before after : Context) : Prop where
  /-- There are as many frames. -/
  depth : after.depth = before.depth
  /-- The scopes around the innermost one are unchanged. -/
  outer : after.scopes.tail = before.scopes.tail
  /-- A name that was bound in the innermost scope is bound to the same. -/
  bound : ∀ name b, before.innermost.find? name = some b → after.innermost.find? name = some b
  /-- The element that was entered last is the same. -/
  cursor : after.cursor = before.cursor
  /-- The sentinel is the same. -/
  sentinel : after.sentinel = before.sentinel
  /-- The scripts that run are the same. -/
  chain : after.chain = before.chain
  /-- The presets that run are the same. -/
  active : after.active = before.active
  /-- A document is open if one was open. -/
  document : after.document.isSome = before.document.isSome
  /-- What was diagnosed is still told first. -/
  diagnostics : before.diagnostics <+: after.diagnostics

namespace Context.Keeps

theorem refl (c : Context) : c.Keeps c where
  depth := rfl
  outer := rfl
  bound _ _ h := h
  cursor := rfl
  sentinel := rfl
  chain := rfl
  active := rfl
  document := rfl
  diagnostics := List.prefix_refl _

theorem trans {a b c : Context} (hab : a.Keeps b) (hbc : b.Keeps c) : a.Keeps c where
  depth := hbc.depth.trans hab.depth
  outer := hbc.outer.trans hab.outer
  bound name b h := hbc.bound name b (hab.bound name b h)
  cursor := hbc.cursor.trans hab.cursor
  sentinel := hbc.sentinel.trans hab.sentinel
  chain := hbc.chain.trans hab.chain
  active := hbc.active.trans hab.active
  document := hbc.document.trans hab.document
  diagnostics := hab.diagnostics.trans hbc.diagnostics

/-- Binding a name keeps the context, since a name that is bound already is refused. -/
theorem bind {c c' : Context} {name : String} {b : Binding} (h : c.bind name b = .ok c') :
    c.Keeps c' := by
  rw [Context.bind] at h
  split at h
  · cases h
  · rename_i free
    have fresh : ∀ n b', c.innermost.find? n = some b' → n ≠ name := by
      rintro n b' hn rfl
      exact free (by rw [hn]; rfl)
    have add : ∀ n b', c.innermost.find? n = some b' →
        Scope.find? ((name, b) :: c.innermost) n = some b' := by
      intro n b' hn
      rw [Scope.find?]
      rw [List.find?_cons_of_neg (by simpa using (fresh n b' hn).symm)]
      exact hn
    cases hf : c.frames with
    | nil =>
      rw [hf] at h
      cases h
      have hin : c.innermost = c.globals := by simp [Context.innermost, hf]
      rw [hin] at add
      refine { refl c with depth := ?_, outer := ?_, bound := ?_ }
      · simp [Context.depth, hf]
      · simp [Context.scopes, hf]
      · intro n b' hn
        rw [hin] at hn
        simpa [Context.innermost, hf] using add n b' hn
    | cons frame rest =>
      rw [hf] at h
      cases h
      have hin : c.innermost = frame := by simp [Context.innermost, hf]
      rw [hin] at add
      refine { refl c with depth := ?_, outer := ?_, bound := ?_ }
      · simp [Context.depth, hf]
      · simp [Context.scopes, hf]
      · intro n b' hn
        rw [hin] at hn
        simpa [Context.innermost] using add n b' hn

theorem diagnose (c : Context) (d : Diagnostic) : c.Keeps (c.diagnose d) :=
  { refl c with diagnostics := List.prefix_append _ _ }

/-- What a guard finds when it is left: the frame it made is the innermost one, and the
scopes around that are those it was made in. -/
theorem entered {c c' : Context} {frames : List Scope} (h : c.Keeps c')
    (hc : c.frames = [] :: frames) : c'.frames.tail = frames ∧ c'.globals = c.globals := by
  have hdepth := h.depth
  have houter := h.outer
  cases hc' : c'.frames with
  | nil =>
    simp [Context.depth, hc, hc'] at hdepth
  | cons frame' frames' =>
    simp only [Context.scopes, hc, hc', List.cons_append, List.tail_cons] at houter
    obtain ⟨hframes, hglobals⟩ := List.append_inj' houter rfl
    exact ⟨hframes, by simpa using hglobals⟩

/-- A context with the same scopes keeps the names, whatever else is changed. -/
theorem of_scopes {c c' : Context} (hframes : c'.frames = c.frames)
    (hglobals : c'.globals = c.globals) (hcursor : c'.cursor = c.cursor)
    (hsentinel : c'.sentinel = c.sentinel) (hchain : c'.chain = c.chain)
    (hactive : c'.active = c.active) (hdocument : c'.document.isSome = c.document.isSome)
    (hdiagnostics : c.diagnostics <+: c'.diagnostics) : c.Keeps c' where
  depth := by rw [Context.depth, hframes, Context.depth]
  outer := by rw [Context.scopes, hframes, hglobals, Context.scopes]
  bound name b h := by rwa [Context.innermost, hframes, hglobals]
  cursor := hcursor
  sentinel := hsentinel
  chain := hchain
  active := hactive
  document := hdocument
  diagnostics := hdiagnostics

/-- A document may be changed, since it stays open. -/
theorem edited {c : Context} {d d' : Xml.Document} (h : c.document = some d) :
    c.Keeps { c with document := some d' } :=
  { refl c with document := by rw [h]; rfl }

/-! ### Guards -/

theorem popFrame {c c' : Context} (h : c.pushFrame.Keeps c') : c.Keeps c'.popFrame := by
  obtain ⟨hframes, hglobals⟩ := h.entered rfl
  exact of_scopes hframes hglobals h.cursor h.sentinel h.chain h.active h.document h.diagnostics

theorem leaveElement {c c' : Context} {id : Xml.NodeId} (h : (c.enterElement id).Keeps c') :
    c.Keeps (c.leaveElement c') := by
  obtain ⟨hframes, hglobals⟩ := h.entered rfl
  exact of_scopes hframes hglobals rfl h.sentinel h.chain h.active h.document h.diagnostics

theorem leaveDocument {c c' : Context} {d : Xml.Document} (h : (c.enterDocument d).Keeps c') :
    c.Keeps (c.leaveDocument c') := by
  obtain ⟨hframes, hglobals⟩ := h.entered rfl
  exact of_scopes hframes hglobals rfl h.sentinel h.chain h.active rfl h.diagnostics

theorem leaveIsolation {c c' : Context} (h : c.isolate.Keeps c') :
    c.Keeps (c.leaveIsolation c') := by
  obtain ⟨-, hglobals⟩ := h.entered rfl
  exact of_scopes rfl hglobals h.cursor h.sentinel h.chain h.active h.document h.diagnostics

theorem leavePreset {c c' : Context} {p : Preset} (h : (c.enterPreset p).Keeps c') :
    c.Keeps (c.leavePreset c') := by
  obtain ⟨-, hglobals⟩ := h.entered rfl
  have hactive : c'.active.dropLast = c.active := by
    rw [h.active]
    exact List.dropLast_concat
  exact of_scopes rfl hglobals h.cursor h.sentinel h.chain hactive h.document h.diagnostics

end Context.Keeps

/-! ## Steps -/

variable {σ α β : Type} [DocumentStore σ]

/-- A step that keeps every context it is done in, whether it fails or not. -/
def Keeps (x : Eval σ α) : Prop := ∀ s : Session σ, s.context.Keeps (x s).2.context

/-- Keeping the context, as an invariance of steps: of the session nothing has to be
known, and any fault may occur. -/
def keeping (σ : Type) [DocumentStore σ] : Invariance σ fun _ => True where
  holds _ := True
  leads s t := s.context.Keeps t.context
  admits _ := True
  refl s := .refl s.context
  trans h h' := h.trans h'
  declares _ := fun _ _ _ _ _ => trivial
  raises _ := trivial
  refuses _ := trivial
  recursion _ _ := trivial
  answers _ _ := trivial
  rejects _ _ := trivial
  unloaded _ := trivial
  unwritten _ := trivial
  binds _ h _ := ⟨trivial, .bind h⟩
  skips _ _ := ⟨trivial, .diagnose _ _⟩
  edits _ _ hd _ := ⟨trivial, .edited hd⟩
  asked _ _ := ⟨trivial, .refl _⟩
  written _ _ := ⟨trivial, .refl _⟩
  entersElement _ _ := trivial
  leavesElement _ _ h := ⟨trivial, .leaveElement h⟩
  entersDocument _ _ := trivial
  leavesDocument _ _ h := ⟨trivial, .leaveDocument h⟩

theorem Keeps.steady {x : Eval σ α} (h : Keeps x) : (keeping σ).Steady x :=
  fun s _ => ⟨trivial, h s, fun _ _ => trivial⟩

theorem Keeps.of_steady {x : Eval σ α} (h : (keeping σ).Steady x) : Keeps x :=
  fun s => (h s trivial).leads

namespace Keeps

theorem seq {x : Eval σ α} {f : α → Eval σ β} (hx : Keeps x) (hf : ∀ a, Keeps (f a)) :
    Keeps (x >>= f) :=
  .of_steady (hx.steady.seq fun a => (hf a).steady)

theorem ret (a : α) : Keeps (σ := σ) (pure a) := .of_steady ((keeping σ).ret a)

theorem fault (e : Fault) : Keeps (σ := σ) (α := α) (throw e) :=
  .of_steady ((keeping σ).fault trivial)

theorem look : Keeps (σ := σ) context :=
  .of_steady fun s _ => ⟨trivial, .refl s.context, fun _ _ => trivial⟩

theorem tells (d : Diagnostic) : Keeps (σ := σ) (modifyContext (·.diagnose d)) :=
  fun s => .diagnose s.context d

theorem binds (name : String) (b : Binding) : Keeps (σ := σ) (bindName name b) := by
  intro s
  cases h : s.context.bind name b with
  | ok c =>
    rw [bindName_run_ok h]
    exact .bind h
  | error e =>
    rw [bindName_run_error h]
    exact .refl s.context

/-! ### Guards -/

theorem framed {x : Eval σ α} (hx : Keeps x) : Keeps (framed x) :=
  fun s => .popFrame (hx (s.comeTo s.context.pushFrame))

theorem isolated {x : Eval σ α} (hx : Keeps x) : Keeps (isolated x) :=
  fun s => .leaveIsolation (hx (s.comeTo s.context.isolate))

/-- A preset that runs already is refused, which changes nothing. -/
theorem inPreset (p : Preset) {x : Eval σ α} (hx : Keeps x) : Keeps (inPreset p x) := by
  intro s
  cases h : s.context.activeFrom p.mark with
  | nil =>
    rw [inPreset_run_nil h]
    exact .leavePreset (hx (s.comeTo (s.context.enterPreset p)))
  | cons q qs =>
    rw [inPreset_run_cons h]
    exact .refl s.context

end Keeps

/-! ## The evaluator -/

/-- The ways out of terms keep the context, if what they lead to does. -/
theorem Keeps.ways {w : Ways σ} (hbody : ∀ body, Keeps (w.body body))
    (hscript : ∀ name, Keeps (w.script name)) : (keeping σ).SteadyWays w where
  preset p values _ := by
    have filled : Keeps (bindParams (σ := σ) p.name 0 p.params values) :=
      .of_steady ((keeping σ).bindParams p.name 0 p.params values)
    exact ((filled.seq fun _ => hbody p.body).inPreset p).steady
  script name := (hscript name).steady

/-- Presets are entered and left like everything else, down to any number of levels. -/
theorem Keeps.bodyAt {script : String → Eval σ Unit} (h : ∀ name, Keeps (script name)) :
    ∀ (levels : Nat) (body : List (Term Nat)), Keeps (bodyAt script levels body) := by
  intro levels
  induction levels with
  | zero => exact fun _ => .fault .levels
  | succ n ih => exact fun body => .of_steady ((Keeps.ways ih h).evalBody body fun _ _ => trivial)

/-- A script runs in a context of its own, so the context it is run from is the same
afterwards. -/
theorem runAt_context (host : Host) (levels : Nat) (chain : List String) (source : String)
    (s : Session σ) : (runAt host levels chain source s).2.context = s.context := by
  cases levels with
  | zero => rfl
  | succ n =>
    rw [runAt]
    cases Script.read source with
    | error e => rfl
    | ok body => rfl

theorem Keeps.runAt (host : Host) (levels : Nat) (chain : List String) (source : String) :
    Keeps (σ := σ) (runAt host levels chain source) := by
  intro s
  rw [runAt_context]
  exact .refl s.context

/-- What an included script diagnosed is told after what was diagnosed before. -/
theorem Keeps.include (host : Host) (levels : Nat) (name : String) :
    Keeps (σ := σ) (includeWith host (Run.runAt host levels) name) := by
  have told (ds : List Diagnostic) :
      Keeps (σ := σ) (ds.forM fun d => modifyContext (·.diagnose d)) := by
    induction ds with
    | nil => exact .ret ()
    | cons d ds ih => exact (Keeps.tells d).seq fun _ => ih
  refine Keeps.look.seq fun c => ?_
  dsimp only
  cases host.sources.resolve name with
  | error e =>
    split
    · exact (Keeps.fault _).seq fun _ => .fault e
    · exact .fault e
  | ok source =>
    have entered := (Keeps.runAt (σ := σ) host levels (c.chain ++ [name]) source).seq told
    split
    · exact (Keeps.fault _).seq fun _ => entered
    · exact entered

/-- The ways out of terms, with any numbers of levels. -/
def waysAt (host : Host) (scripts presets : Nat) : Ways σ :=
  let script := includeWith host (runAt host scripts)
  ⟨bodyAt script presets, script⟩

theorem Keeps.waysAt (host : Host) (scripts presets : Nat) :
    (keeping σ).SteadyWays (waysAt host scripts presets) :=
  Keeps.ways (.bodyAt (.include host scripts) presets) (.include host scripts)

/-! ### From outside -/

theorem Keeps.numbered (body : List (Term Unit)) : Keeps (σ := σ) (numbered body) := by
  refine Keeps.look.seq fun c => ?_
  exact .seq (fun s => .of_scopes rfl rfl rfl rfl rfl rfl rfl (List.prefix_refl _)) fun _ => .ret _

/-- What terms are given as ways out depends on the context, but only in the number of
levels. -/
theorem Keeps.waysOut {host : Host} {body : List (Term Nat)} {f : Ways σ → Eval σ α}
    (h : ∀ presets, Keeps (f (Run.waysAt host host.levels presets))) :
    Keeps (waysOut (visit host) body >>= f) := by
  intro s
  have out : Run.waysOut (visit host) body s =
      (.ok (Run.waysAt host host.levels
        (Script.presetsOf body + s.context.presets + 1)), s) := rfl
  rw [bind_run_ok out f]
  exact h _ s

theorem Keeps.runHere (host : Host) (source : String) : Keeps (σ := σ) (runHere host source) := by
  rw [Run.runHere]
  cases Script.read source with
  | error e => exact .fault (.source e)
  | ok body =>
    refine (Keeps.numbered body).seq fun body => .waysOut fun presets => ?_
    exact .of_steady ((Keeps.waysAt host host.levels presets).evalBody body fun _ _ => trivial)

theorem Keeps.evalHere (host : Host) (t : Term Unit) : Keeps (σ := σ) (evalHere host t) := by
  refine (Keeps.numbered [t]).seq fun body => .waysOut fun presets => ?_
  refine Keeps.seq ?_ fun values => .ret _
  exact .of_steady ((Keeps.waysAt host host.levels presets).evalArgs body fun _ _ => trivial)

theorem Keeps.callHere (host : Host) (name : String) (args : List (Term Unit)) :
    Keeps (σ := σ) (callHere host name args) := by
  refine (Keeps.numbered args).seq fun args => .waysOut fun presets => ?_
  exact .of_steady ((Keeps.waysAt host host.levels presets).callName name args fun _ _ => trivial)

/-- Goes on after a step that failed, with the fault as its result. -/
def attempt (x : Eval σ α) : Eval σ (Except Fault α) := fun s => (.ok (x s).1, (x s).2)

/-- The steps that can be done with a context from outside, in which every guard is left
before the one around it is: names are bound, something is told, terms are run, and all
this inside of guards, where a failure ends the guard or is caught. -/
inductive WellNested (host : Host) : {α : Type} → Eval σ α → Prop where
  | ret {α : Type} (a : α) : WellNested host (pure a)
  | fault {α : Type} (e : Fault) : WellNested host (α := α) (throw e)
  | seq {α β : Type} {x : Eval σ α} {f : α → Eval σ β} :
    WellNested host x → (∀ a, WellNested host (f a)) → WellNested host (x >>= f)
  | caught {α : Type} {x : Eval σ α} : WellNested host x → WellNested host (attempt x)
  | look : WellNested host context
  | tells (d : Diagnostic) : WellNested host (modifyContext (·.diagnose d))
  | binds (name : String) (b : Binding) : WellNested host (bindName name b)
  | source (text : String) : WellNested host (runHere host text)
  | term (t : Term Unit) : WellNested host (evalHere host t)
  | call (name : String) (args : List (Term Unit)) : WellNested host (callHere host name args)
  | framed {α : Type} {x : Eval σ α} : WellNested host x → WellNested host (framed x)
  | isolated {α : Type} {x : Eval σ α} : WellNested host x → WellNested host (isolated x)
  | atElement {α : Type} (id : Xml.NodeId) {x : Eval σ α} :
    WellNested host x → WellNested host (atElement id x)
  | onDocument {α : Type} (d : Xml.Document) {x : Eval σ α} :
    WellNested host x → WellNested host (onDocument d x)
  | inPreset {α : Type} (p : Preset) {x : Eval σ α} :
    WellNested host x → WellNested host (inPreset p x)

theorem WellNested.keeps {host : Host} {x : Eval σ α} (h : WellNested host x) : Keeps x := by
  induction h with
  | ret a => exact .ret a
  | fault e => exact .fault e
  | seq _ _ hx hf => exact hx.seq hf
  | caught _ hx => exact hx
  | look => exact .look
  | tells d => exact .tells d
  | binds name b => exact .binds name b
  | source text => exact .runHere host text
  | term t => exact .evalHere host t
  | call name args => exact .callHere host name args
  | framed _ hx => exact hx.framed
  | isolated _ hx => exact hx.isolated
  | atElement id _ hx => exact .of_steady (.atElement id hx.steady)
  | onDocument d _ hx => exact .of_steady (.onDocument d hx.steady)
  | inPreset p _ hx => exact hx.inPreset p

/-- Running a term, whichever it is and however it ends, leaves the context as it was but
for new names in the innermost scope, the content of the document and more diagnostics.
So does every well-nested use of the guards. -/
theorem evaluation_keeps_context (host : Host) :
    (∀ (scripts presets : Nat) (t : Term Nat) (s : Session σ),
      s.context.Keeps (eval (waysAt host scripts presets) t s).2.context) ∧
    ∀ {α : Type} {x : Eval σ α}, WellNested host x →
      ∀ s : Session σ, s.context.Keeps (x s).2.context := by
  refine ⟨fun scripts presets t => ?_, fun h => h.keeps⟩
  exact Keeps.of_steady ((Keeps.waysAt host scripts presets).eval t fun _ _ => trivial)

/-- A name that is bound twice inside of a guard, in a session of an included script. -/
theorem evaluation_keeps_context_of_duplicate :
    let s : Session MemoryStore := ⟨.new 7 ["main", "part"], ⟨[]⟩, []⟩
    let x : Eval MemoryStore Unit := framed do
      bindName "a" (.constant "1")
      bindName "a" (.constant "2")
    (x s).1 = .error (.duplicateBinding "a") ∧ s.context.Keeps (x s).2.context := by
  refine ⟨rfl, ?_⟩
  refine (evaluation_keeps_context ⟨[("part", .ok "")], 7⟩).2 (.framed ?_) _
  exact .seq (.binds "a" _) fun _ => .binds "a" _

end PatchScript.Run
