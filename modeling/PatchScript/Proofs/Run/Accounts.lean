import PatchScript.Proofs.Run.Calls
import PatchScript.Proofs.Run.Isolation

/-!
# Every run gives an account

Whatever the evaluator does from one session to another is something in the sense of
`Does`: this is what it means that a step *tells* what it does, and it is a congruence.
The names that presets are bound to have to be watched on the way, since the scripts that
a preset includes have to be among those that the script includes.
-/

namespace PatchScript.Run

open Script (Term)
open Eval

variable {σ α β : Type} [DocumentStore σ] {declared : Preset → Prop} {host : Host}
  {names : List String}

/-- Binding a name does not touch the document. -/
theorem Context.bind_document {c c' : Context} {name : String} {b : Binding}
    (h : c.bind name b = .ok c') : c'.document = c.document := by
  rw [Context.bind] at h
  split at h
  · cases h
  · split at h
    · cases h
      rfl
    · cases h
      rfl

/-! ## Presets that are declared -/

/-- That names are bound to declared presets only, as an invariance of steps. -/
def declaring (σ : Type) [DocumentStore σ] (declared : Preset → Prop) :
    Invariance σ declared where
  holds s := s.context.Declares declared
  leads _ _ := True
  admits _ := True
  refl _ := trivial
  trans _ _ := trivial
  declares h := h
  raises _ := trivial
  refuses _ := trivial
  recursion _ _ := trivial
  answers _ _ := trivial
  rejects _ _ := trivial
  unloaded _ := trivial
  unwritten _ := trivial
  binds hs hc hb := ⟨hs.bind hc hb.declares, trivial⟩
  skips _ hs := ⟨hs, trivial⟩
  edits hs _ _ _ := ⟨hs, trivial⟩
  asked _ hs := ⟨hs, trivial⟩
  written hs _ := ⟨hs, trivial⟩
  entersElement _ hs := hs.pushed rfl rfl
  leavesElement _ ht _ := ⟨ht.popped rfl rfl, trivial⟩
  entersDocument _ hs := hs.pushed rfl rfl
  leavesDocument _ ht _ := ⟨ht.popped rfl rfl, trivial⟩

/-- A preset is left with the frames that it was entered from. -/
theorem declaring_inPreset (p : Preset) {x : Eval σ α} (hx : (declaring σ declared).Steady x) :
    (declaring σ declared).Steady (inPreset p x) := by
  intro s hs
  cases h : s.context.activeFrom p.mark with
  | nil =>
    have hin := hx (s.comeTo (s.context.enterPreset p)) (hs.isolated rfl rfl)
    have hrun := within_run (·.enterPreset p) Context.leavePreset x s
    rw [← inPreset_run_nil h] at hrun
    exact .of_run hrun ⟨hs.rejoined hin.holds rfl rfl, trivial⟩ fun _ _ => trivial
  | cons q qs => exact .of_run (inPreset_run_cons h) ⟨hs, trivial⟩ fun _ _ => trivial

/-! ## Blocks -/

omit [DocumentStore σ] in
theorem ended_unit (r : Except Fault Unit) : ended r = r := by
  cases r <;> rfl

/-- What comes of opening a file is what comes of the block that is run then. -/
theorem Block.Runs.ends {b : Block σ} (h : b.Runs host) {w : Ways σ}
    (hbody : evalBody w b.body b.entered = (b.result, b.closed)) :
    ∃ r t, openFile b.path (evalBody w b.body) b.opened = (r, t) ∧ b.Ends r t := by
  let asked : Session σ := { b.opened with calls := b.opened.calls ++ [.load b.path] }
  let handing : Eval σ (Unit × Option Xml.Document) := do
    let answer ← evalBody w b.body
    return (answer, (← context).document)
  have hload : load b.path b.opened = (.ok (some b.loaded), asked) := by
    rw [load_run, h.found]
  have hwithin : onDocument b.loaded (evalBody w b.body) asked =
      ((handing b.entered).1,
        (handing b.entered).2.comeTo
          (b.opened.context.leaveDocument (handing b.entered).2.context)) :=
    within_run ..
  rw [openFile]
  rw [bind_run_ok hload]
  cases hresult : b.result with
  | error e =>
    rw [hresult] at hbody
    rw [show handing b.entered = (.error e, b.closed) from bind_run_error hbody _] at hwithin
    exact ⟨_, _, bind_run_error hwithin _, .failed hresult⟩
  | ok =>
    rw [hresult] at hbody
    have hhanding : handing b.entered = (.ok ((), some b.left), b.closed) := by
      refine (bind_run_ok hbody _).trans ?_
      rw [← h.left]
      rfl
    rw [hhanding] at hwithin
    cases hpersist : DocumentStore.persist b.ended.store b.path b.left with
    | ok store =>
      exact ⟨_, _, (bind_run_ok hwithin _).trans (persist_run_ok hpersist),
        .written hresult hpersist⟩
    | error e =>
      exact ⟨_, _, (bind_run_ok hwithin _).trans (persist_run_error hpersist),
        .refused hresult hpersist⟩

/-! ## Telling -/

/-- A step that tells what it does, in every session in which names are bound to declared
presets only, and leaves such a session. -/
structure Tells (host : Host) (names : List String) (declared : Preset → Prop)
    (x : Eval σ α) : Prop where
  /-- The names are bound to declared presets. -/
  declares : (declaring σ declared).Steady x
  /-- What the step does. -/
  does : ∀ s : Session σ, s.context.Declares declared →
    ∃ ds, Does host names s ds (ended (x s).1) (x s).2

namespace Tells

/-- What a step does in a session is enough to tell. -/
theorem does_of_run {x : Eval σ α} {s t : Session σ} {r : Except Fault α} {ds : List (Deed σ)}
    (h : x s = (r, t)) (hd : Does host names s ds (ended r) t) :
    ∃ ds, Does host names s ds (ended (x s).1) (x s).2 := by
  rw [h]
  exact ⟨ds, hd⟩

/-- Two steps, one after the other, do what they do. -/
theorem does_seq {x : Eval σ α} {f : α → Eval σ β} {s : Session σ}
    (hx : ∃ ds, Does host names s ds (ended (x s).1) (x s).2)
    (hf : ∀ a t, x s = (.ok a, t) → ∃ ds, Does host names t ds (ended (f a t).1) (f a t).2) :
    ∃ ds, Does host names s ds (ended ((x >>= f) s).1) ((x >>= f) s).2 := by
  obtain ⟨ds, hds⟩ := hx
  cases hrun : x s with
  | mk r t =>
    rw [hrun] at hds
    cases r with
    | ok a =>
      obtain ⟨ds', hds'⟩ := hf a t hrun
      rw [bind_run_ok hrun]
      exact ⟨ds ++ ds', .seq hds hds'⟩
    | error e => exact does_of_run (bind_run_error hrun f) hds

theorem ret (a : α) : Tells (σ := σ) host names declared (pure a) :=
  ⟨(declaring σ declared).ret a, fun s _ => ⟨[], .nothing s⟩⟩

theorem fault (e : Fault) : Tells (σ := σ) (α := α) host names declared (throw e) :=
  ⟨(declaring σ declared).fault trivial, fun s _ => ⟨[], .fails s e⟩⟩

theorem seq {x : Eval σ α} {f : α → Eval σ β} (hx : Tells host names declared x)
    (hf : ∀ a, Tells host names declared (f a)) : Tells host names declared (x >>= f) := by
  refine ⟨hx.declares.seq fun a => (hf a).declares, fun s hs => ?_⟩
  refine does_seq (hx.does s hs) fun a t hrun => (hf a).does t ?_
  have ht := (hx.declares s hs).holds
  rw [hrun] at ht
  exact ht

theorem look {f : Context → Eval σ β}
    (hf : ∀ c, c.Declares declared → Tells host names declared (f c)) :
    Tells host names declared (context >>= f) :=
  ⟨.look fun c hc => (hf c hc).declares, fun s hs => (hf s.context hs).does s hs⟩

theorem bindName (name : String) {b : Binding} (hb : Made declared b) :
    Tells (σ := σ) host names declared (bindName name b) := by
  refine ⟨(declaring σ declared).bindName name hb, fun s _ => ?_⟩
  cases h : s.context.bind name b with
  | ok c => exact does_of_run (bindName_run_ok h) (.turns (Context.bind_document h))
  | error e => exact does_of_run (bindName_run_error h) (.fails s e)

theorem diagnose (d : Diagnostic) :
    Tells (σ := σ) host names declared (modifyContext (·.diagnose d)) :=
  ⟨fun s hs => .of_run (modifyContext_run _ s) ⟨hs, trivial⟩ fun _ _ => trivial,
    fun s _ => does_of_run (modifyContext_run _ s) (.turns rfl)⟩

theorem ask {question : Xml.Document → Except XPath.Error α} (none' : α)
    (hq : Question question) : Tells (σ := σ) host names declared (ask question none') := by
  refine ⟨(declaring σ declared).ask none' hq, fun s _ => ?_⟩
  cases hd : s.context.document with
  | none => exact does_of_run (ask_run_none hd) (.nothing s)
  | some d =>
    cases hqd : question d with
    | ok answer =>
      exact does_of_run ((ask_run_some hd).trans (by rw [hqd])) (.nothing s)
    | error e =>
      exact does_of_run ((ask_run_some hd).trans (by rw [hqd])) (.fails s (.xpath e))

theorem change {f : Xml.Document → Except Xml.Error (Xml.Document × α)} (hf : Edit f) :
    Tells (σ := σ) host names declared (change f) := by
  refine ⟨(declaring σ declared).change hf, fun s _ => ?_⟩
  cases hd : s.context.document with
  | none => exact does_of_run (change_run_none hd) (.nothing s)
  | some d =>
    cases hfd : f d with
    | ok r =>
      obtain ⟨d', a⟩ := r
      obtain ⟨e, happly⟩ := hf.change
      exact does_of_run (change_run_ok hd hfd) (.changed hd (happly hfd))
    | error e => exact does_of_run (change_run_error hd hfd) (.fails s (.xml e))

theorem atElement (id : Xml.NodeId) {x : Eval σ α} (hx : Tells host names declared x) :
    Tells host names declared (atElement id x) := by
  refine ⟨hx.declares.atElement id, fun s hs => ?_⟩
  obtain ⟨ds, hds⟩ := hx.does (s.comeTo (s.context.enterElement id)) (hs.pushed rfl rfl)
  exact ⟨ds, .within (c := s.context.enterElement id) rfl hds rfl⟩

theorem inPreset (p : Preset) {x : Eval σ α} (hx : Tells host names declared x) :
    Tells host names declared (inPreset p x) := by
  refine ⟨declaring_inPreset p hx.declares, fun s hs => ?_⟩
  cases h : s.context.activeFrom p.mark with
  | nil =>
    obtain ⟨ds, hds⟩ := hx.does (s.comeTo (s.context.enterPreset p)) (hs.isolated rfl rfl)
    rw [inPreset_run_nil h]
    exact ⟨ds, .within (c := s.context.enterPreset p) rfl hds rfl⟩
  | cons q qs => exact does_of_run (inPreset_run_cons h) (.fails s _)

/-! ### Files -/

/-- Opening a file tells what is done inside of it, if that is done with ways out of terms
that runs have. -/
theorem openFile (path : String) {w : Ways σ} (body : List (Term Nat))
    (hw : ∃ scripts presets, w = waysAt host scripts presets)
    (hx : Tells host names declared (evalBody w body)) {s : Session σ}
    (hs : s.context.Declares declared) (hnone : s.context.document = none) :
    ∃ ds, Does host names s ds (ended (openFile path (evalBody w body) s).1)
      (openFile path (evalBody w body) s).2 := by
  have hload := load_run path s
  cases hfound : DocumentStore.load s.store path with
  | error e =>
    rw [hfound] at hload
    exact does_of_run (bind_run_error hload _) (.unread hnone hfound)
  | ok found =>
    cases found with
    | none =>
      rw [hfound] at hload
      exact does_of_run (bind_run_ok hload _) (.seq (.absent hnone hfound) (.turns rfl))
    | some d =>
      obtain ⟨scripts, presets, rfl⟩ := hw
      let asked : Session σ := { s with calls := s.calls ++ [.load path] }
      let entered := asked.comeTo (s.context.enterDocument d)
      obtain ⟨ds, hds⟩ := hx.does entered (hs.pushed rfl rfl)
      obtain ⟨-, left, hleft, -⟩ := hds.open (d := d) rfl
      let b : Block σ := ⟨path, body, s, d, (evalBody (waysAt host scripts presets) body entered).1,
        (evalBody (waysAt host scripts presets) body entered).2, left⟩
      have hruns : b.Runs host := ⟨hnone, hfound, ⟨scripts, presets, rfl⟩, hleft⟩
      obtain ⟨r, t, hrun, hends⟩ := hruns.ends (w := waysAt host scripts presets) rfl
      rw [ended_unit] at hds
      have hdoes : Does host names s [.block b ds] (ended r) t := by
        rw [ended_unit]
        exact .block hruns hds hends
      exact does_of_run hrun hdoes

/-- A file block tells what its path and its body tell. -/
theorem file {w : Ways σ} {path : Term Nat} {body : List (Term Nat)}
    (hw : ∃ scripts presets, w = waysAt host scripts presets)
    (hpath : Tells host names declared (eval w path))
    (hbody : Tells host names declared (evalBody w body)) :
    Tells host names declared (eval w (.file path body)) := by
  refine ⟨hpath.declares.file hbody.declares, fun s hs => ?_⟩
  rw [eval]
  rw [context_bind_run]
  cases hd : s.context.document with
  | some d => exact ⟨[], .turns rfl⟩
  | none =>
    obtain ⟨ds, hds⟩ := hpath.does s hs
    refine does_seq ⟨ds, hds⟩ fun at' t hrun => ?_
    have ht := (hpath.declares s hs).holds
    have hnone := hds.closed hd
    rw [hrun] at ht hnone
    exact does_seq (openFile (at'.getD "") body hw hbody ht hnone) fun _ u _ => ⟨[], .nothing u⟩

end Tells

/-! ## Scripts -/

/-- The presets whose bodies include scripts of the names only. -/
def Within (names : List String) (p : Preset) : Prop := Script.includesOf p.body ⊆ names

/-- Terms that include scripts of the names only lead to such presets and such scripts. -/
theorem covered_of_includes {body : List (Term Nat)} (h : Script.includesOf body ⊆ names) :
    CoveredAll (Within names) (· ∈ names) body :=
  .of_forall body (fun _ hp => List.Subset.trans (includesOf_of_declared body hp) h)
    fun _ hname => h hname

/-- Telling is a property that every way to put steps together keeps. -/
def telling (σ : Type) [DocumentStore σ] (host : Host) (names : List String) :
    Congruence σ σ (Within names) (· ∈ names) where
  related x _ := Tells host names (Within names) x
  follows w _ := ∃ scripts presets, w = waysAt host scripts presets
  ret := .ret
  seq hx hf := hx.seq hf
  look hf := .look hf
  fault {_ e} _ := .fault e
  binds name _ hb := .bindName name hb
  skips why := .diagnose why.diagnostic
  asks none' hq := .ask none' hq
  changes hf := .change hf
  elements id _ _ hx := hx.atElement id
  files hw hpath hbody := .file hw hpath hbody

/-- The ways out of terms are told, if those to scripts are. -/
theorem telling_along {scripts : Nat}
    (hscript : ∀ name ∈ names, Tells host names (Within names)
      (includeWith (σ := σ) host (runAt host scripts) name)) (presets : Nat) :
    (telling σ host names).Along (waysAt host scripts presets) (waysAt host scripts presets) := by
  have body : ∀ p, Within names p → Tells host names (Within names)
      (bodyAt (includeWith (σ := σ) host (runAt host scripts)) presets p.body) := by
    induction presets with
    | zero => exact fun _ _ => .fault .levels
    | succ n ih =>
      intro p hp
      have along : (telling σ host names).Along (waysAt host scripts n) (waysAt host scripts n) :=
        ⟨⟨scripts, n, rfl⟩, fun q values hq =>
          (((telling σ host names).bindParams q.name 0 q.params values).seq fun _ =>
            ih q hq).inPreset q, hscript⟩
      exact Congruence.evalBody along p.body (covered_of_includes hp)
  refine ⟨⟨scripts, presets, rfl⟩, fun p values hp => ?_, hscript⟩
  have filled := (telling σ host names).bindParams p.name 0 p.params values
  exact (filled.seq fun _ => body p hp).inPreset p

/-- A script that is played leaves the context as it was. -/
theorem Plays.context {chain : List String} {source : String} {s t : Session σ}
    {ds : List (Deed σ)} {r : Except Fault Unit} (h : Plays host chain source s ds r t) :
    t.context = s.context := by
  cases h with
  | fails => rfl
  | runs => rfl

/-- An included script tells what is played. -/
theorem tells_includeWith {run : List String → String → Eval σ (List Diagnostic)}
    (hrun : ∀ chain source s, ∃ ds,
      Plays host chain source s ds (ended (run chain source s).1) (run chain source s).2)
    {name : String} (hname : name ∈ names) :
    Tells host names (Within names) (includeWith host run name) := by
  have told (ds : List Diagnostic) : Tells (σ := σ) host names (Within names)
      (ds.forM fun d => modifyContext (·.diagnose d)) :=
    (telling σ host names).forM (g := fun d => modifyContext (·.diagnose d)) ds
      fun d => .diagnose d
  have kept (chain : List String) (source : String) :
      (declaring σ (Within names)).Steady (run chain source) := by
    intro s hs
    obtain ⟨ds, hds⟩ := hrun chain source s
    refine ⟨?_, trivial, fun _ _ => trivial⟩
    show (run chain source s).2.context.Declares (Within names)
    rw [hds.context]
    exact hs
  have declares : (declaring σ (Within names)).Steady (includeWith host run name) := by
    refine .look fun c _ => ?_
    dsimp only
    cases host.sources.resolve name with
    | error e =>
      split
      · exact ((declaring σ _).fault trivial).seq fun _ => (declaring σ _).fault trivial
      · exact (declaring σ _).fault trivial
    | ok source =>
      have entered := (kept (c.chain ++ [name]) source).seq fun ds => (told ds).declares
      split
      · exact ((declaring σ _).fault trivial).seq fun _ => entered
      · exact entered
  refine ⟨declares, fun s hs => ?_⟩
  rw [includeWith]
  rw [context_bind_run]
  dsimp only
  split
  · exact ⟨[], .fails s _⟩
  · cases hresolve : host.sources.resolve name with
    | error e => exact ⟨[], .fails s e⟩
    | ok source =>
      obtain ⟨ds, hds⟩ := hrun (s.context.chain ++ [name]) source s
      refine Tells.does_seq ?_ fun diagnostics t ht => (told diagnostics).does t ?_
      · generalize ended (run (s.context.chain ++ [name]) source s).1 = r at hds
        generalize (run (s.context.chain ++ [name]) source s).2 = t at hds
        cases hds with
        | fails e => exact ⟨[], .fails s e⟩
        | runs hread hdoes => exact ⟨_, .included hname hresolve hread hdoes⟩
      · have hcontext := (kept (s.context.chain ++ [name]) source s hs).holds
        rw [ht] at hcontext
        exact hcontext

/-- What terms do that are run in a context. -/
theorem does_runTerms {levels : Nat} {body : List (Term Unit)}
    (hscript : ∀ name ∈ Script.includesOf body,
      Tells host (Script.includesOf body) (Within (Script.includesOf body))
        (includeWith (σ := σ) host (runAt host levels) name))
    {s : Session σ} (hs : s.context.Declares (Within (Script.includesOf body))) :
    ∃ ds, Does host (Script.includesOf body) s ds
      (ended (runTerms (includeWith host (runAt host levels)) body s).1)
      (runTerms (includeWith host (runAt host levels)) body s).2 := by
  let next := Script.numberAll s.context.nextMark body
  let t := s.comeTo { s.context with nextMark := next.2 }
  let presets := Script.presetsOf next.1 + t.context.presets + 1
  have hcounted : numbered body s = (.ok next.1, t) := rfl
  have hways : waysOut (includeWith host (runAt host levels)) next.1 t =
      (.ok (waysAt host levels presets), t) := rfl
  have hbody : Tells host (Script.includesOf body) (Within (Script.includesOf body))
      (evalBody (waysAt (σ := σ) host levels presets) next.1) := by
    refine Congruence.evalBody (telling_along hscript presets) next.1 (covered_of_includes ?_)
    rw [includesOf_numberAll]
    exact List.Subset.refl _
  refine Tells.does_seq (Tells.does_of_run hcounted (.turns rfl)) fun numbered u hu => ?_
  rw [hcounted] at hu
  cases hu
  rw [bind_run_ok hways]
  exact hbody.does t hs

/-- Whatever a source does that is run, it plays. -/
theorem plays_runAt (host : Host) : ∀ (levels : Nat) (chain : List String) (source : String)
    (s : Session σ), ∃ ds, Plays host chain source s ds
      (ended (runAt host levels chain source s).1) (runAt host levels chain source s).2 := by
  intro levels
  induction levels with
  | zero => exact fun _ _ s => ⟨[], .fails s .levels⟩
  | succ n ih =>
    intro chain source s
    unfold runAt
    cases hread : Script.read source with
    | error e => exact ⟨[], .fails s (.source e)⟩
    | ok body =>
      have hnew : (s.comeTo (.new host.seed chain)).context.Declares
          (Within (Script.includesOf body)) := .new host.seed chain
      have hentered := does_runTerms (fun name hname => tells_includeWith ih hname) hnew
      obtain ⟨ds, hds⟩ := Tells.does_seq hentered (f := fun _ => do
        return (← context).diagnostics) fun _ t _ => ⟨[], .nothing t⟩
      exact ⟨ds, .runs hread hds⟩

/-! ## Whole runs -/

/-- What a run is started with. -/
inductive Start where
  /-- A source that has no name. -/
  | text (source : String)
  /-- The script of a name. -/
  | script (name : String)

namespace Start

/-- The source that is run. -/
def source (start : Start) (host : Host) : Except Fault String :=
  match start with
  | .text source => .ok source
  | .script name => host.sources.resolve name

/-- The names of the scripts that run at first. -/
def chain : Start → List String
  | .text _ => []
  | .script name => [name]

/-- The run. -/
def run (start : Start) (host : Host) (store : σ) : Outcome σ :=
  match start with
  | .text source => runSource host store source
  | .script name => runScript host store name

/-- What is done in a run that has the outcome. -/
inductive Performs (start : Start) (host : Host) (store : σ) (ds : List (Deed σ)) (o : Outcome σ) :
    Prop where
  | unresolved {e : Fault} : start.source host = .error e → ds = [] →
    o = ⟨.error e, store, []⟩ → Performs start host store ds o
  | played {source : String} {t : Session σ} : start.source host = .ok source →
    Plays host start.chain source (.new host store) ds (ended o.result) t →
    o.store = t.store → o.calls = t.calls → Performs start host store ds o

/-- Every run does something. -/
theorem performs (start : Start) (host : Host) (store : σ) :
    ∃ ds, start.Performs host store ds (start.run host store) := by
  cases start with
  | text source =>
    obtain ⟨ds, hds⟩ := plays_runAt host host.levels [] source (.new host store)
    exact ⟨ds, .played rfl hds rfl rfl⟩
  | script name =>
    rw [run, runScript]
    cases hresolve : host.sources.resolve name with
    | error e => exact ⟨[], .unresolved hresolve rfl rfl⟩
    | ok source =>
      obtain ⟨ds, hds⟩ := plays_runAt host host.levels [name] source (.new host store)
      exact ⟨ds, .played hresolve hds rfl rfl⟩

variable {start : Start} {store : σ} {ds : List (Deed σ)} {o : Outcome σ}

/-- What is done in a run is done in a session in which nothing has happened. -/
theorem Performs.session (h : start.Performs host store ds o) : ∃ names s t,
    Does host names s ds (ended o.result) t ∧
      s.context.document = none ∧ s.calls = [] ∧ o.calls = t.calls ∧
      (Unnoticing σ → s.store = store ∧ o.store = t.store) := by
  cases h with
  | @unresolved e _ hds ho =>
    subst hds ho
    exact ⟨[], .new host store, .new host store, .fails _ e, rfl, rfl, rfl, fun _ => ⟨rfl, rfl⟩⟩
  | played _ hplays hstore hcalls =>
    generalize ended o.result = r at hplays
    cases hplays with
    | fails e =>
      exact ⟨[], .new host store, .new host store, .fails _ e, rfl, rfl, hcalls,
        fun _ => ⟨rfl, hstore⟩⟩
    | @runs t body _ _ _ hdoes =>
      refine ⟨Script.includesOf body, _, t, hdoes, rfl, rfl, hcalls, fun hσ => ?_⟩
      exact ⟨hσ _ _, hstore.trans (hσ _ _)⟩

/-- A run includes what stands in its source. -/
theorem Performs.scripts (h : start.Performs host store ds o) {source : String}
    {body : List (Term Unit)} (hsource : start.source host = .ok source)
    (hread : Script.read source = .ok body) : scriptsOf ds ⊆ Script.includesOf body := by
  cases h with
  | unresolved _ hds _ =>
    subst hds
    exact List.nil_subset _
  | played hsource' hplays _ _ =>
    rw [hsource] at hsource'
    cases hsource'
    generalize ended o.result = r at hplays
    cases hplays with
    | fails => exact List.nil_subset _
    | runs hread' hdoes =>
      rw [hread] at hread'
      cases hread'
      exact hdoes.scripts

end Start

end PatchScript.Run
