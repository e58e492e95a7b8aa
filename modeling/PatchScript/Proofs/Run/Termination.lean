import PatchScript.Proofs.Run.Confinement
import PatchScript.Proofs.Run.Watching
import PatchScript.Proofs.Script.Reading
import PatchScript.Proofs.XPath.Reading
import Mathlib.Data.List.Nodup
import Mathlib.Data.List.TakeWhile

/-!
# Runs end

The evaluator counts down a number of levels for the presets that run inside each other
and another for the scripts, and gives up when a number is used up.  Here it is shown
that this never happens, so that a run ends by itself, whatever the scripts include and
the presets use.

Two facts about every state of a run carry this.  No script is entered that runs
already, so the chain of scripts holds no name twice, and it holds only names of sources.
No preset is entered that runs already, so the active presets have different marks, and
they are among the presets that the script declares.  So there are never more scripts
inside each other than sources, nor more presets than declarations.
-/

namespace PatchScript.Run

open Script (Term)
open Eval

/-! ## Faults -/

/-- Is the fault that levels were used up? -/
def Fault.isLevels : Fault → Bool
  | .levels => true
  | .source (.parse e) => e.fault == .levels
  | .xpath (.unreadable _ fault) => fault == .levels
  | _ => false

theorem isLevels_of_read {source : String} {e : Script.SourceError}
    (h : Script.read source = .error e) : (Fault.source e).isLevels = false := by
  rw [Script.read] at h
  cases hlex : Script.lex source with
  | error e' =>
    rw [hlex] at h
    cases h
    rfl
  | ok ts =>
    rw [hlex] at h
    have h : (Script.parse ts).mapError Script.SourceError.parse = .error e := h
    cases hparse : Script.parse ts with
    | ok body =>
      rw [hparse] at h
      cases h
    | error e' =>
      rw [hparse] at h
      cases h
      exact beq_eq_false_iff_ne.mpr (Script.parse_ne_levels hparse)

theorem isLevels_of_raised {e : Fault} (h : Raised e) : e.isLevels = false := by
  cases h <;> rfl

theorem isLevels_of_bind {c : Context} {name : String} {b : Binding} {e : Fault}
    (h : c.bind name b = .error e) : e.isLevels = false := by
  rw [Context.bind] at h
  split at h
  · cases h
    rfl
  · split at h <;> cases h

theorem isLevels_of_question {α : Type} {question : Xml.Document → Except XPath.Error α}
    {d : Xml.Document} {e : XPath.Error} (hq : Question question) (h : question d = .error e) :
    (Fault.xpath e).isLevels = false := by
  have suffice : XPath.LevelsSuffice (question d) := by
    cases hq with
    | first id selector => exact .selectFirst? d id selector
    | every id selector => exact .selectElements d id selector
    | text id expression => exact (XPath.LevelsSuffice.evaluateString d id expression).map
  rw [h] at suffice
  cases e with
  | unreadable text fault =>
    refine beq_eq_false_iff_ne.mpr ?_
    rintro rfl
    exact suffice text rfl
  | _ => rfl

/-- The faults of a store are its own. -/
structure OwnFaults (σ : Type) [DocumentStore σ] : Prop where
  load {store : σ} {path : String} {e : Fault} :
    DocumentStore.load store path = .error e → e.isLevels = false
  persist {store : σ} {path : String} {d : Xml.Document} {e : Fault} :
    DocumentStore.persist store path d = .error e → e.isLevels = false

theorem MemoryStore.ownFaults : OwnFaults MemoryStore where
  load {store path e} h := by
    have h : store.load path = .error e := h
    rw [MemoryStore.load] at h
    split at h
    · cases h
    · rename_i text _
      cases hread : Xml.Document.read text with
      | ok d => rw [hread] at h; cases h
      | error e => rw [hread] at h; cases h; rfl
  persist h := by cases h

/-! ## What is known during a run -/

/-- No script runs inside itself, and no preset does. -/
structure Context.Distinct (c : Context) : Prop where
  /-- The scripts have different names. -/
  chain : c.chain.Nodup
  /-- The presets have different marks. -/
  active : (c.active.map (·.mark)).Nodup

variable {σ : Type} [DocumentStore σ]

/-- A state of a run of a script: the presets that can be called are declared in the
script, the scripts and presets that run are given, and in all states before and now
they are different. -/
structure Running (program : List (Term Nat)) (chain : List String) (active : List Preset)
    (s : Session (Watched σ)) : Prop where
  declares : s.context.Declares (· ∈ declarationsOf program)
  chain : s.context.chain = chain
  active : s.context.active = active
  distinct : s.context.Distinct
  seen : ∀ c ∈ s.store.seen, c.Distinct

variable {program : List (Term Nat)} {chain : List String} {active : List Preset}

theorem Context.Distinct.of_eq {c c' : Context} (h : c.Distinct) (hchain : c'.chain = c.chain)
    (hactive : c'.active = c.active) : c'.Distinct :=
  ⟨by rw [hchain]; exact h.chain, by rw [hactive]; exact h.active⟩

namespace Running

/-- A run that comes to a context takes note of it. -/
theorem comeTo {s : Session (Watched σ)} {chain' : List String} {active' : List Preset}
    {program' : List (Term Nat)} (hs : Running program chain active s) {c : Context}
    (hdeclares : c.Declares (· ∈ declarationsOf program')) (hchain : c.chain = chain')
    (hactive : c.active = active') (hc : c.Distinct) :
    Running program' chain' active' (s.comeTo c) where
  declares := hdeclares
  chain := hchain
  active := hactive
  distinct := hc
  seen := List.forall_mem_append.mpr ⟨hs.seen, List.forall_mem_singleton.mpr hc⟩

/-- A run that stays in the same script and preset. -/
theorem stay {s : Session (Watched σ)} (hs : Running program chain active s) {c : Context}
    (hdeclares : c.Declares (· ∈ declarationsOf program)) (hchain : c.chain = s.context.chain)
    (hactive : c.active = s.context.active) : Running program chain active (s.comeTo c) :=
  hs.comeTo hdeclares (hchain.trans hs.chain) (hactive.trans hs.active)
    (hs.distinct.of_eq hchain hactive)

end Running

/-- That the state is one of the run, as an invariance of steps: of the ways of the run
nothing is asked, and levels are never used up. -/
def running (hσ : OwnFaults σ) (program : List (Term Nat)) (chain : List String)
    (active : List Preset) : Invariance (Watched σ) (· ∈ declarationsOf program) where
  holds := Running program chain active
  leads _ _ := True
  admits e := e.isLevels = false
  refl _ := trivial
  trans _ _ := trivial
  declares h := h.declares
  raises h := isLevels_of_raised h
  refuses h := isLevels_of_bind h
  recursion _ _ := rfl
  answers hq h := isLevels_of_question hq h
  rejects _ _ := rfl
  unloaded h := hσ.load h
  unwritten {store path d e} h := by
    cases hp : DocumentStore.persist store.store path d with
    | ok store' =>
      have h : (DocumentStore.persist store.store path d).map _ = .error e := h
      rw [hp] at h
      cases h
    | error e' =>
      have h : (DocumentStore.persist store.store path d).map _ = .error e := h
      rw [hp] at h
      cases h
      exact hσ.persist hp
  binds hs hc hb :=
    have keeps := Context.Keeps.bind hc
    ⟨hs.stay (hs.declares.bind hc hb.declares) keeps.chain keeps.active, trivial⟩
  skips _ hs := ⟨hs.stay hs.declares rfl rfl, trivial⟩
  edits hs _ _ _ := ⟨hs.stay hs.declares rfl rfl, trivial⟩
  asked _ hs := ⟨{ hs with }, trivial⟩
  written {s path d store} hs h := by
    refine ⟨{ hs with seen := ?_ }, trivial⟩
    cases hp : DocumentStore.persist s.store.store path d with
    | ok store' =>
      have h : (DocumentStore.persist s.store.store path d).map _ = .ok store := h
      rw [hp] at h
      cases h
      exact hs.seen
    | error e =>
      have h : (DocumentStore.persist s.store.store path d).map _ = .ok store := h
      rw [hp] at h
      cases h
  entersElement _ hs := hs.stay (hs.declares.pushed rfl rfl) rfl rfl
  leavesElement _ ht _ := ⟨ht.stay (ht.declares.popped rfl rfl) rfl rfl, trivial⟩
  entersDocument _ hs := hs.stay (hs.declares.pushed rfl rfl) rfl rfl
  leavesDocument _ ht _ := ⟨ht.stay (ht.declares.popped rfl rfl) rfl rfl, trivial⟩

variable {hσ : OwnFaults σ}

/-! ## Presets -/

theorem nodup_marks_concat {p : Preset} (h : (active.map (·.mark)).Nodup)
    (fresh : p.mark ∉ active.map (·.mark)) : ((active ++ [p]).map (·.mark)).Nodup := by
  rw [List.map_append, List.map_singleton]
  refine h.append (List.nodup_singleton _) ?_
  exact List.disjoint_singleton.mpr fresh

/-- A preset that runs already is not entered, so inside of a preset it is one more that
runs. -/
theorem steady_inPreset {p : Preset} {x : Eval (Watched σ) Unit}
    (h : p.mark ∉ active.map (·.mark) → (running hσ program chain (active ++ [p])).Steady x) :
    (running hσ program chain active).Steady (inPreset p x) := by
  intro s hs
  cases hfrom : s.context.activeFrom p.mark with
  | cons q qs =>
    refine .of_run (inPreset_run_cons hfrom) ⟨hs, trivial⟩ fun e he => ?_
    cases he
    rfl
  | nil =>
    have fresh : p.mark ∉ active.map (·.mark) := by
      have hall := List.dropWhile_eq_nil_iff.mp hfrom
      rw [hs.active] at hall
      intro hmem
      obtain ⟨q, hq, hmark⟩ := List.mem_map.mp hmem
      simpa [hmark] using hall q hq
    have marks : ((active ++ [p]).map (·.mark)).Nodup := by
      have hactive := hs.distinct.active
      rw [hs.active] at hactive
      exact nodup_marks_concat hactive fresh
    have hin := h fresh (s.comeTo (s.context.enterPreset p)) <| by
      have hactive : (s.context.enterPreset p).active = active ++ [p] := by
        show s.context.active ++ [p] = _
        rw [hs.active]
      refine hs.comeTo (hs.declares.isolated rfl rfl) hs.chain hactive ⟨hs.distinct.chain, ?_⟩
      rwa [hactive]
    have hrun := within_run (·.enterPreset p) Context.leavePreset x s
    rw [← inPreset_run_nil hfrom] at hrun
    refine .of_run hrun ⟨?_, trivial⟩ hin.admits
    have left : (s.context.leavePreset
        (x (s.comeTo (s.context.enterPreset p))).2.context).active = active := by
      show (x (s.comeTo (s.context.enterPreset p))).2.context.active.dropLast = _
      rw [hin.holds.active, List.dropLast_concat]
    refine hin.holds.comeTo (hs.declares.rejoined hin.holds.declares rfl rfl) hin.holds.chain left
      ⟨hin.holds.distinct.chain, ?_⟩
    rw [left, ← hs.active]
    exact hs.distinct.active

/-- Presets that are declared and have different marks are no more than are declared. -/
theorem length_active_le (hactive : active ⊆ declarationsOf program)
    (hmarks : (active.map (·.mark)).Nodup) : active.length ≤ Script.presetsOf program := by
  rw [← length_declarationsOf]
  exact (List.Nodup.of_map _ hmarks).length_le_of_subset hactive

/-- The levels for presets suffice: with those that run they are more than the presets
of the script. -/
theorem steady_bodyAt {script : String → Eval (Watched σ) Unit}
    (hscript : ∀ active name, (running hσ program chain active).Steady (script name)) :
    ∀ (levels : Nat) (active : List Preset), active ⊆ declarationsOf program →
    (active.map (·.mark)).Nodup → Script.presetsOf program < levels + active.length →
    ∀ body, declarationsOf body ⊆ declarationsOf program →
    (running hσ program chain active).Steady (bodyAt script levels body) := by
  intro levels
  induction levels with
  | zero =>
    intro active hactive hmarks hlevels
    have := length_active_le hactive hmarks
    omega
  | succ n ih =>
    intro active hactive hmarks hlevels body hbody
    have ways : (running hσ program chain active).SteadyWays ⟨bodyAt script n, script⟩ := by
      refine ⟨fun p values hp => steady_inPreset fun fresh => ?_, hscript active⟩
      refine ((running hσ program chain _).bindParams p.name 0 p.params values).seq fun _ => ?_
      refine ih (active ++ [p]) ?_ ?_ ?_ p.body (declarationsOf_closed program hp)
      · exact List.append_subset.mpr ⟨hactive, List.cons_subset.mpr ⟨hp, List.nil_subset _⟩⟩
      · exact nodup_marks_concat hmarks fresh
      · rw [List.length_append, List.length_singleton]
        omega
    exact ways.evalBody body fun p hp => hbody hp

/-! ## Scripts -/

theorem Sources.resolve_ok {sources : Sources} {name source : String}
    (h : sources.resolve name = .ok source) : name ∈ sources.map (·.1) := by
  rw [Sources.resolve] at h
  split at h
  · rename_i name' entry hfind
    have hmem := List.mem_of_find?_eq_some hfind
    have hname := List.find?_some hfind
    exact List.mem_map.mpr ⟨_, hmem, by simpa using hname⟩
  · cases h

/-- Terms that run in a new context have as many levels as they need. -/
theorem steady_runTerms {script : String → Eval (Watched σ) Unit} {body : List (Term Unit)}
    (hscript : ∀ active name,
      (running hσ (Script.numberAll 0 body).1 chain active).Steady (script name))
    {s : Session (Watched σ)} (hmark : s.context.nextMark = 0)
    (hs : Running (Script.numberAll 0 body).1 chain [] s) :
    (running hσ (Script.numberAll 0 body).1 chain []).SteadyAt (runTerms script body) s := by
  have counted : numbered body s =
      (.ok (Script.numberAll 0 body).1,
        s.comeTo { s.context with nextMark := (Script.numberAll 0 body).2 }) := by
    rw [← hmark]
    rfl
  have first : (running hσ (Script.numberAll 0 body).1 chain []).SteadyAt (numbered body) s :=
    .of_run counted ⟨hs.stay hs.declares rfl rfl, trivial⟩ fun e he => by
      cases he
  refine first.seq fun program t hrun ht => ?_
  rw [counted] at hrun
  cases hrun
  generalize hprogram : (Script.numberAll 0 body).1 = program at *
  generalize s.comeTo _ = t at *
  -- The terms themselves take a level too, and there are two more than presets.
  have ran : (waysOut script program >>= fun w => evalBody w program) t =
      bodyAt script (Script.presetsOf program + t.context.presets + 2) program t := rfl
  refine Invariance.SteadyAt.congr ?_ ran
  refine steady_bodyAt hscript _ [] (List.nil_subset _) List.nodup_nil ?_ program
    (List.Subset.refl _) t ht
  rw [List.length_nil]
  omega

/-- The sources are enough for the scripts that run inside each other. -/
def Host.Holds (host : Host) (levels : Nat) (chain : List String) : Prop :=
  chain ⊆ host.sources.map (·.1) ∧ host.sources.length < levels + chain.length

theorem Host.Holds.levels_ne_zero {host : Host} {levels : Nat} (h : host.Holds levels chain)
    (hchain : chain.Nodup) : levels ≠ 0 := by
  have hle := hchain.length_le_of_subset h.1
  rw [List.length_map] at hle
  have := h.2
  omega

section

variable {host : Host}
  (hhost : ∀ name e, host.sources.resolve name = .error e → e.isLevels = false)

include hhost

/-- An included script is one more that runs, since none is included that runs already. -/
theorem steady_includeWith {levels : Nat} (hlevels : host.Holds (levels + 1) chain)
    (hrun : ∀ name source, (chain ++ [name]).Nodup → host.Holds levels (chain ++ [name]) →
      (running hσ program chain active).Steady (runAt host levels (chain ++ [name]) source))
    (name : String) :
    (running hσ program chain active).Steady (includeWith host (runAt host levels) name) := by
  have told (ds : List Diagnostic) : (running hσ program chain active).Steady
      (ds.forM fun d => modifyContext (·.diagnose d)) := by
    refine .forM ds fun d s hs => ?_
    exact .of_run (modifyContext_run _ s) ⟨hs.stay hs.declares rfl rfl, trivial⟩ fun e he => by
      cases he
  intro s hs
  refine Invariance.SteadyAt.congr ?_ (context_bind_run _ s)
  dsimp only
  split
  · have cycle := (running hσ program chain active).fault (α := PUnit)
      (e := .includeCycle (s.context.chain ++ [name])) rfl
    exact (cycle s hs).seq fun a t h => by cases h
  · rename_i fresh
    rw [hs.chain] at fresh ⊢
    cases hresolve : host.sources.resolve name with
    | error e => exact Invariance.fault _ (hhost name e hresolve) s hs
    | ok source =>
      have hnodup : (chain ++ [name]).Nodup := by
        have hchain := hs.distinct.chain
        rw [hs.chain] at hchain
        exact hchain.append (List.nodup_singleton _) (List.disjoint_singleton.mpr fresh)
      have hholds : host.Holds levels (chain ++ [name]) := by
        refine ⟨List.append_subset.mpr ⟨hlevels.1, ?_⟩, ?_⟩
        · exact List.cons_subset.mpr ⟨Sources.resolve_ok hresolve, List.nil_subset _⟩
        · have := hlevels.2
          rw [List.length_append, List.length_singleton]
          omega
      exact Invariance.Steady.seq (hrun name source hnodup hholds) told s hs

/-- The levels for scripts suffice: with those that run they are more than the sources. -/
theorem steady_runAt : ∀ (levels : Nat) {chain' : List String}, chain'.Nodup →
    host.Holds levels chain' → ∀ (source : String) (program : List (Term Nat))
    (chain : List String) (active : List Preset),
    (running hσ program chain active).Steady (runAt host levels chain' source) := by
  intro levels
  induction levels with
  | zero =>
    intro chain' hchain hlevels
    exact absurd rfl (hlevels.levels_ne_zero hchain)
  | succ n ih =>
    intro chain' hchain hlevels source program chain active
    rw [runAt]
    cases hread : Script.read source with
    | error e => exact Invariance.fault _ (isLevels_of_read hread)
    | ok body =>
      intro s hs
      have entered : Running (Script.numberAll 0 body).1 chain' []
          (s.comeTo (.new host.seed chain')) :=
        hs.comeTo (.new _ _) rfl rfl ⟨hchain, List.nodup_nil⟩
      have ran : (running hσ (Script.numberAll 0 body).1 chain' []).SteadyAt
          (runTerms (includeWith host (runAt host n)) body) (s.comeTo (.new host.seed chain')) := by
        refine steady_runTerms (fun active name => ?_) rfl entered
        refine steady_includeWith hhost hlevels (fun name source hnodup hholds => ?_) name
        exact ih hnodup hholds source _ _ _
      have told := ran.seq (f := fun _ => do return (← context).diagnostics)
        fun _ t _ ht => Invariance.Steady.look (fun c _ => Invariance.ret _ c.diagnostics) t ht
      refine .of_run (within_run _ _ _ s) ⟨?_, trivial⟩ told.admits
      exact told.holds.comeTo hs.declares hs.chain hs.active hs.distinct

end

/-! ## Whole runs -/

/-- The sources that a table of texts by name gives. -/
def Sources.ofTexts (texts : List (String × String)) : Sources :=
  texts.map fun (name, text) => (name, .ok text)

/-- A name that has no text is all that can go wrong. -/
theorem Sources.ofTexts_error {texts : List (String × String)} {name : String} {e : Fault}
    (h : (ofTexts texts).resolve name = .error e) : e = .includeNotFound name := by
  rw [resolve] at h
  split at h
  · rename_i name' entry hfind
    obtain ⟨text, -, hentry⟩ := List.mem_map.mp (List.mem_of_find?_eq_some hfind)
    cases hentry
    cases h
  · cases h
    rfl

/-- A run that ended by itself, and the same run watched: the levels were enough, and in
no state of it did a script or a preset run inside itself. -/
structure Ends (o : Outcome σ) (watched : Outcome (Watched σ)) : Prop where
  same : watched.erase = o
  bounded : ∀ e, o.result = .error e → e.isLevels = false
  distinct : ∀ c ∈ watched.store.seen, c.Distinct

omit [DocumentStore σ] in
theorem Running.new (host : Host) (store : σ) :
    Running [] [] [] (.new host (.new store) : Session (Watched σ)) where
  declares := .new _ _
  chain := rfl
  active := rfl
  distinct := ⟨List.nodup_nil, List.nodup_nil⟩
  seen := fun _ hc => absurd hc List.not_mem_nil

/-- A step that is steady from the start makes a run that ends. -/
theorem Ends.of_steady (hσ : OwnFaults σ) {host : Host} {store : σ}
    {x : Eval (Watched σ) (List Diagnostic)} {y : Eval σ (List Diagnostic)}
    (hsame : (Watched.wrapping σ).Follows x y) (h : (running hσ [] [] []).Steady x) :
    Ends (.of host store y) (.of host (.new store) x) := by
  have same : (Outcome.of host (.new store) x).erase = .of host store y :=
    Wrapping.outcome_of host (Watched.new store) hsame
  have ran := h _ (.new host store)
  refine ⟨same, fun e he => ran.admits e ?_, ran.holds.seen⟩
  rw [← same] at he
  exact he

section

variable {host : Host}
  (hhost : ∀ name e, host.sources.resolve name = .error e → e.isLevels = false)

include hhost

theorem Ends.runSource (hσ : OwnFaults σ) (store : σ) (source : String) :
    Ends (runSource host store source) (runSource host (Watched.new store) source) := by
  have holds : host.Holds host.levels [] := ⟨List.nil_subset _, Nat.lt_succ_self _⟩
  exact .of_steady hσ (.runAt host host.levels [] source)
    (steady_runAt hhost host.levels List.nodup_nil holds source [] [] [])

theorem Ends.runScript (hσ : OwnFaults σ) (store : σ) (name : String) :
    Ends (runScript host store name) (runScript host (Watched.new store) name) := by
  unfold Run.runScript
  cases hresolve : host.sources.resolve name with
  | error e => exact .of_steady hσ (.fault e) (Invariance.fault _ (hhost name e hresolve))
  | ok source =>
    have holds : host.Holds host.levels [name] := by
      refine ⟨List.cons_subset.mpr ⟨Sources.resolve_ok hresolve, List.nil_subset _⟩, ?_⟩
      exact Nat.lt_succ_of_lt (Nat.lt_succ_self _)
    exact .of_steady hσ (.runAt host host.levels [name] source)
      (steady_runAt hhost host.levels (List.nodup_singleton name) holds source [] [] [])

end

/-- Every run on documents in memory ends, whatever it is given: a text or the name of a
script, with any texts for the scripts and any documents. -/
theorem runs_end (texts : List (String × String)) (seed : UInt32) (store : MemoryStore) :
    (∀ source, Ends (runSource ⟨.ofTexts texts, seed⟩ store source)
      (runSource ⟨.ofTexts texts, seed⟩ (Watched.new store) source)) ∧
    ∀ name, Ends (runScript ⟨.ofTexts texts, seed⟩ store name)
      (runScript ⟨.ofTexts texts, seed⟩ (Watched.new store) name) := by
  have hhost : ∀ name e, (Sources.ofTexts texts).resolve name = .error e →
      e.isLevels = false := by
    intro name e h
    rw [Sources.ofTexts_error h]
    rfl
  exact ⟨.runSource hhost MemoryStore.ownFaults store, .runScript hhost MemoryStore.ownFaults store⟩

end PatchScript.Run
