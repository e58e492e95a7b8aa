import Mathlib.Logic.Relation
import PatchScript.Proofs.Run.Accounts
import PatchScript.Proofs.Run.Termination

/-!
# Cycles of includes

A script includes another if there is an `include` with the name of the other anywhere in its
source.  This makes the scripts a graph.  A run of a script goes through it: the names of the
scripts that run, the *chain* of a context, are a walk in the graph.  A script that is in the
chain is not entered again, so the chain holds no name twice, and a run that would enter one
ends.

What has to be shown is that the chain is the walk that led to a script and nothing else.  It is
not what has been included so far, so a script may be included twice, through one script or
through several.  Every step of terms keeps the chain, and whatever directive an `include`
stands in, in a preset that runs later for instance, it stands in the source of the last script
of the chain.  `tracing` says this of one script, and `blames_runAt` goes from one script to the
next.
-/

namespace PatchScript.Run

open Script (Term)
open Eval

variable {σ α : Type} [DocumentStore σ] {host : Host} {names chain cycle : List String}

/-! ## Faults that are cycles -/

/-- Is the fault told as a cycle of includes? -/
def Fault.IsCycle (e : Fault) : Prop := e.report.code = "INCLUDE_CYCLE"

namespace Fault

/-- Can the fault be told as a cycle?  Only one kind of the evaluator is, and what the
surroundings tell is not known. -/
def canBeCycle : Fault → Bool
  | .includeCycle _ | .host .. => true
  | _ => false

theorem not_isCycle {e : Fault} (hkind : e.canBeCycle = false) : ¬e.IsCycle := by
  intro h
  cases e with
  | includeCycle cycle => cases hkind
  | host code message => cases hkind
  | source e =>
    cases e with
    | lex e => cases hfault : e.fault <;>
        simp [IsCycle, report, Script.SourceError.report, Script.LexError.report,
          Script.LexError.code, hfault] at h
    | parse e => cases hfault : e.fault <;>
        simp [IsCycle, report, Script.SourceError.report, Script.ParseError.report,
          Script.ParseFault.code, hfault] at h
  | xml e => cases e <;> simp [IsCycle, report, Xml.Error.report] at h
  | xpath e => cases e <;> simp [IsCycle, report, XPath.Error.report] at h
  | _ => simp [IsCycle, report] at h

end Fault

/-- The faults of a store are its own, and none is told as a cycle. -/
structure CycleFree (σ : Type) [DocumentStore σ] : Prop where
  load {store : σ} {path : String} {e : Fault} : DocumentStore.load store path = .error e →
    ¬e.IsCycle
  persist {store : σ} {path : String} {d : Xml.Document} {e : Fault} :
    DocumentStore.persist store path d = .error e → ¬e.IsCycle

/-- No script is missing with a fault that is told as a cycle. -/
def Host.CycleFree (host : Host) : Prop :=
  ∀ name e, host.sources.resolve name = .error e → ¬e.IsCycle

theorem MemoryStore.cycleFree : CycleFree MemoryStore where
  load {store path e} h := by
    have h : store.load path = .error e := h
    rw [MemoryStore.load] at h
    split at h
    · cases h
    · rename_i text _
      cases hread : Xml.Document.read text with
      | ok d => rw [hread] at h; cases h
      | error e =>
        rw [hread] at h
        cases h
        exact Fault.not_isCycle rfl
  persist h := by cases h

theorem Host.cycleFree_ofTexts (texts : List (String × String)) (seed : UInt32) :
    Host.CycleFree ⟨.ofTexts texts, seed⟩ := by
  intro name e h
  rw [Sources.ofTexts_error h]
  exact Fault.not_isCycle rfl

/-- A script is read from its text. -/
theorem Sources.mem_of_ofTexts {texts : List (String × String)} {name source : String}
    (h : (ofTexts texts).resolve name = .ok source) : (name, source) ∈ texts := by
  rw [resolve] at h
  split at h
  · rename_i name' entry hfind
    obtain ⟨⟨name'', text⟩, htext, hentry⟩ := List.mem_map.mp (List.mem_of_find?_eq_some hfind)
    have hname := List.find?_some hfind
    cases hentry
    cases h
    rwa [← eq_of_beq hname]
  · cases h

/-! ## The graph of scripts -/

/-- Is the script of the second name included anywhere in that of the first? -/
def Includes (host : Host) (a b : String) : Prop :=
  ∃ source body, host.sources.resolve a = .ok source ∧ Script.read source = .ok body ∧
    b ∈ Script.includesOf body

/-- The names that a run goes to the graph at. -/
def Start.entries (start : Start) : List String :=
  match start with
  | .script name => [name]
  | .text source =>
    match Script.read source with
    | .ok body => Script.includesOf body
    | .error _ => []

/-- There is no cycle in what can be reached from where a run starts. -/
def Start.Acyclic (start : Start) (host : Host) : Prop :=
  ∀ first ∈ start.entries, ∀ a, Relation.ReflTransGen (Includes host) first a →
    ¬Relation.TransGen (Includes host) a a

/-- No name comes twice before the last one, and the last one came before. -/
structure Closed (cycle : List String) : Prop where
  nodup : cycle.dropLast.Nodup
  closed : ∃ last ∈ cycle.dropLast, cycle.getLast? = some last

/-- A walk in the graph that goes on from a chain of names with one of some names, and is closed
at its end. -/
structure Closes (host : Host) (names chain cycle : List String) : Prop where
  closed : Closed cycle
  walk : ∃ name more, cycle = chain ++ name :: more ∧ name ∈ names ∧
    (name :: more).IsChain (Includes host)

/-- The name that would be entered a second time closes the walk. -/
theorem Closes.here (hchain : chain.Nodup) {name : String} (hmem : name ∈ chain)
    (hname : name ∈ names) : Closes host names chain (chain ++ [name]) where
  closed := ⟨by rwa [List.dropLast_concat], name, by rwa [List.dropLast_concat],
    List.getLast?_concat⟩
  walk := ⟨name, [], rfl, hname, .singleton name⟩

/-- A walk that goes on from a script goes on from the one that includes it. -/
theorem Closes.through {name source : String} {body : List (Term Unit)} (hname : name ∈ names)
    (hresolve : host.sources.resolve name = .ok source) (hread : Script.read source = .ok body)
    (h : Closes host (Script.includesOf body) (chain ++ [name]) cycle) :
    Closes host names chain cycle := by
  obtain ⟨next, more, rfl, hnext, hwalk⟩ := h.walk
  refine ⟨h.closed, name, next :: more, by rw [List.append_assoc]; rfl, hname, ?_⟩
  exact List.isChain_cons_cons.mpr ⟨⟨source, body, hresolve, hread, hnext⟩, hwalk⟩

/-! ## Within one script -/

/-- If a fault is told as a cycle, it names a walk that goes on from the chain. -/
def Blames (host : Host) (names chain : List String) (e : Fault) : Prop :=
  e.IsCycle → ∃ cycle, e = .includeCycle cycle ∧ Closes host names chain cycle

theorem Blames.of_not {e : Fault} (h : ¬e.IsCycle) : Blames host names chain e := fun hcycle =>
  absurd hcycle h

/-- That a script runs with a chain of names and includes only some names, as an invariance of
steps. -/
def tracing (hσ : CycleFree σ) (host : Host) (names chain : List String) :
    Invariance σ (Within names) where
  holds s := s.context.chain = chain ∧ s.context.Declares (Within names)
  leads _ _ := True
  admits := Blames host names chain
  refl _ := trivial
  trans _ _ := trivial
  declares h := h.2
  raises h := Blames.of_not <| by cases h <;> exact Fault.not_isCycle rfl
  refuses h := Blames.of_not <| by
    rw [Context.bind] at h
    split at h
    · cases h
      exact Fault.not_isCycle rfl
    · split at h <;> cases h
  recursion _ _ := Blames.of_not (Fault.not_isCycle rfl)
  answers _ _ := Blames.of_not (Fault.not_isCycle rfl)
  rejects _ _ := Blames.of_not (Fault.not_isCycle rfl)
  unloaded h := Blames.of_not (hσ.load h)
  unwritten h := Blames.of_not (hσ.persist h)
  binds hs hc hb :=
    ⟨⟨(Context.Keeps.bind hc).chain.trans hs.1, hs.2.bind hc hb.declares⟩, trivial⟩
  skips _ hs := ⟨hs, trivial⟩
  edits hs _ _ _ := ⟨hs, trivial⟩
  asked _ hs := ⟨hs, trivial⟩
  written hs _ := ⟨hs, trivial⟩
  entersElement _ hs := ⟨hs.1, hs.2.pushed rfl rfl⟩
  leavesElement _ ht _ := ⟨⟨ht.1, ht.2.popped rfl rfl⟩, trivial⟩
  entersDocument _ hs := ⟨hs.1, hs.2.pushed rfl rfl⟩
  leavesDocument _ ht _ := ⟨⟨ht.1, ht.2.popped rfl rfl⟩, trivial⟩

variable {hσ : CycleFree σ}

/-- A preset runs with the chain of the script that it is used in. -/
theorem tracing_inPreset (p : Preset) {x : Eval σ α} (hx : (tracing hσ host names chain).Steady x) :
    (tracing hσ host names chain).Steady (inPreset p x) := by
  intro s hs
  cases h : s.context.activeFrom p.mark with
  | nil =>
    have hin := hx (s.comeTo (s.context.enterPreset p)) ⟨hs.1, hs.2.isolated rfl rfl⟩
    have hrun := within_run (·.enterPreset p) Context.leavePreset x s
    rw [← inPreset_run_nil h] at hrun
    exact .of_run hrun ⟨⟨hin.holds.1, hs.2.rejoined hin.holds.2 rfl rfl⟩, trivial⟩ hin.admits
  | cons q qs =>
    refine .of_run (inPreset_run_cons h) ⟨hs, trivial⟩ fun e he => ?_
    cases he
    exact (tracing hσ host names chain).recursion _ _

/-- Directives follow the ways to the names only that the script includes. -/
theorem tracing_along {script : String → Eval σ Unit}
    (hscript : ∀ name ∈ names, (tracing hσ host names chain).Steady (script name))
    (presets : Nat) :
    ((tracing hσ host names chain).congruenceOn (· ∈ names)).Along
      ⟨bodyAt script presets, script⟩ ⟨bodyAt script presets, script⟩ := by
  have body : ∀ p, Within names p →
      (tracing hσ host names chain).Steady (bodyAt script presets p.body) := by
    induction presets with
    | zero =>
      exact fun _ _ => Invariance.fault _ (Blames.of_not (Fault.not_isCycle rfl))
    | succ n ih =>
      intro p hp
      have along : ((tracing hσ host names chain).congruenceOn (· ∈ names)).Along
          ⟨bodyAt script n, script⟩ ⟨bodyAt script n, script⟩ :=
        ⟨trivial, fun q values hq => tracing_inPreset q
          ((Invariance.bindParams q.name 0 q.params values).seq fun _ => ih q hq), hscript⟩
      exact Congruence.evalBody along p.body (covered_of_includes hp)
  exact ⟨trivial, fun p values hp => tracing_inPreset p
    ((Invariance.bindParams p.name 0 p.params values).seq fun _ => body p hp), hscript⟩

/-- What a script does in a context of its own. -/
theorem tracing_runTerms {script : String → Eval σ Unit} {body : List (Term Unit)}
    (hscript : ∀ name ∈ Script.includesOf body,
      (tracing hσ host (Script.includesOf body) chain).Steady (script name)) :
    (tracing hσ host (Script.includesOf body) chain).Steady (runTerms script body) := by
  intro s hs
  let next := Script.numberAll s.context.nextMark body
  let t := s.comeTo { s.context with nextMark := next.2 }
  let presets := Script.presetsOf next.1 + t.context.presets + 1
  have hcounted : numbered body s = (.ok next.1, t) := rfl
  have hways : waysOut script next.1 t = (.ok ⟨bodyAt script presets, script⟩, t) := rfl
  have hbody : (tracing hσ host (Script.includesOf body) chain).Steady
      (evalBody ⟨bodyAt script presets, script⟩ next.1) := by
    refine Congruence.evalBody (tracing_along hscript presets) next.1 (covered_of_includes ?_)
    rw [includesOf_numberAll]
    exact List.Subset.refl _
  have first : (tracing hσ host (Script.includesOf body) chain).SteadyAt (numbered body) s :=
    .of_run hcounted ⟨hs, trivial⟩ fun e he => by cases he
  refine first.seq fun program u hrun hu => ?_
  rw [hcounted] at hrun
  cases hrun
  exact (hbody t hu).congr (bind_run_ok hways _)

/-! ## From script to script -/

/-- An included script is blamed for a walk that goes through it. -/
theorem tracing_includeWith {run : List String → String → Eval σ (List Diagnostic)}
    (hchain : chain.Nodup)
    (hrun : ∀ name source s, (chain ++ [name]).Nodup →
      (run (chain ++ [name]) source s).2.context = s.context ∧
        ∀ e, (run (chain ++ [name]) source s).1 = .error e → e.IsCycle →
          ∃ body cycle, Script.read source = .ok body ∧ e = .includeCycle cycle ∧
            Closes host (Script.includesOf body) (chain ++ [name]) cycle)
    (hhost : host.CycleFree) {name : String} (hname : name ∈ names) :
    (tracing hσ host names chain).Steady (includeWith host run name) := by
  have told (ds : List Diagnostic) : (tracing hσ host names chain).Steady
      (ds.forM fun d => modifyContext (·.diagnose d)) :=
    .forM ds fun d s hs => .of_run (modifyContext_run _ s) ⟨hs, trivial⟩ fun e he => by cases he
  intro s hs
  refine Invariance.SteadyAt.congr ?_ (context_bind_run _ s)
  dsimp only
  rw [hs.1]
  split
  · rename_i hmem
    have cycle := (tracing hσ host names chain).fault (α := PUnit)
      (e := .includeCycle (chain ++ [name])) fun _ => ⟨_, rfl, .here hchain hmem hname⟩
    exact (cycle s hs).seq fun a t h => by cases h
  · rename_i hfresh
    cases hresolve : host.sources.resolve name with
    | error e => exact Invariance.fault _ (Blames.of_not (hhost name e hresolve)) s hs
    | ok source =>
      have hnodup : (chain ++ [name]).Nodup :=
        hchain.append (List.nodup_singleton _) (List.disjoint_singleton.mpr hfresh)
      obtain ⟨hcontext, hblames⟩ := hrun name source s hnodup
      have entered : (tracing hσ host names chain).SteadyAt (run (chain ++ [name]) source) s := by
        refine ⟨?_, trivial, fun e he hcycle => ?_⟩
        · show (run (chain ++ [name]) source s).2.context.chain = chain ∧ _
          rw [hcontext]
          exact hs
        · obtain ⟨body, cycle, hread, rfl, hcloses⟩ := hblames e he hcycle
          exact ⟨cycle, rfl, hcloses.through hname hresolve hread⟩
      exact entered.seq fun ds t _ ht => told ds t ht

/-- Whatever runs with a chain is blamed for walks that go on from there. -/
theorem blames_runAt (hσ : CycleFree σ) (hhost : host.CycleFree) : ∀ (levels : Nat)
    {chain : List String}, chain.Nodup → ∀ (source : String) (s : Session σ),
    (runAt host levels chain source s).2.context = s.context ∧
      ∀ e, (runAt host levels chain source s).1 = .error e → e.IsCycle →
        ∃ body cycle, Script.read source = .ok body ∧ e = .includeCycle cycle ∧
          Closes host (Script.includesOf body) chain cycle := by
  intro levels
  induction levels with
  | zero =>
    intro chain _ source s
    refine ⟨rfl, fun e he hcycle => ?_⟩
    cases he
    exact absurd hcycle (Fault.not_isCycle rfl)
  | succ n ih =>
    intro chain hchain source s
    unfold runAt
    cases hread : Script.read source with
    | error e =>
      refine ⟨rfl, fun e he hcycle => ?_⟩
      cases he
      exact absurd hcycle (Fault.not_isCycle rfl)
    | ok body =>
      have ran : (tracing hσ host (Script.includesOf body) chain).Steady
          (runTerms (includeWith host (runAt host n)) body) :=
        tracing_runTerms fun name hname => tracing_includeWith hchain
          (fun name source s hnodup => ih hnodup source s) hhost hname
      have told := ran.seq (f := fun _ => do return (← context).diagnostics)
        fun _ => .look fun c _ => Invariance.ret _ c.diagnostics
      have hin := told (s.comeTo (.new host.seed chain)) ⟨rfl, .new host.seed chain⟩
      refine ⟨rfl, fun e he hcycle => ?_⟩
      obtain ⟨cycle, rfl, hcloses⟩ := hin.admits e he hcycle
      exact ⟨body, cycle, rfl, rfl, hcloses⟩

/-! ## Whole runs -/

/-- A run is blamed for walks that go on from where it starts. -/
theorem Start.blames_run (hσ : CycleFree σ) (hhost : host.CycleFree) (start : Start) (store : σ)
    {e : Fault} (he : (start.run host store).result = .error e) (hcycle : e.IsCycle) :
    ∃ cycle, e = .includeCycle cycle ∧ Closes host start.entries [] cycle := by
  cases start with
  | text source =>
    obtain ⟨body, cycle, hread, rfl, hcloses⟩ :=
      (blames_runAt hσ hhost host.levels List.nodup_nil source (.new host store)).2 e he hcycle
    refine ⟨cycle, rfl, ?_⟩
    rw [entries, hread]
    exact hcloses
  | script name =>
    rw [run, runScript] at he
    cases hresolve : host.sources.resolve name with
    | error e' =>
      rw [hresolve] at he
      cases he
      exact absurd hcycle (hhost name e hresolve)
    | ok source =>
      rw [hresolve] at he
      obtain ⟨body, cycle, hread, rfl, hcloses⟩ :=
        (blames_runAt hσ hhost host.levels (List.nodup_singleton name) source
          (.new host store)).2 e he hcycle
      exact ⟨cycle, rfl, .through (List.mem_singleton_self name) hresolve hread hcloses⟩

/-- A closed walk goes round in what can be reached from where it starts. -/
theorem Closes.not_acyclic {start : Start} (h : Closes host start.entries [] cycle) :
    ¬start.Acyclic host := by
  obtain ⟨first, more, rfl, hfirst, hwalk⟩ := h.walk
  obtain ⟨last, hmem, hlast⟩ := h.closed.closed
  rw [List.nil_append] at hmem hlast
  have reaches : (first :: more).Pairwise (Relation.TransGen (Includes host)) :=
    (hwalk.imp fun _ _ => Relation.TransGen.single).pairwise
  have twice : [last, last].Sublist (first :: more) := by
    rw [← List.dropLast_append_getLast? last hlast]
    exact (List.singleton_sublist.mpr hmem).append (.refl [last])
  have round : Relation.TransGen (Includes host) last last := by
    simpa using reaches.sublist twice
  have arrives : Relation.ReflTransGen (Includes host) first last := by
    rcases List.mem_cons.mp (List.dropLast_subset _ hmem) with rfl | hmore
    · exact .refl
    · exact ((List.pairwise_cons.mp reaches).1 last hmore).to_reflTransGen
  exact fun hacyclic => hacyclic first hfirst last arrives round

/-- Where the scripts that can be reached make no cycle, no run ends with one, however often a
script is included.  A run that ends with a cycle names a walk in the graph of scripts that
starts where the run does, holds no name twice before the last one, and holds the last one
before. -/
theorem include_cycles_exact (hσ : CycleFree σ) (hhost : host.CycleFree) (start : Start)
    (store : σ) :
    (start.Acyclic host → ∀ e, (start.run host store).result = .error e →
        e.report.code ≠ "INCLUDE_CYCLE") ∧
      ∀ e, (start.run host store).result = .error e → e.report.code = "INCLUDE_CYCLE" →
        ∃ cycle, e = .includeCycle cycle ∧
          e.report.message = "Include cycle detected: " ++ arrows cycle ∧
          (∃ first ∈ start.entries, cycle.head? = some first) ∧
          cycle.IsChain (Includes host) ∧ cycle.dropLast.Nodup ∧
          ∃ last ∈ cycle.dropLast, cycle.getLast? = some last := by
  refine ⟨fun hacyclic e he hcycle => ?_, fun e he hcycle => ?_⟩
  · obtain ⟨cycle, -, hcloses⟩ := start.blames_run hσ hhost store he hcycle
    exact hcloses.not_acyclic hacyclic
  · obtain ⟨cycle, rfl, hcloses⟩ := start.blames_run hσ hhost store he hcycle
    obtain ⟨first, more, hcycle, hfirst, hwalk⟩ := hcloses.walk
    rw [List.nil_append] at hcycle
    exact ⟨cycle, rfl, rfl, ⟨first, hfirst, hcycle ▸ rfl⟩, hcycle ▸ hwalk, hcloses.closed.nodup,
      hcloses.closed.closed⟩

/-- Where one script includes another twice there is no cycle, and where two scripts include each
other there is one. -/
theorem include_cycles_exact_of_two_scripts :
    let twice : Host := ⟨.ofTexts [("a", "include b include b"), ("b", "")], 0⟩
    let round : Host := ⟨.ofTexts [("a", "include b"), ("b", "include a")], 0⟩
    ((Start.script "a").Acyclic twice ∧
        ∀ e, ((Start.script "a").run twice (⟨[]⟩ : MemoryStore)).result = .error e →
          e.report.code ≠ "INCLUDE_CYCLE") ∧
      ((Start.script "a").run round (⟨[]⟩ : MemoryStore)).result
          = .error (.includeCycle ["a", "b", "a"]) ∧
        ["a", "b", "a"].IsChain (Includes round) := by
  intro twice round
  have twiceBody : (Script.read "include b include b").map Script.includesOf = .ok ["b", "b"] := by
    decide +kernel
  have emptyBody : (Script.read "").map Script.includesOf = .ok [] := by decide +kernel
  have target (x y : String) (h : Includes twice x y) : x = "a" ∧ y = "b" := by
    obtain ⟨source, body, hresolve, hread, hy⟩ := h
    have hmem : (x, source) ∈ [("a", "include b include b"), ("b", "")] :=
      Sources.mem_of_ofTexts hresolve
    rcases List.mem_cons.mp hmem with hx | hx
    · cases hx
      rw [hread] at twiceBody
      rw [Except.ok.inj twiceBody] at hy
      exact ⟨rfl, by simpa using hy⟩
    · cases List.mem_singleton.mp hx
      rw [hread] at emptyBody
      rw [Except.ok.inj emptyBody] at hy
      cases hy
  have hacyclic : (Start.script "a").Acyclic twice := by
    intro first _ x _ hround
    obtain ⟨y, hxy, -⟩ := Relation.TransGen.head'_iff.mp hround
    obtain ⟨z, -, hzx⟩ := Relation.TransGen.tail'_iff.mp hround
    rw [(target x y hxy).1] at hzx
    exact absurd (target z "a" hzx).2 (by decide)
  have hround : ((Start.script "a").run round (⟨[]⟩ : MemoryStore)).result
      = .error (.includeCycle ["a", "b", "a"]) := by decide +kernel
  refine ⟨⟨hacyclic, (include_cycles_exact MemoryStore.cycleFree (Host.cycleFree_ofTexts _ 0)
    (.script "a") ⟨[]⟩).1 hacyclic⟩, hround, ?_⟩
  obtain ⟨cycle, hcycle, -, -, hwalk, -⟩ := (include_cycles_exact MemoryStore.cycleFree
    (Host.cycleFree_ofTexts _ 0) (.script "a") ⟨[]⟩).2 _ hround rfl
  cases hcycle
  exact hwalk

end PatchScript.Run
