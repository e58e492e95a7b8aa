import Mathlib.Data.List.Chain
import PatchScript.Proofs.Run.Accounts
import PatchScript.Proofs.Run.Watching
import PatchScript.Proofs.Xml.Evolution

/-!
# What running a term does to the open document

While a term is run, the run comes to contexts, one after the other.  The contexts of an
included script are told from those of the script that includes it by their chain, which is
longer.  All the others show the document that was open before, and of the states in which they
show it each comes from all that are before it without a node being renamed, moved or brought
back (`documents_evolve`).

What a run comes to is known on a store that watches it.  `Develops` relates two sessions on such
a store, and every way to put steps together keeps it, once it is known that a file is opened only
where no document is open.
-/

namespace PatchScript.Run

open Xml (Document)
open Script (Term)
open Eval

/-! ## Changes -/

/-- A change that a directive makes lets the document evolve. -/
theorem Edit.evolves {α : Type} {f : Document → Except Xml.Error (Document × α)} (h : Edit f)
    {d d' : Document} {a : α} (hf : f d = .ok (d', a)) : d.Evolves d' := by
  cases h with
  | setAttribute id name value =>
    obtain ⟨d₁, hset, hret⟩ := bind_eq_ok hf
    cases hret
    exact .setAttribute hset
  | removeAttribute id name =>
    cases hf
    exact .removeAttribute d id name
  | appendElement id tag => exact .appendElement hf
  | detachAll ids =>
    cases hf
    exact .detachAll ids d

/-! ## Contexts of one script -/

/-- The contexts of the scripts of a chain. -/
def contextsOf (chain : List String) (cs : List Context) : List Context :=
  cs.filter (·.chain == chain)

theorem contextsOf_append (chain : List String) (cs cs' : List Context) :
    contextsOf chain (cs ++ cs') = contextsOf chain cs ++ contextsOf chain cs' :=
  List.filter_append ..

/-- No script that is included has the chain of the script that includes it. -/
theorem contextsOf_eq_nil {chain : List String} {name : String} {cs : List Context}
    (h : ∀ c ∈ cs, chain ++ [name] <+: c.chain) : contextsOf chain cs = [] := by
  refine List.filter_eq_nil_iff.mpr fun c hc hchain => ?_
  have hlength := (h c hc).length_le
  rw [beq_iff_eq.mp hchain, List.length_append, List.length_singleton] at hlength
  omega

/-- The contexts show states of one document, from a first one to a last one, and of these states
each comes from all that are before it. -/
def Shows (d : Document) (cs : List Context) (d' : Document) : Prop :=
  ∃ ds : List Document, cs.map (·.document) = ds.map some ∧
    (d :: ds ++ [d']).Pairwise Document.Evolves

namespace Shows

variable {d d₁ d' : Document} {cs cs' : List Context}

theorem nil (h : d.Evolves d') : Shows d [] d' := ⟨[], rfl, List.pairwise_pair.mpr h⟩

theorem single {c : Context} (hc : c.document = some d') (h : d.Evolves d') : Shows d [c] d' :=
  ⟨[d'], by simp [hc], by simp [h, Document.Evolves.refl]⟩

theorem evolves (h : Shows d cs d') : d.Evolves d' := by
  obtain ⟨ds, -, hds⟩ := h
  exact List.rel_of_pairwise_cons hds (List.mem_append_right _ List.mem_cons_self)

/-- The state in the middle is left out: the others come from each other through it. -/
theorem trans (h : Shows d cs d₁) (h' : Shows d₁ cs' d') : Shows d (cs ++ cs') d' := by
  obtain ⟨ds, hcs, hds⟩ := h
  obtain ⟨ds', hcs', hds'⟩ := h'
  have joined : (d :: ds ++ d₁ :: (ds' ++ [d'])).Pairwise Document.Evolves :=
    List.isChain_iff_pairwise.mp (List.isChain_split.mpr ⟨hds.isChain, hds'.isChain⟩)
  refine ⟨ds ++ ds', by rw [List.map_append, hcs, hcs', List.map_append], joined.sublist ?_⟩
  rw [List.cons_append, List.cons_append, List.append_assoc]
  exact ((List.sublist_cons_self _ _).append_left ds).cons_cons d

end Shows

/-! ## Sessions -/

variable {σ α β : Type}

/-- A session comes from another through contexts that show how the document develops. -/
structure Develops (s t : Session (Watched σ)) : Prop where
  /-- The same script is run. -/
  chain : t.context.chain = s.context.chain
  /-- Where no document is open, none is open afterwards. -/
  closed : s.context.document = none → t.context.document = none
  /-- The contexts on the way are those of the script and of scripts that it includes.  Those of
  the script show the document. -/
  through : ∃ cs, t.store.seen = s.store.seen ++ cs ∧ (∀ c ∈ cs, s.context.chain <+: c.chain) ∧
    ∀ d, s.context.document = some d → ∃ d', t.context.document = some d' ∧
      Shows d (contextsOf s.context.chain cs) d'

namespace Develops

variable {s t u : Session (Watched σ)} {c c' : Context}

/-- Nothing is come to. -/
theorem quiet (hcontext : t.context = s.context) (hseen : t.store.seen = s.store.seen) :
    Develops s t where
  chain := by rw [hcontext]
  closed hs := by rw [hcontext, hs]
  through := by
    refine ⟨[], by simp [hseen], fun _ hc => absurd hc List.not_mem_nil, fun d hd => ?_⟩
    exact ⟨d, by rw [hcontext, hd], .nil (.refl d)⟩

theorem refl (s : Session (Watched σ)) : Develops s s := .quiet rfl rfl

theorem trans (hst : Develops s t) (htu : Develops t u) : Develops s u where
  chain := htu.chain.trans hst.chain
  closed hs := htu.closed (hst.closed hs)
  through := by
    obtain ⟨cs, hcs, hchains, hshows⟩ := hst.through
    obtain ⟨cs', hcs', hchains', hshows'⟩ := htu.through
    rw [hst.chain] at hchains' hshows'
    refine ⟨cs ++ cs', by rw [hcs', hcs, List.append_assoc],
      List.forall_mem_append.mpr ⟨hchains, hchains'⟩, fun d hd => ?_⟩
    obtain ⟨d₁, hd₁, hfirst⟩ := hshows d hd
    obtain ⟨d', hd', hrest⟩ := hshows' d₁ hd₁
    rw [contextsOf_append]
    exact ⟨d', hd', hfirst.trans hrest⟩

variable [DocumentStore σ]

/-- One context of the script is come to. -/
theorem comeTo (hchain : c.chain = s.context.chain)
    (hclosed : s.context.document = none → c.document = none)
    (hopen : ∀ d, s.context.document = some d → ∃ d', c.document = some d' ∧ d.Evolves d') :
    Develops s (s.comeTo c) where
  chain := hchain
  closed := hclosed
  through := by
    refine ⟨[c], rfl, List.forall_mem_singleton.mpr ⟨[], by simp [hchain]⟩, fun d hd => ?_⟩
    obtain ⟨d', hd', hevolves⟩ := hopen d hd
    rw [show contextsOf s.context.chain [c] = [c] by simp [contextsOf, hchain]]
    exact ⟨d', hd', .single hd' hevolves⟩

/-- A context of the script is come to, with the same document. -/
theorem turn (hchain : c.chain = s.context.chain)
    (hdocument : c.document = s.context.document) : Develops s (s.comeTo c) :=
  .comeTo hchain hdocument.trans fun d hd => ⟨d, hdocument.trans hd, .refl d⟩

/-- Something is entered and left again, but no document and no script. -/
theorem within (hchain : c.chain = s.context.chain) (hdocument : c.document = s.context.document)
    (h : Develops (s.comeTo c) t) (hchain' : c'.chain = t.context.chain)
    (hdocument' : c'.document = t.context.document) : Develops s (t.comeTo c') :=
  ((Develops.turn hchain hdocument).trans h).trans (.turn hchain' hdocument')

/-- What is come to where something is entered and left again. -/
theorem seen_comeTo (h : Develops (s.comeTo c) t) (c' : Context) :
    ∃ cs, (t.comeTo c').store.seen = s.store.seen ++ (cs ++ [c']) ∧
      ∀ x ∈ cs, c.chain <+: x.chain := by
  obtain ⟨cs, hcs, hchains, -⟩ := h.through
  refine ⟨c :: cs, ?_, List.forall_mem_cons.mpr ⟨List.prefix_refl _, hchains⟩⟩
  show t.store.seen ++ [c'] = _
  rw [hcs]
  show s.store.seen ++ [c] ++ cs ++ [c'] = _
  simp

/-- A document is entered and left again, where none is open. -/
theorem onDocument (hclosed : s.context.document = none) (hchain : c.chain = s.context.chain)
    (h : Develops (s.comeTo c) t) (hchain' : c'.chain = t.context.chain)
    (hclosed' : c'.document = none) : Develops s (t.comeTo c') where
  chain := (hchain'.trans h.chain).trans hchain
  closed _ := hclosed'
  through := by
    obtain ⟨cs, hcs, hchains⟩ := h.seen_comeTo c'
    rw [hchain] at hchains
    refine ⟨cs ++ [c'], hcs, List.forall_mem_append.mpr ⟨hchains, ?_⟩, fun d hd => ?_⟩
    · exact List.forall_mem_singleton.mpr ⟨[], by simp [hchain', h.chain, hchain]⟩
    · rw [hclosed] at hd
      cases hd

/-- An included script is entered and left again.  Its contexts have another chain. -/
theorem included {name : String} (hchain : c.chain = s.context.chain ++ [name])
    (h : Develops (s.comeTo c) t) : Develops s (t.comeTo s.context) where
  chain := rfl
  closed := id
  through := by
    obtain ⟨cs, hcs, hchains⟩ := h.seen_comeTo s.context
    rw [hchain] at hchains
    refine ⟨cs ++ [s.context], hcs, List.forall_mem_append.mpr ⟨fun x hx => ?_, ?_⟩,
      fun d hd => ⟨d, hd, ?_⟩⟩
    · exact List.IsPrefix.trans (List.prefix_append _ _) (hchains x hx)
    · exact List.forall_mem_singleton.mpr (List.prefix_refl _)
    · rw [contextsOf_append, contextsOf_eq_nil hchains]
      rw [show contextsOf s.context.chain [s.context] = [s.context] by simp [contextsOf]]
      exact .single hd (.refl d)

end Develops

/-! ## Steps -/

/-- A step that lets the document develop. -/
def Developing (x : Eval (Watched σ) α) : Prop := ∀ s, Develops s (x s).2

namespace Developing

/-- What a step does in a session is enough to tell. -/
theorem of_run {x : Eval (Watched σ) α} {s t : Session (Watched σ)} {r : Except Fault α}
    (h : x s = (r, t)) (ht : Develops s t) : Develops s (x s).2 := by
  rw [h]
  exact ht

/-- Two steps, one after the other, if the second one is known where the first one ends. -/
theorem seq_at {x : Eval (Watched σ) α} {f : α → Eval (Watched σ) β} {s : Session (Watched σ)}
    (hx : Develops s (x s).2)
    (hf : ∀ a t, x s = (.ok a, t) → Develops s t → Develops t (f a t).2) :
    Develops s ((x >>= f) s).2 := by
  cases hrun : x s with
  | mk r t =>
    rw [hrun] at hx
    cases r with
    | ok a =>
      rw [bind_run_ok hrun]
      exact hx.trans (hf a t hrun hx)
    | error e => exact of_run (bind_run_error hrun f) hx

theorem ret (a : α) : Developing (σ := σ) (pure a) := fun s => .refl s

theorem fault (e : Fault) : Developing (σ := σ) (α := α) (throw e) := fun s => .refl s

theorem seq {x : Eval (Watched σ) α} {f : α → Eval (Watched σ) β} (hx : Developing x)
    (hf : ∀ a, Developing (f a)) : Developing (x >>= f) :=
  fun s => seq_at (hx s) fun a t _ _ => hf a t

theorem look {f : Context → Eval (Watched σ) β} (hf : ∀ c, Developing (f c)) :
    Developing (context >>= f) := fun s => hf s.context s

theorem ask (question : Document → Except XPath.Error α) (none' : α) :
    Developing (σ := σ) (ask question none') := by
  intro s
  cases hd : s.context.document with
  | none => exact of_run (ask_run_none hd) (.refl s)
  | some d => exact of_run (ask_run_some hd) (.refl s)

variable [DocumentStore σ]

theorem turn {f : Context → Context} (hchain : ∀ c, (f c).chain = c.chain)
    (hdocument : ∀ c, (f c).document = c.document) : Developing (σ := σ) (modifyContext f) :=
  fun _ => .turn (hchain _) (hdocument _)

theorem diagnose (d : Diagnostic) : Developing (σ := σ) (modifyContext (·.diagnose d)) :=
  .turn (fun _ => rfl) fun _ => rfl

theorem bindName (name : String) (b : Binding) : Developing (σ := σ) (bindName name b) := by
  intro s
  cases h : s.context.bind name b with
  | ok c =>
    exact of_run (bindName_run_ok h) (.turn (Context.Keeps.bind h).chain (Context.bind_document h))
  | error e => exact of_run (bindName_run_error h) (.refl s)

theorem change {f : Document → Except Xml.Error (Document × α)} (hf : Edit f) :
    Developing (σ := σ) (change f) := by
  intro s
  cases hd : s.context.document with
  | none => exact of_run (change_run_none hd) (.refl s)
  | some d =>
    cases hfd : f d with
    | ok r =>
      obtain ⟨d', a⟩ := r
      refine of_run (change_run_ok hd hfd) (.comeTo rfl (fun hnone => ?_) fun d₁ hd₁ => ?_)
      · rw [hd] at hnone
        cases hnone
      · rw [hd] at hd₁
        cases hd₁
        exact ⟨d', rfl, hf.evolves hfd⟩
    | error e => exact of_run (change_run_error hd hfd) (.refl s)

theorem atElement (id : Xml.NodeId) {x : Eval (Watched σ) α} (hx : Developing x) :
    Developing (atElement id x) :=
  fun s => .within (c := s.context.enterElement id) rfl rfl (hx _) rfl rfl

theorem inPreset (p : Preset) {x : Eval (Watched σ) α} (hx : Developing x) :
    Developing (inPreset p x) := by
  intro s
  cases h : s.context.activeFrom p.mark with
  | nil =>
    rw [inPreset_run_nil h]
    exact .within (c := s.context.enterPreset p) rfl rfl (hx _) rfl rfl
  | cons q qs => exact of_run (inPreset_run_cons h) (.refl s)

theorem load (path : String) : Developing (σ := σ) (load path) :=
  fun s => of_run (load_run path s) (.quiet rfl rfl)

/-- A document that is written is written to the store inside. -/
theorem persist (path : String) (d : Document) : Developing (σ := σ) (persist path d) := by
  intro s
  cases h : DocumentStore.persist s.store path d with
  | ok store => exact of_run (persist_run_ok h) (.quiet rfl (Watched.seen_of_persist h))
  | error e => exact of_run (persist_run_error h) (.quiet rfl rfl)

/-! ### Files -/

theorem onDocument (d : Document) {x : Eval (Watched σ) α} (hx : Developing x)
    {s : Session (Watched σ)} (hs : s.context.document = none) :
    Develops s (onDocument d x s).2 := by
  have handed : Developing (do let answer ← x; return (answer, (← context).document)) :=
    hx.seq fun a => .look fun c => .ret _
  exact .onDocument (c := s.context.enterDocument d) hs rfl (handed _) rfl hs

theorem openFile (path : String) {x : Eval (Watched σ) Unit} (hx : Developing x)
    {s : Session (Watched σ)} (hs : s.context.document = none) :
    Develops s (openFile path x s).2 := by
  refine seq_at (load path s) fun found t _ ht => ?_
  cases found with
  | none => exact diagnose _ t
  | some d =>
    refine seq_at (onDocument d hx (ht.closed hs)) fun r u _ _ => ?_
    obtain ⟨-, after⟩ := r
    cases after with
    | some d => exact persist path d u
    | none => exact .refl u

/-- A file block does nothing where a document is open. -/
theorem file {w : Ways (Watched σ)} {path : Term Nat} {body : List (Term Nat)}
    (hpath : Developing (eval w path)) (hbody : Developing (evalBody w body)) :
    Developing (eval w (.file path body)) := by
  intro s
  rw [eval]
  rw [context_bind_run]
  cases hs : s.context.document with
  | some d => exact (diagnose _).seq (fun _ => .ret none) s
  | none =>
    refine seq_at (hpath s) fun at' t _ ht => ?_
    exact seq_at (openFile (at'.getD "") hbody (ht.closed hs)) fun _ u _ _ => .refl u

/-! ### Terms -/

/-- Letting the document develop is a property that every way to put steps together keeps. -/
def congruence (σ : Type) [DocumentStore σ] :
    Congruence (Watched σ) (Watched σ) (fun _ => True) fun _ => True where
  related x _ := Developing x
  follows _ _ := True
  ret := ret
  seq := seq
  look hf := .look fun c => hf c fun _ _ _ _ _ => trivial
  fault _ := fault _
  binds name b _ := bindName name b
  skips why := diagnose why.diagnostic
  asks none' _ := ask _ none'
  changes := change
  elements id _ _ hx := hx.atElement id
  files _ := file

theorem along {w : Ways (Watched σ)} (hbody : ∀ body, Developing (w.body body))
    (hscript : ∀ name, Developing (w.script name)) : (congruence σ).Along w w where
  follows := trivial
  preset p values _ :=
    (((congruence σ).bindParams p.name 0 p.params values).seq fun _ => hbody p.body).inPreset p
  script name _ := hscript name

theorem bodyAt {script : String → Eval (Watched σ) Unit} (h : ∀ name, Developing (script name)) :
    ∀ (levels : Nat) (body : List (Term Nat)), Developing (bodyAt script levels body) := by
  intro levels
  induction levels with
  | zero => exact fun _ => .fault .levels
  | succ n ih =>
    exact fun body => Congruence.evalBody (along ih h) body (Wrapping.Follows.covered body)

/-! ### Scripts -/

theorem runTerms {script : String → Eval (Watched σ) Unit} (h : ∀ name, Developing (script name))
    (body : List (Term Unit)) : Developing (runTerms script body) := by
  have counted : Developing (σ := σ) (numbered body) := by
    refine .look fun c => seq ?_ fun _ => .ret (Script.numberAll c.nextMark body).1
    exact .turn (fun _ => rfl) fun _ => rfl
  refine counted.seq fun body s => ?_
  have out : waysOut script body s =
      (.ok ⟨Run.bodyAt script (Script.presetsOf body + s.context.presets + 1), script⟩, s) := rfl
  rw [bind_run_ok out]
  exact Congruence.evalBody (along (bodyAt h _) h) body (Wrapping.Follows.covered body) s

/-- A source that is run as an included script. -/
theorem includeWith (host : Host) {run : List String → String → Eval (Watched σ) (List Diagnostic)}
    (hrun : ∀ name source s, Develops s (run (s.context.chain ++ [name]) source s).2)
    (name : String) : Developing (includeWith host run name) := by
  intro s
  rw [Run.includeWith]
  rw [context_bind_run]
  dsimp only
  split
  · exact .refl s
  · cases host.sources.resolve name with
    | error e => exact .refl s
    | ok source =>
      refine seq_at (hrun name source s) fun diagnostics t _ _ => ?_
      exact (congruence σ).forM (g := fun d => modifyContext (·.diagnose d)) diagnostics diagnose t

theorem runAt (host : Host) : ∀ (levels : Nat) (name source : String) (s : Session (Watched σ)),
    Develops s (runAt host levels (s.context.chain ++ [name]) source s).2 := by
  intro levels
  induction levels with
  | zero => exact fun _ _ s => .refl s
  | succ n ih =>
    intro name source s
    unfold Run.runAt
    cases Script.read source with
    | error e => exact .refl s
    | ok body =>
      have run := (runTerms (includeWith host ih) body).seq fun _ =>
        .look fun c => ret c.diagnostics
      exact .included rfl (run _)

theorem eval (host : Host) (scripts presets : Nat) (t : Term Nat) :
    Developing (σ := σ) (eval (waysAt host scripts presets) t) := by
  have script := includeWith (σ := σ) host (runAt host scripts)
  exact Congruence.eval (along (bodyAt script presets) script) t
    (.of_forall t (fun _ _ => trivial) fun _ _ => trivial)

end Developing

/-! ## Terms on any store -/

variable [DocumentStore σ]

/-- The ways out of terms do on a store what they do on the store inside. -/
theorem Wrapping.along_waysAt {τ : Type} [DocumentStore τ] (W : Wrapping τ σ) (host : Host)
    (scripts presets : Nat) :
    (Wrapping.Follows.congruence W).Along (waysAt host scripts presets) (waysAt host scripts presets) := by
  have script := Follows.includeWith (W := W) host (Follows.runAt host scripts)
  exact Follows.along (Follows.bodyAt script presets) script

/-- A term does on a store what it does on the store inside. -/
theorem Wrapping.follows_eval {τ : Type} [DocumentStore τ] (W : Wrapping τ σ) (host : Host)
    (scripts presets : Nat) (t : Term Nat) :
    W.Follows (eval (waysAt host scripts presets) t) (eval (waysAt host scripts presets) t) :=
  Congruence.eval (W.along_waysAt host scripts presets) t
    (.of_forall t (fun _ _ => trivial) fun _ _ => trivial)

@[inherit_doc Wrapping.follows_eval]
theorem Wrapping.follows_evalBody {τ : Type} [DocumentStore τ] (W : Wrapping τ σ) (host : Host)
    (scripts presets : Nat) (body : List (Term Nat)) :
    W.Follows (evalBody (waysAt host scripts presets) body)
      (evalBody (waysAt host scripts presets) body) :=
  Congruence.evalBody (W.along_waysAt host scripts presets) body (Follows.covered body)

/-- The session on a store that has seen nothing and watches what comes. -/
def Session.watched (s : Session σ) : Session (Watched σ) := ⟨s.context, .new s.store, s.calls⟩

/-- The contexts that the run of a term comes to, one after the other.  Those of scripts that it
includes are left out. -/
def contextsAlong (host : Host) (scripts presets : Nat) (t : Term Nat) (s : Session σ) :
    List Context :=
  contextsOf s.context.chain (eval (waysAt host scripts presets) t s.watched).2.store.seen

/-- While a term is run, in whatever context and however it ends, the open document stays open
and evolves, from the state before over all that the run comes to up to the state after: every
node keeps its number, its sort and its name or content, stays where it is or is taken away for
good, and gets children only behind those that it has, which are new nodes. -/
theorem documents_evolve (host : Host) (scripts presets : Nat) (t : Term Nat) {s : Session σ}
    {d : Document} (hd : s.context.document = some d) :
    ∃ ds d', (contextsAlong host scripts presets t s).map (·.document) = ds.map some ∧
      (eval (waysAt host scripts presets) t s).2.context.document = some d' ∧ d.Evolves d' ∧
      (d :: ds ++ [d']).Pairwise Document.Evolves := by
  have same := (Watched.wrapping σ).follows_eval host scripts presets t s.watched
  obtain ⟨cs, hcs, -, hshows⟩ := (Developing.eval host scripts presets t s.watched).through
  obtain ⟨d', hd', hshown⟩ := hshows d hd
  have hevolves := hshown.evolves
  obtain ⟨ds, hds, hpairs⟩ := hshown
  have hwhole : contextsAlong host scripts presets t s = contextsOf s.context.chain cs := by
    rw [contextsAlong, hcs]
    rfl
  refine ⟨ds, d', by rw [hwhole]; exact hds, ?_, hevolves, hpairs⟩
  exact (congrArg (·.2.context.document) same).trans hd'

/-- An element is removed, another one is added, and there the term fails. -/
theorem documents_evolve_up_to_failure :
    let d : Document := ⟨#[⟨.document, none, [1]⟩, ⟨.element ⟨"r", []⟩, some 0, [2, 3]⟩,
      ⟨.element ⟨"a", []⟩, some 1, []⟩, ⟨.text "t", some 1, []⟩], 1⟩
    let s : Session MemoryStore :=
      ⟨{ Context.new 7 ["main"] with document := some d }, ⟨[]⟩, []⟩
    let t : Term Nat := .block [.removeElement (.literal (.text "a")),
      .add (.literal (.text "b")) [.set (.literal (.text "1")) (.literal (.text ""))]]
    let w : Ways MemoryStore := waysAt ⟨[], 7⟩ 1 1
    s.context.document = some d ∧ (eval w t s).1 = .error (.xml (.invalidName "1")) ∧
      (contextsAlong ⟨[], 7⟩ 1 1 t s).length = 4 ∧
      ∃ ds d', (contextsAlong ⟨[], 7⟩ 1 1 t s).map (·.document) = ds.map some ∧
        (eval w t s).2.context.document = some d' ∧ d.Evolves d' ∧
        (d :: ds ++ [d']).Pairwise Document.Evolves := by
  exact ⟨rfl, by decide +kernel, by decide +kernel, documents_evolve _ 1 1 _ rfl⟩

end PatchScript.Run
