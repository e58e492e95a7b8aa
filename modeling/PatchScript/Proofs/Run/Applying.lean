import PatchScript.Proofs.Run.Patches

/-!
# Patches that are applied

Patches are run in a session and come to nothing but changes of the document.  `Applies` says what
these are, of documents alone.  Patches that can be applied are run without a failure, in any
session with that document and that element (`Applies.puts`); and patches that are run without a
failure, each of them finding its place, are applied (`applies_of_evalBody`).
-/

namespace PatchScript.Run

open Xml (Document NodeId isValidName)
open Eval

variable {σ α β : Type} [DocumentStore σ] {s t : Session σ} {d d₁ d' : Document} {id c : NodeId}

/-! ## Steps that change the document only -/

/-- The step succeeds, and all that it changes of the context is the document. -/
def Puts (x : Eval σ α) (s : Session σ) (d' : Document) : Prop :=
  ∃ a t, x s = (.ok a, t) ∧ t.context = { s.context with document := some d' }

omit [DocumentStore σ] in
theorem Context.withDocument_eq_self {c : Context} (h : c.document = some d) :
    { c with document := some d } = c := by
  rw [← h]

omit [DocumentStore σ] in
theorem Context.element?_withDocument {c : Context} (h : c.document = some d)
    (hroot : d'.root = d.root) : { c with document := some d' }.element? = c.element? := by
  rw [Context.element?, Context.element?, h]
  show c.cursor.or (some d'.root) = c.cursor.or (some d.root)
  rw [hroot]

omit [DocumentStore σ] in
theorem Puts.congr {x y : Eval σ α} (h : x s = y s) (hy : Puts y s d') : Puts x s d' := by
  rw [Puts, h]
  exact hy

omit [DocumentStore σ] in
theorem Puts.stay (a : α) (hd : s.context.document = some d) : Puts (pure a : Eval σ α) s d :=
  ⟨a, s, rfl, (Context.withDocument_eq_self hd).symm⟩

omit [DocumentStore σ] in
theorem Puts.seq {x : Eval σ α} {f : α → Eval σ β} (hx : Puts x s d₁)
    (hf : ∀ a t, t.context = { s.context with document := some d₁ } → Puts (f a) t d') :
    Puts (x >>= f) s d' := by
  obtain ⟨a, t, hrun, ht⟩ := hx
  obtain ⟨b, u, hrun', hu⟩ := hf a t ht
  refine ⟨b, u, (bind_run_ok hrun f).trans hrun', ?_⟩
  rw [hu, ht]

omit [DocumentStore σ] in
/-- What comes of the step does not matter. -/
theorem Puts.discard {x : Eval σ α} (hx : Puts x s d') (b : β) :
    Puts (do let _ ← x; return b) s d' :=
  hx.seq fun _ t ht => .stay b (by rw [ht])

theorem Puts.atElement {x : Eval σ α} (hx : Puts x (s.comeTo (s.context.enterElement c)) d') :
    Puts (atElement c x) s d' := by
  obtain ⟨a, t, hrun, ht⟩ := hx
  have hwithin := within_run (·.enterElement c) Context.leaveElement x s
  rw [hrun] at hwithin
  refine ⟨a, _, hwithin, ?_⟩
  rw [Session.comeTo_context, ht]
  rfl

/-! ## What patches do to a document -/

/-- Patches are applied at an element, one after the other, and every element that is to be
appended finds its place. -/
inductive Applies : Document → NodeId → List Patch → Document → Prop where
  | nil {d : Document} {id : NodeId} : Applies d id [] d
  | set {d d' : Document} {id : NodeId} {name value : PlainLiteral} {ps : List Patch} :
    isValidName name.text → Applies (d.set ⟨id, name.text, value.text⟩) id ps d' →
    Applies d id (.set name value :: ps) d'
  | keep {d d' : Document} {id : NodeId} {tag : PlainLiteral} {position : Position}
    {body ps : List Patch} {t : Target} : (Patch.add tag position body).target? = some t →
    (t.find? d id).isSome → Applies d id ps d' → Applies d id (.add tag position body :: ps) d'
  | enter {d d₁ d' : Document} {id c : NodeId} {tag : PlainLiteral} {position : Option Position}
    {body ps : List Patch} {t : Target} : (Patch.changeOrAdd tag position body).target? = some t →
    t.find? d id = some c → Applies d c body d₁ → Applies d₁ id ps d' →
    Applies d id (.changeOrAdd tag position body :: ps) d'
  | make {d d₁ d' : Document} {id : NodeId} {p : Patch} {ps : List Patch} {t : Target} :
    p.target? = some t → t.HasPlace d id → t.find? d id = none → isValidName t.tag →
    Applies (t.make d id) d.nodes.size p.body d₁ → Applies d₁ id ps d' → Applies d id (p :: ps) d'

theorem Applies.grows {ps : List Patch} (h : Applies d id ps d') : d.Grows d' := by
  induction h with
  | nil => exact .refl _
  | set _ _ ih => exact (Document.Grows.set _ _).trans ih
  | keep _ _ _ ih => exact ih
  | enter _ _ _ _ hbody hrest => exact hbody.trans hrest
  | make _ _ _ _ _ _ hbody hrest => exact ((Document.Grows.push _ _ _).trans hbody).trans hrest

/-! ## What it takes to run a patch -/

theorem Patch.puts_set (w : Ways σ) {name value : PlainLiteral} (hd : s.context.document = some d)
    (hid : s.context.element? = some id) (hvalid : isValidName name.text) :
    Puts (eval w (Patch.set name value).term) s (d.set ⟨id, name.text, value.text⟩) :=
  ⟨none, _, (set_run w name value hd hid).trans (if_pos hvalid), rfl⟩

theorem Patch.puts_keep (w : Ways σ) {tag : PlainLiteral} {position : Position}
    {body : List Patch} {t : Target} (ht : (Patch.add tag position body).target? = some t)
    (hd : s.context.document = some d) (hid : s.context.element? = some id)
    (hfound : (t.find? d id).isSome) : Puts (eval w (Patch.add tag position body).term) s d := by
  refine .congr (add_run w ht hid) ?_
  have hkeep : Puts (addAt id t.tag t.number (evalBody w (terms body))) s d :=
    .congr (y := pure ()) (addAt_found hd hfound _) (.stay () hd)
  exact hkeep.discard none

theorem Target.HasPlace.of_find? {t : Target} (h : t.find? d id = some c) : t.HasPlace d id :=
  Document.HasPlace.of_nthChild? h

theorem Patch.puts_enter (w : Ways σ) {tag : PlainLiteral} {position : Option Position}
    {body : List Patch} {t : Target} (ht : (Patch.changeOrAdd tag position body).target? = some t)
    (hd : s.context.document = some d) (hid : s.context.element? = some id)
    (hfound : t.find? d id = some c)
    (hbody : Puts (evalBody w (terms body)) (s.comeTo (s.context.enterElement c)) d') :
    Puts (eval w (Patch.changeOrAdd tag position body).term) s d' := by
  refine .congr (changeOrAdd_run w ht hid) ?_
  have hrun := changeOrAddAt_run hd (.of_find? hfound) (evalBody w (terms body))
  rw [hfound] at hrun
  exact (Puts.congr hrun hbody.atElement).discard none

/-- The session at an element that has just been appended. -/
def Session.made (s : Session σ) (t : Target) (d : Document) (id : NodeId) : Session σ :=
  let appended := s.comeTo { s.context with document := some (t.make d id) }
  appended.comeTo (appended.context.enterElement d.nodes.size)

theorem Patch.puts_make (w : Ways σ) {p : Patch} {t : Target} (ht : p.target? = some t)
    (hd : s.context.document = some d) (hid : s.context.element? = some id)
    (hplace : t.HasPlace d id) (hnone : t.find? d id = none) (hvalid : isValidName t.tag)
    (hbody : Puts (evalBody w (terms p.body)) (s.made t d id) d') :
    Puts (eval w p.term) s d' := by
  refine .congr (make_run w ht hd hid hplace hnone) ?_
  have hmake : Puts (makeAt t id (evalBody w (terms p.body))) s d' := by
    obtain ⟨a, u, hrun, hu⟩ := hbody.atElement
    exact ⟨a, u, ((makeAt_run t hd id _).trans (if_pos hvalid)).trans hrun, hu⟩
  exact hmake.discard none

theorem Puts.cons (w : Ways σ) {p : Patch} {ps : List Patch} (hd : s.context.document = some d)
    (hid : s.context.element? = some id) (hfirst : Puts (eval w p.term) s d₁)
    (hroot : d₁.root = d.root)
    (hrest : ∀ t : Session σ, t.context.document = some d₁ → t.context.element? = some id →
      Puts (evalBody w (Patch.terms ps)) t d') :
    Puts (evalBody w (Patch.terms (p :: ps))) s d' := by
  rw [Patch.terms, evalBody]
  refine hfirst.seq fun _ t ht => hrest t (by rw [ht]) ?_
  rw [ht, Context.element?_withDocument hd hroot, hid]

/-- Patches that can be applied to a document are run without a failure and without a diagnostic. -/
theorem Applies.puts (w : Ways σ) {ps : List Patch} (h : Applies d id ps d') : ∀ {s : Session σ},
    s.context.document = some d → s.context.element? = some id →
    Puts (evalBody w (Patch.terms ps)) s d' := by
  induction h with
  | nil =>
    intro s hd _
    rw [Patch.terms, evalBody]
    exact .stay () hd
  | set hvalid _ ih =>
    intro s hd hid
    exact .cons w hd hid (Patch.puts_set w hd hid hvalid) rfl fun t => ih
  | keep ht hfound _ ih =>
    intro s hd hid
    exact .cons w hd hid (Patch.puts_keep w ht hd hid hfound) rfl fun t => ih
  | enter ht hfound hbody _ ihbody ih =>
    intro s hd hid
    have hentered := ihbody (s := s.comeTo (s.context.enterElement _)) hd rfl
    exact .cons w hd hid (Patch.puts_enter w ht hd hid hfound hentered) hbody.grows.root
      fun t => ih
  | make ht hplace hnone hvalid hbody _ ihbody ih =>
    intro s hd hid
    have hmade := ihbody (s := s.made _ _ _) rfl rfl
    exact .cons w hd hid (Patch.puts_make w ht hd hid hplace hnone hvalid hmade)
      hbody.grows.root fun t => ih

/-! ## Patches that find their places -/

/-- A patch enters an element to work on it. -/
inductive Patch.Enters (s : Session σ) : Patch → Session σ → Prop where
  | found {d : Document} {id c : NodeId} {tag : PlainLiteral} {position : Option Position}
    {body : List Patch} {t : Target} : (Patch.changeOrAdd tag position body).target? = some t →
    s.context.document = some d → s.context.element? = some id → t.find? d id = some c →
    Enters s (.changeOrAdd tag position body) (s.comeTo (s.context.enterElement c))
  | made {d : Document} {id : NodeId} {p : Patch} {t : Target} : p.target? = some t →
    s.context.document = some d → s.context.element? = some id → t.HasPlace d id →
    t.find? d id = none → Enters s p (s.made t d id)

/-- While patches are run in one session, one of them is come to in another. -/
inductive Visits (w : Ways σ) : List Patch → Session σ → Patch → Session σ → Prop where
  | here {p : Patch} {ps : List Patch} {s : Session σ} : Visits w (p :: ps) s p s
  | inside {p q : Patch} {ps : List Patch} {s u v : Session σ} : p.Enters s u →
    Visits w p.body u q v → Visits w (p :: ps) s q v
  | later {p q : Patch} {ps : List Patch} {s v : Session σ} :
    Visits w ps (eval w p.term s).2 q v → Visits w (p :: ps) s q v

/-- The place that the patch is about, if it is about one, is filled or the next one to be
filled. -/
def Patch.FindsPlace (p : Patch) (s : Session σ) : Prop :=
  ∀ t d id, p.target? = some t → s.context.document = some d → s.context.element? = some id →
    t.HasPlace d id

/-- All patches that are come to find their places if the first one does, those inside it do, and
those after it do. -/
theorem findsPlace_cons {w : Ways σ} {p : Patch} {ps : List Patch} (hhere : p.FindsPlace s)
    (hinside : ∀ u, p.Enters s u → ∀ q v, Visits w p.body u q v → q.FindsPlace v)
    (hlater : ∀ q v, Visits w ps (eval w p.term s).2 q v → q.FindsPlace v) :
    ∀ q v, Visits w (p :: ps) s q v → q.FindsPlace v := by
  intro q v hvisits
  cases hvisits with
  | here => exact hhere
  | inside henters hbody => exact hinside _ henters q v hbody
  | later hrest => exact hlater q v hrest

theorem atElement_ok {x : Eval σ α} {a : α} (h : atElement c x s = (.ok a, t)) :
    ∃ u, x (s.comeTo (s.context.enterElement c)) = (.ok a, u) := by
  have hwithin := within_run (·.enterElement c) Context.leaveElement x s
  rw [show within (·.enterElement c) Context.leaveElement x s = (.ok a, t) from h] at hwithin
  exact ⟨_, Prod.ext (Prod.mk.inj hwithin).1.symm rfl⟩

/-- The patch comes to be applied as the first one of any patches that can be applied then. -/
def Patch.IsApplied (w : Ways σ) (p : Patch) (s : Session σ) (d : Document) (id : NodeId) : Prop :=
  ∃ d₁, Puts (eval w p.term) s d₁ ∧ d₁.root = d.root ∧
    ∀ {ps d'}, Applies d₁ id ps d' → Applies d id (p :: ps) d'

theorem Patch.isApplied_of_make (w : Ways σ) {p : Patch} {m : Target} {a : Option String}
    (hm : p.target? = some m) (hd : s.context.document = some d)
    (hid : s.context.element? = some id) (hplace : m.HasPlace d id) (hnone : m.find? d id = none)
    (hrun : eval w p.term s = (.ok a, t))
    (hbody : ∀ u, evalBody w (terms p.body) (s.made m d id) = (.ok (), u) →
      ∃ d₁, Applies (m.make d id) d.nodes.size p.body d₁) : p.IsApplied w s d id := by
  rw [make_run w hm hd hid hplace hnone] at hrun
  obtain ⟨_, u, hmake, -⟩ := bind_run_eq_ok hrun
  rw [makeAt_run m hd id] at hmake
  by_cases hvalid : isValidName m.tag
  · rw [if_pos hvalid] at hmake
    obtain ⟨v, hv⟩ := atElement_ok hmake
    obtain ⟨d₁, hd₁⟩ := hbody v hv
    exact ⟨d₁, puts_make w hm hd hid hplace hnone hvalid (hd₁.puts w rfl rfl), hd₁.grows.root,
      fun hrest => .make hm hplace hnone hvalid hd₁ hrest⟩
  · rw [if_neg hvalid] at hmake
    cases hmake

mutual

/-- A patch that is run without a failure and finds its place is applied. -/
theorem Patch.isApplied (w : Ways σ) : ∀ (p : Patch) {s t : Session σ} {d : Document}
    {id : NodeId} {a : Option String}, s.context.document = some d → s.context.element? = some id →
    eval w p.term s = (.ok a, t) → p.FindsPlace s →
    (∀ u q v, p.Enters s u → Visits w p.body u q v → q.FindsPlace v) → p.IsApplied w s d id
  | .set name value, s, t, d, id, a, hd, hid, hrun, _, _ => by
    by_cases hvalid : isValidName name.text
    · exact ⟨_, Patch.puts_set w hd hid hvalid, rfl, fun hrest => .set hvalid hrest⟩
    · rw [Patch.set_run w name value hd hid, if_neg hvalid] at hrun
      cases hrun
  | .add tag position body, s, t, d, id, a, hd, hid, hrun, hplace, hinside => by
    cases hfound : Target.find? ⟨tag.text, position.number, position.positive⟩ d id with
    | some c =>
      exact ⟨d, Patch.puts_keep w rfl hd hid (by rw [hfound]; rfl), rfl,
        fun hrest => .keep rfl (by rw [hfound]; rfl) hrest⟩
    | none =>
      have hplace := hplace _ d id rfl hd hid
      refine Patch.isApplied_of_make w rfl hd hid hplace hfound hrun fun u hu => ?_
      exact applies_of_evalBody w body rfl rfl hu fun q v hvisits =>
        hinside _ q v (.made rfl hd hid hplace hfound) hvisits
  | .changeOrAdd tag position body, s, t, d, id, a, hd, hid, hrun, hplace, hinside => by
    obtain ⟨m, hm⟩ : ∃ m, (Patch.changeOrAdd tag position body).target? = some m := by
      cases position with
      | none => exact ⟨_, rfl⟩
      | some position => exact ⟨_, rfl⟩
    have hplace := hplace m d id hm hd hid
    cases hfound : m.find? d id with
    | some c =>
      rw [Patch.changeOrAdd_run w hm hid] at hrun
      obtain ⟨_, u, hchange, -⟩ := bind_run_eq_ok hrun
      rw [changeOrAddAt_run hd hplace, hfound] at hchange
      obtain ⟨v, hv⟩ := atElement_ok hchange
      have hentered : (s.comeTo (s.context.enterElement c)).context.document = some d := hd
      obtain ⟨d₁, hd₁⟩ := applies_of_evalBody w body hentered rfl hv fun q v hvisits =>
        hinside _ q v (.found hm hd hid hfound) hvisits
      exact ⟨d₁, Patch.puts_enter w hm hd hid hfound (hd₁.puts w hd rfl), hd₁.grows.root,
        fun hrest => .enter hm hfound hd₁ hrest⟩
    | none =>
      refine Patch.isApplied_of_make w hm hd hid hplace hfound hrun fun u hu => ?_
      exact applies_of_evalBody w body rfl rfl hu fun q v hvisits =>
        hinside _ q v (.made hm hd hid hplace hfound) hvisits

theorem applies_of_evalBody (w : Ways σ) : ∀ (ps : List Patch) {s t : Session σ} {d : Document}
    {id : NodeId}, s.context.document = some d → s.context.element? = some id →
    evalBody w (Patch.terms ps) s = (.ok (), t) →
    (∀ q v, Visits w ps s q v → q.FindsPlace v) → ∃ d', Applies d id ps d'
  | [], _, _, d, _, _, _, _, _ => ⟨d, .nil⟩
  | p :: ps, s, t, d, id, hd, hid, hrun, hplaces => by
    rw [Patch.terms, evalBody] at hrun
    obtain ⟨a, u, hfirst, hrest⟩ := bind_run_eq_ok hrun
    obtain ⟨d₁, ⟨a', u', hrun', hu⟩, hroot, happlies⟩ :=
      Patch.isApplied w p hd hid hfirst (hplaces p s .here)
        fun u q v henters hvisits => hplaces q v (.inside henters hvisits)
    rw [hfirst] at hrun'
    cases hrun'
    obtain ⟨d', hd'⟩ := applies_of_evalBody w ps (by rw [hu])
      (by rw [hu, Context.element?_withDocument hd hroot, hid]) hrest
      fun q v hvisits => hplaces q v (.later (by rwa [hfirst]))
    exact ⟨d', happlies hd'⟩

end

end PatchScript.Run
