import PatchScript.Proofs.Run.Applying

/-!
# Patches that are replayed

Patches that have been applied to a document change nothing when they are applied again.

The second time not the same is done as the first time.  An element that an `add` appended is
there now, so its body is not run again, while the body of a `change_add` is.  What is done again
is a list of settings (`Replays`).  The first time the document came to reflect these settings:
an `add` that is left out set attributes of elements only that it made itself, and what was set
before it was set elsewhere.  So they change nothing.
-/

namespace PatchScript.Run

open Xml (Document NodeId Setting isValidName)

variable {σ : Type} [DocumentStore σ] {d d' : Document} {id c : NodeId}

/-! ## What is done again -/

/-- When patches are replayed at an element, these settings are made, one after the other.  An `add`
finds its element and makes none. -/
inductive Replays (d : Document) : NodeId → List Patch → List Setting → Prop where
  | nil {id : NodeId} : Replays d id [] []
  | set {id : NodeId} {name value : PlainLiteral} {ps : List Patch} {qs : List Setting} :
    isValidName name.text → Replays d id ps qs →
    Replays d id (.set name value :: ps) (⟨id, name.text, value.text⟩ :: qs)
  | add {id : NodeId} {tag : PlainLiteral} {position : Position} {body ps : List Patch}
    {t : Target} {qs : List Setting} : (Patch.add tag position body).target? = some t →
    (t.find? d id).isSome → Replays d id ps qs → Replays d id (.add tag position body :: ps) qs
  | changeOrAdd {id c : NodeId} {tag : PlainLiteral} {position : Option Position}
    {body ps : List Patch} {t : Target} {qs rs : List Setting} :
    (Patch.changeOrAdd tag position body).target? = some t → t.find? d id = some c →
    Replays d c body qs → Replays d id ps rs →
    Replays d id (.changeOrAdd tag position body :: ps) (qs ++ rs)

theorem Target.find?_grows {m : Target} (hd : d.Linked) (hid : d.isElement id)
    (hfound : m.find? d id = some c) (h : d.Grows d') : m.find? d' id = some c :=
  h.nthChild? hd (Document.lt_size_of_isElement hid) hfound

theorem Replays.grows {ps : List Patch} {qs : List Setting} (h : Replays d id ps qs)
    (hd : d.Linked) (hid : d.isElement id) (hgrows : d.Grows d') : Replays d' id ps qs := by
  induction h with
  | nil => exact .nil
  | set hvalid _ ih => exact .set hvalid (ih hid)
  | add hm hfound _ ih =>
    obtain ⟨c, hc⟩ := Option.isSome_iff_exists.mp hfound
    refine .add hm ?_ (ih hid)
    rw [Target.find?_grows hd hid hc hgrows]
    rfl
  | changeOrAdd hm hfound _ _ ihbody ih =>
    exact .changeOrAdd hm (Target.find?_grows hd hid hfound hgrows)
      (ihbody (Document.nthChild?_spec hd hfound).1) (ih hid)

/-- Replayed patches are applied by making the settings, also when some have been made already. -/
theorem Replays.applies {ps : List Patch} {qs : List Setting} (h : Replays d id ps qs)
    (hd : d.Linked) (hid : d.isElement id) : ∀ {d'}, d.Grows d' →
    Applies d' id ps (d'.setAll qs) := by
  induction h with
  | nil => exact fun _ => .nil
  | set hvalid _ ih =>
    exact fun hgrows => .set hvalid (ih hid (hgrows.trans (.set _ _)))
  | add hm hfound _ ih =>
    intro d' hgrows
    obtain ⟨c, hc⟩ := Option.isSome_iff_exists.mp hfound
    refine .keep hm ?_ (ih hid hgrows)
    rw [Target.find?_grows hd hid hc hgrows]
    rfl
  | changeOrAdd hm hfound _ _ ihbody ih =>
    intro d' hgrows
    have hbody := ihbody (Document.nthChild?_spec hd hfound).1 hgrows
    have hrest := ih hid (hgrows.trans hbody.grows)
    rw [Document.setAll_append]
    exact .enter hm (Target.find?_grows hd hid hfound hgrows) hbody hrest

/-- What the first run leaves: patches that can be replayed, by settings of elements from the one
on that they work on, and a document that reflects these settings after those that it reflected
before. -/
structure Settled (d : Document) (id : NodeId) (ps : List Patch) (d' : Document) : Prop where
  linked : d'.Linked
  replays : ∃ qs, Replays d' id ps qs ∧ (∀ q ∈ qs, id ≤ q.id) ∧
    ∀ rs, d.Reflects rs → d'.Reflects (rs ++ qs)

/-- The attributes that there were are not touched when an element is appended. -/
theorem Target.reflects_make (m : Target) (id : NodeId) {rs : List Setting} (h : d.Reflects rs) :
    (m.make d id).Reflects rs := by
  refine h.of_attributes fun r hr => ?_
  have hlt := Document.lt_size_of_isElement (h.has r hr).isElement
  rw [Target.make, Document.attribute?, Document.attribute?, Document.attributes,
    Document.attributes, Document.element?, Document.element?, Document.kind?_push,
    if_neg (Nat.ne_of_lt hlt)]

/-- A `change_add` is settled if its body is, at an element that it finds when it is replayed, and
what stands behind it is.  The body may start from another document, one that reflects what this
one does. -/
theorem Settled.changeOrAdd {d₀ d₁ : Document} {tag : PlainLiteral} {position : Option Position}
    {body ps : List Patch} {m : Target} (hbody : Settled d₀ c body d₁) (hrest : Settled d₁ id ps d')
    (hm : (Patch.changeOrAdd tag position body).target? = some m) (hfound : m.find? d' id = some c)
    (hle : id ≤ c) (hc : d₁.isElement c) (hgrows : d₁.Grows d')
    (hbefore : ∀ rs, d.Reflects rs → d₀.Reflects rs) :
    Settled d id (.changeOrAdd tag position body :: ps) d' := by
  obtain ⟨hd₁, qs, hreplays, hqs, hreflects⟩ := hbody
  obtain ⟨hd', rs, hreplays', hrs, hreflects'⟩ := hrest
  refine ⟨hd', qs ++ rs, .changeOrAdd hm hfound (hreplays.grows hd₁ hc hgrows) hreplays', ?_,
    fun before h => ?_⟩
  · intro q hq
    rcases List.mem_append.mp hq with hq | hq
    · exact Nat.le_trans hle (hqs q hq)
    · exact hrs q hq
  · rw [← List.append_assoc]
    exact hreflects' _ (hreflects _ (hbefore before h))

theorem Applies.settled {ps : List Patch} (h : Applies d id ps d') (hd : d.Linked)
    (hid : d.isElement id) : Settled d id ps d' := by
  induction h with
  | nil => exact ⟨hd, [], .nil, by simp, by simp⟩
  | @set d d' id name value ps hvalid hrest ih =>
    let p : Setting := ⟨id, name.text, value.text⟩
    have hset : d.Grows (d.set p) := .set d p
    obtain ⟨hd', qs, hreplays, hqs, hreflects⟩ :=
      ih (hd.modifyAttributes id _) (hset.isElement_of hid)
    refine ⟨hd', p :: qs, .set hvalid hreplays, ?_, fun rs hrs => ?_⟩
    · exact List.forall_mem_cons.mpr ⟨Nat.le_refl id, hqs⟩
    · have hrest := hreflects (rs ++ [p]) (hrs.set hid)
      rwa [List.append_assoc] at hrest
  | keep hm hfound hrest ih =>
    obtain ⟨hd', qs, hreplays, hqs, hreflects⟩ := ih hd hid
    obtain ⟨c, hc⟩ := Option.isSome_iff_exists.mp hfound
    refine ⟨hd', qs, .add hm ?_ hreplays, hqs, hreflects⟩
    rw [Target.find?_grows hd hid hc hrest.grows]
    rfl
  | @enter d d₁ d' id c tag position body ps m hm hfound hbody hrest ihbody ih =>
    obtain ⟨hc, hlt⟩ := Document.nthChild?_spec hd hfound
    have hsettled := ihbody hd hc
    have hfound' := Target.find?_grows hd hid hfound (hbody.grows.trans hrest.grows)
    exact hsettled.changeOrAdd (ih hsettled.linked (hbody.grows.isElement_of hid)) hm hfound'
      (Nat.le_of_lt hlt) (hbody.grows.isElement_of hc) hrest.grows fun _ h => h
  | @make d d₁ d' id p ps m hm hplace hnone hvalid hbody hrest ihbody ih =>
    have hsize := Document.lt_size_of_isElement hid
    have hmade : d.Grows (m.make d id) := .push d id _
    have hlinked : (m.make d id).Linked := hd.push _ hsize
    have hnew : (m.make d id).isElement d.nodes.size := by
      rw [Document.isElement_iff]
      exact ⟨_, by rw [Target.make, Document.kind?_push, if_pos rfl]⟩
    have hsettled := ihbody hlinked hnew
    have hsettled' := ih hsettled.linked ((hmade.trans hbody.grows).isElement_of hid)
    have hfound : m.find? (m.make d id) id = some d.nodes.size :=
      Document.nthChild?_push hd hsize m.positive hplace hnone
    have hfound' := Target.find?_grows hlinked (hmade.isElement_of hid) hfound
      (hbody.grows.trans hrest.grows)
    cases p with
    | set => cases hm
    | add tag position body =>
      obtain ⟨-, qs, -, hqs, hreflects⟩ := hsettled
      obtain ⟨hd', rs, hreplays', hrs, hreflects'⟩ := hsettled'
      refine ⟨hd', rs, .add hm (by rw [hfound']; rfl) hreplays', hrs, fun before hbefore => ?_⟩
      -- What the body sets, it sets of elements that were not there before.
      have hold : ∀ r ∈ before, ∀ q ∈ qs, r.id ≠ q.id := by
        intro r hr q hq
        have hlt := Document.lt_size_of_isElement (hbefore.has r hr).isElement
        exact Nat.ne_of_lt (Nat.lt_of_lt_of_le hlt (hqs q hq))
      have hafter := hreflects before (m.reflects_make id hbefore)
      exact hreflects' before (hafter.of_append hold)
    | changeOrAdd tag position body =>
      exact hsettled.changeOrAdd hsettled' hm hfound' (Nat.le_of_lt hsize)
        (hbody.grows.isElement_of hnew) hrest.grows fun _ => m.reflects_make id

/-- Patches that have been applied can be applied again, which changes nothing. -/
theorem Applies.again {ps : List Patch} (h : Applies d id ps d') (hd : d.Linked)
    (hid : d.isElement id) : Applies d' id ps d' := by
  obtain ⟨hd', qs, hreplays, -, hreflects⟩ := h.settled hd hid
  have hagain := hreplays.applies hd' (h.grows.isElement_of hid) (.refl d')
  have hsame : d'.setAll qs = d' := (hreflects [] trivial).setAll
  rwa [hsame] at hagain

/-! ## Replay -/

/-- If patches are run at an element without a failure, and each of them finds its place, then to
run them once more at that element succeeds, too, and changes nothing. -/
theorem replay_changes_nothing (w w' : Ways σ) {ps : List Patch} {s t : Session σ} {d : Document}
    {id : NodeId} (hd : s.context.document = some d) (hreachable : d.Reachable)
    (hid : s.context.element? = some id) (helement : d.isElement id)
    (hrun : evalBody w (Patch.terms ps) s = (.ok (), t))
    (hplaces : ∀ p v, Visits w ps s p v → p.FindsPlace v) :
    t.context.element? = some id ∧
      ∀ u : Session σ, u.context.document = t.context.document →
        u.context.element? = some id →
        ∃ v, evalBody w' (Patch.terms ps) u = (.ok (), v) ∧ v.context = u.context := by
  obtain ⟨d', happlies⟩ := applies_of_evalBody w ps hd hid hrun hplaces
  obtain ⟨_, t', hrun', ht⟩ := happlies.puts w hd hid
  rw [hrun] at hrun'
  cases hrun'
  refine ⟨?_, fun u hdocument hcursor => ?_⟩
  · rw [ht, Context.element?_withDocument hd happlies.grows.root, hid]
  · have hu : u.context.document = some d' := by rw [hdocument, ht]
    obtain ⟨_, v, hagain, hv⟩ := (happlies.again hreachable.linked helement).puts w' hu hcursor
    exact ⟨v, hagain, hv.trans (Context.withDocument_eq_self hu)⟩

/-- An element is appended and changed, and another one is appended behind it. -/
theorem replay_changes_nothing_of_two :
    let plain (s : String) (h : placeholders s = []) : PlainLiteral :=
      ⟨.text s, fun hs => by cases hs; exact h⟩
    let k := plain "k" rfl
    let b := plain "b" rfl
    let two : Position := ⟨⟨.integer 2, nofun⟩, 2, by decide, rfl⟩
    let ps : List Patch := [.changeOrAdd b none [.set k b], .add b two [.set k k]]
    let d : Document := ⟨#[⟨.document, none, [1]⟩, ⟨.element ⟨"r", []⟩, some 0, []⟩], 1⟩
    let s : Session MemoryStore :=
      ⟨{ Context.new 7 ["main"] with document := some d }, ⟨[]⟩, []⟩
    let w : Ways MemoryStore := ⟨fun _ => throw .levels, fun _ => throw .levels⟩
    ∃ t, evalBody w (Patch.terms ps) s = (.ok (), t) ∧ t.context.element? = some 1 ∧
      ∀ u : Session MemoryStore, u.context.document = t.context.document →
        u.context.element? = some 1 →
        ∃ v, evalBody w (Patch.terms ps) u = (.ok (), v) ∧ v.context = u.context := by
  intro plain k b two ps d s w
  have hreachable : d.Reachable := .ofName (show Document.ofName "r" = .ok d by decide +kernel)
  have hset (name value : PlainLiteral) (u : Session MemoryStore) : ∀ q v,
      Visits w [.set name value] u q v → q.FindsPlace v :=
    findsPlace_cons nofun nofun nofun
  have hchanged : (eval w (Patch.changeOrAdd b none [.set k b]).term s).2.context.document =
      some ⟨#[⟨.document, none, [1]⟩, ⟨.element ⟨"r", []⟩, some 0, [2]⟩,
        ⟨.element ⟨"b", [("k", "b")]⟩, some 1, []⟩], 1⟩ := by decide +kernel
  have hcursor : (eval w (Patch.changeOrAdd b none [.set k b]).term s).2.context.element? =
      some 1 := by decide +kernel
  have hplaces : ∀ p v, Visits w ps s p v → p.FindsPlace v := by
    refine findsPlace_cons ?_ (fun u _ => hset k b u)
      (findsPlace_cons ?_ (fun u _ => hset k k u) nofun)
    · intro m _ _ hm _ _ hn
      cases hm
      exact absurd hn (Nat.lt_irrefl 1)
    · intro m d id hm hd hid _
      cases hm
      cases hchanged.symm.trans hd
      cases hcursor.symm.trans hid
      decide +kernel
  obtain ⟨t, hrun⟩ : ∃ t, evalBody w (Patch.terms ps) s = (.ok (), t) := by
    refine ⟨(evalBody w (Patch.terms ps) s).2, Prod.ext ?_ rfl⟩
    decide +kernel
  exact ⟨t, hrun, replay_changes_nothing w w rfl hreachable rfl rfl hrun hplaces⟩

end PatchScript.Run
