import PatchScript.Proofs.Run.Patches
import PatchScript.Proofs.XPath.NodeSets
import PatchScript.Proofs.Xml.Removing

/-!
# Elements that are removed

`remove` takes away the first element that a selector selects, and `remove all` takes away all of
them.  The selector is evaluated once, before anything is taken away, and what it selects may be
above or under each other, detached already, or the element that the directive works on.  Either
way it is what was selected then that is taken away, as if at once, and nothing else
(`removals_are_exact`).
-/

namespace PatchScript.Run

open Xml (Document NodeId)
open XPath (Sees selectElements selectFirst?)
open Script (Term)
open Eval

/-! ## What is selected -/

/-- Elements are selected in document order. -/
theorem selectElements_pairwise {d : Document} (hd : d.Linked) {id : NodeId}
    (hid : id < d.nodes.size) {selector : String} {ids : List NodeId}
    (h : selectElements d id selector = .ok ids) : ids.Pairwise d.Precedes := by
  obtain ⟨value, hvalue, h⟩ := bind_eq_ok h
  cases value with
  | nodes items =>
    cases h
    obtain ⟨e, -, he⟩ := bind_eq_ok hvalue
    have hset := XPath.eval_nodeSet (f := ⟨.node id, 1, 1⟩) (.of hd hid) e
      (Document.topOf_spec hd id).1 he
    refine List.pairwise_filterMap.mpr (hset.ordered.imp fun {a b} hab x hx y hy => ?_)
    cases a with
    | «attribute» => cases hx
    | node a =>
      cases b with
      | «attribute» => cases hy
      | node b =>
        dsimp only at hx hy
        split at hx <;> cases hx
        split at hy <;> cases hy
        rcases hab with hab | ⟨-, hslot⟩
        · exact hab
        · exact absurd hslot (Nat.lt_irrefl _)
  | string | number | boolean => cases h

variable {σ : Type} [DocumentStore σ] {s u : Session σ} {d : Document} {id : NodeId}
  {selector : Term Nat} {text : Option String}

/-! ## What is taken away -/

theorem detachAll_run (hd : u.context.document = some d) (ids : List NodeId) :
    detachAll ids u =
      (.ok (), u.comeTo { u.context with document := some (ids.foldl Document.detach d) }) := by
  rw [detachAll]
  exact bind_run_ok (change_run_ok hd rfl) _

theorem removeAll_run (w : Ways σ) (hcursor : s.context.element? = some id)
    (htext : eval w selector s = (.ok text, u)) (hd : u.context.document = some d)
    {ids : List NodeId} (hids : selectElements d id (text.getD "") = .ok ids) (hsome : ids ≠ []) :
    eval w (.removeAll selector) s =
      (.ok none, u.comeTo
        { u.context with document := some (ids.foldl Document.detach d) }) := by
  have hselect : selectAll id (text.getD "") u = (.ok ids, u) := by
    rw [selectAll, ask_run_some hd, hids]
    rfl
  rw [eval]
  rw [bind_run_ok (cursor?_run "remove" hcursor)]
  dsimp only
  rw [bind_run_ok htext, bind_run_ok hselect]
  cases ids with
  | nil => exact absurd rfl hsome
  | cons first rest => exact bind_run_ok (detachAll_run hd (first :: rest)) _

theorem removeElement_run (w : Ways σ) (hcursor : s.context.element? = some id)
    (htext : eval w selector s = (.ok text, u)) (hd : u.context.document = some d)
    {first : NodeId} (hfirst : selectFirst? d id (text.getD "") = .ok (some first)) :
    eval w (.removeElement selector) s =
      (.ok none, u.comeTo { u.context with document := some (d.detach first) }) := by
  have hselect : selectOne id (text.getD "") u = (.ok (some first), u) := by
    rw [selectOne, ask_run_some hd, hfirst]
    rfl
  rw [eval]
  rw [bind_run_ok (cursor?_run "remove" hcursor)]
  dsimp only
  rw [bind_run_ok htext, bind_run_ok hselect]
  exact bind_run_ok (detachAll_run hd [first]) _

/-- A selector that selects elements is given to the directives that remove them.  After
`remove all`, none of these elements has a parent, all other nodes have the parents that they had,
and the children of every node are those that it had, in the same order, without these elements;
and a node is what it was.  After `remove`, the same holds with the one of them that precedes all
others in document order.  Nothing else in the session is changed, and nothing is reported. -/
theorem removals_are_exact (w : Ways σ) (hcursor : s.context.element? = some id)
    (htext : eval w selector s = (.ok text, u)) (hd : u.context.document = some d)
    (hreachable : d.Reachable) (hid : id < d.nodes.size) {ids : List NodeId}
    (hids : selectElements d id (text.getD "") = .ok ids) (hsome : ids ≠ []) :
    (∃ d', Document.Removes ids d d' ∧ eval w (.removeAll selector) s =
      (.ok none, u.comeTo { u.context with document := some d' })) ∧
    ∃ first ∈ ids, (∀ other ∈ ids, other ≠ first → d.Precedes first other) ∧
      ∃ d', Document.Removes [first] d d' ∧ eval w (.removeElement selector) s =
        (.ok none, u.comeTo { u.context with document := some d' }) := by
  have hlinked := hreachable.linked
  refine ⟨⟨_, Document.removes_detachAll ids hlinked,
    removeAll_run w hcursor htext hd hids hsome⟩, ?_⟩
  have hordered := selectElements_pairwise hlinked hid hids
  cases ids with
  | nil => exact absurd rfl hsome
  | cons first rest =>
    have hfirst : selectFirst? d id (text.getD "") = .ok (some first) := by
      rw [selectFirst?, hids]
      rfl
    refine ⟨first, List.mem_cons_self, fun other hother hne => ?_, _, .detach hlinked first,
      removeElement_run w hcursor htext hd hfirst⟩
    exact (List.pairwise_cons.mp hordered).1 other ((List.mem_cons.mp hother).resolve_left hne)

/-- An element that was detached is selected from itself, together with one under it. -/
theorem removals_are_exact_when_detached :
    let element (name : String) : Xml.NodeKind := .element ⟨name, []⟩
    let whole := ((Document.empty.push 0 (element "r")).push 1 (element "a")).push 2 (element "a")
    let d := whole.detach 2
    let c : Context := { Context.new 7 [] with document := some d, cursor := some 2 }
    let s : Session MemoryStore := ⟨c, ⟨[]⟩, []⟩
    let w : Ways MemoryStore := ⟨fun _ => return, fun _ => return⟩
    let selector : Term Nat := .literal (.text "descendant-or-self::a")
    d.Reachable ∧ selectElements d 2 "descendant-or-self::a" = .ok [2, 3] ∧
      (∃ d', Document.Removes [2, 3] d d' ∧ eval w (.removeAll selector) s =
        (.ok none, s.comeTo { s.context with document := some d' })) ∧
      ∃ d', Document.Removes [2] d d' ∧ eval w (.removeElement selector) s =
        (.ok none, s.comeTo { s.context with document := some d' }) := by
  intro element whole d c s w selector
  have hr : Document.ofName "r" = .ok (Document.empty.push 0 (element "r")) := rfl
  have ha : (Document.empty.push 0 (element "r")).appendElement 1 "a" =
    .ok ((Document.empty.push 0 (element "r")).push 1 (element "a"), 2) := rfl
  have hb : ((Document.empty.push 0 (element "r")).push 1 (element "a")).appendElement 2 "a" =
    .ok (whole, 3) := rfl
  have hd : d.Reachable :=
    .detach 2 (.appendElement (.appendElement (.ofName hr) (by decide) ha) (by decide) hb)
  have htokens : XPath.tokens "descendant-or-self::a" =
    .ok [.name "descendant-or-self", .doubleColon, .name "a"] := by decide +kernel
  have hread : XPath.read "descendant-or-self::a" =
      .ok (.path false [.along .descendantOrSelf (.name "a") []]) := by
    rw [XPath.read, htokens]
    rfl
  have hvalue : XPath.evaluate d 2 "descendant-or-self::a" =
      .ok (.nodes ((XPath.View.of d 2).inOrder [.node 2, .node 3])) :=
    XPath.evaluate_step hread (by decide +kernel)
  rw [Sees.inOrder_eq_self _ (by decide) (by decide)] at hvalue
  have hids : selectElements d 2 "descendant-or-self::a" = .ok [2, 3] := by
    rw [selectElements, hvalue]
    decide +kernel
  have htext : eval w selector s = (.ok (some "descendant-or-self::a"), s) :=
    PlainLiteral.eval_run ⟨.text "descendant-or-self::a", by rintro _ ⟨⟩; decide⟩ w s
  obtain ⟨hall, first, hfirst, hothers, hone⟩ :=
    removals_are_exact w rfl htext rfl hd (by decide) hids (by decide)
  refine ⟨hd, hids, hall, ?_⟩
  -- The element under the other one does not precede it.
  rcases List.mem_pair.mp hfirst with rfl | rfl
  · exact hone
  · have habove : d.Precedes 2 3 := .above (by decide) (.child (by decide))
    exact absurd habove ((hothers 2 (by decide) (by decide)).asymm hd.linked)

end PatchScript.Run
