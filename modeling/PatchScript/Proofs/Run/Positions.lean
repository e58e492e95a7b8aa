import PatchScript.Proofs.Run.Patches

/-!
# Positions

Child elements of a name are numbered from 1.  `add` and `change_add` find out where a position is
by looking for the element there and for the one before it.  What they find depends on nothing but
the number of the children of that name (`Document.isSome_nthChild?_iff`): `add` is for the next
place only, `change_add` is for this place and those before it, whatever other children stand
between them (`positions_are_counted`).

Positions are integers here and words of 64 bits where the program runs.  `addAtWord` and
`changeOrAddAtWord` are the two directives with words.  They do whatever they are told where a
word cannot hold a result, and are the directives with integers no matter what this is, since they
never get there.
-/

namespace PatchScript.Xml.Document

variable {d : Document} {id : NodeId} {tag : String}

/-- There is a child of the name at the positions up to the number of these children. -/
theorem isSome_nthChild?_iff {n : Nat} :
    (d.nthChild? id tag n).isSome ↔ 1 ≤ n ∧ n ≤ (d.named id tag).length := by
  rw [nthChild?_eq]
  split
  · simp
    omega
  · rw [isSome_getElem?]
    omega

theorem isNone_nthChild?_iff {n : Nat} :
    (d.nthChild? id tag n).isNone ↔ n < 1 ∨ (d.named id tag).length < n := by
  rw [← Option.isSome_eq_false_iff, ← Bool.not_eq_true, isSome_nthChild?_iff]
  omega

end PatchScript.Xml.Document

namespace PatchScript.Run

open Xml (Document NodeId isValidName)
open Script (Term)
open Eval

variable {σ : Type} [DocumentStore σ] {s t u : Session σ} {d : Document} {id : NodeId}
  {tag : String}

/-! ## The next place -/

/-- The place that is to be filled next. -/
def Target.next (d : Document) (id : NodeId) (tag : String) : Target where
  tag := tag
  number := (d.named id tag).length + 1
  positive := Nat.le_add_left 1 _

namespace Target

theorem find?_next : (next d id tag).find? d id = none := by
  rw [← Option.isNone_iff_eq_none]
  exact Document.isNone_nthChild?_iff.mpr (.inr (Nat.lt_succ_self _))

theorem hasPlace_next : (next d id tag).HasPlace d id :=
  fun hn => Document.isSome_nthChild?_iff.mpr ⟨Nat.le_of_lt_succ hn, Nat.le_refl _⟩

/-- What is appended fills the place. -/
theorem find?_make_next (hd : d.Linked) (hid : id < d.nodes.size) :
    (next d id tag).find? ((next d id tag).make d id) id = some d.nodes.size :=
  Document.nthChild?_push hd hid (next d id tag).positive hasPlace_next find?_next

end Target

/-! ## Directives by their numbers -/

/-- `add` appends an element at the next place. -/
theorem addAt_run_next (hd : s.context.document = some d) (step : Eval σ Unit) :
    addAt id tag ((d.named id tag).length + 1) step s = makeAt (.next d id tag) id step s :=
  addAt_made (t := .next d id tag) hd Target.hasPlace_next Target.find?_next step

/-- `add` does nothing at any other place. -/
theorem addAt_run_other (hd : s.context.document = some d) {n : Int}
    (hn : n ≠ (d.named id tag).length + 1) (step : Eval σ Unit) :
    addAt id tag n step s = (.ok (), s) := by
  rw [addAt]
  rw [bind_run_ok (nthChild?_run hd id tag _), bind_run_ok (nthChild?_run hd id tag _), if_pos]
  · rfl
  · rw [Document.isNone_nthChild?_iff, Document.isSome_nthChild?_iff]
    omega

/-- `change_add` fails where no child can be. -/
theorem changeOrAddAt_run_invalid {n : Int} (hn : n < 1) (step : Eval σ Unit) :
    changeOrAddAt id tag n step s = (.error (.invalidPosition (toString n)), s) := by
  rw [changeOrAddAt]
  rw [if_pos hn]
  rfl

/-- `change_add` works on the element that there is. -/
theorem changeOrAddAt_run_found (hd : s.context.document = some d) {n : Int} (hn : 1 ≤ n)
    (hle : n ≤ (d.named id tag).length) (step : Eval σ Unit) :
    ∃ c, d.nthChild? id tag n.toNat = some c ∧
      changeOrAddAt id tag n step s = atElement c step s := by
  obtain ⟨m, rfl⟩ := Int.eq_ofNat_of_zero_le (Int.le_trans Int.one_nonneg hn)
  let place : Target := ⟨tag, m, by omega⟩
  obtain ⟨c, hc⟩ := Option.isSome_iff_exists.mp
    (Document.isSome_nthChild?_iff.mpr ⟨place.positive, Int.ofNat_le.mp hle⟩)
  have hplace : place.HasPlace d id := .of_nthChild? hc
  have hfind : place.find? d id = some c := hc
  refine ⟨c, hc, (changeOrAddAt_run (t := place) hd hplace step).trans ?_⟩
  rw [hfind]

/-- `change_add` appends an element at the next place. -/
theorem changeOrAddAt_run_next (hd : s.context.document = some d) (step : Eval σ Unit) :
    changeOrAddAt id tag ((d.named id tag).length + 1) step s =
      makeAt (.next d id tag) id step s := by
  refine (changeOrAddAt_run (t := .next d id tag) hd Target.hasPlace_next step).trans ?_
  rw [Target.find?_next]

/-- `change_add` reports that there is no element before the place. -/
theorem changeOrAddAt_run_gap {n : Int} (hn : 1 < n)
    (hgap : nthChild? id tag (n - 1) s = (.ok none, s)) (step : Eval σ Unit) :
    changeOrAddAt id tag n step s = skip (.predecessorMissing tag) s := by
  rw [changeOrAddAt]
  rw [if_neg (by omega)]
  dsimp only
  rw [bind_run_ok hgap, if_pos ⟨hn, rfl⟩]

theorem changeOrAddAt_run_far (hd : s.context.document = some d) {n : Int}
    (hn : (d.named id tag).length + 1 < n) (step : Eval σ Unit) :
    changeOrAddAt id tag n step s = skip (.predecessorMissing tag) s := by
  have hnone : d.nthChild? id tag (n - 1).toNat = none := by
    rw [← Option.isNone_iff_eq_none, Document.isNone_nthChild?_iff]
    omega
  refine changeOrAddAt_run_gap (by omega) ?_ step
  rw [nthChild?_run hd, hnone]

/-! ## Words -/

/-- One less, if a word holds it. -/
def lessOne? (n : Int64) : Option Int64 :=
  if Int64.minValue.toInt ≤ n.toInt - 1 then some (n - 1) else none

/-- The index of the child with a number, if a word without a sign holds it. -/
def indexOf? (n : UInt64) : Option UInt64 := if 1 ≤ n.toNat then some (n - 1) else none

theorem lessOne?_eq_some {n : Int64} (hn : 1 < n.toInt) :
    ∃ m, lessOne? n = some m ∧ m.toInt = n.toInt - 1 := by
  have hle := n.le_toInt
  have hlt := n.toInt_lt
  refine ⟨n - 1, if_pos ?_, ?_⟩
  · rw [Int64.toInt_minValue]
    omega
  · rw [Int64.toInt_sub, Int64.toInt_one, Int.bmod_eq_of_le] <;> omega

theorem indexOf?_eq_some {n : UInt64} (hn : 1 ≤ n.toNat) :
    ∃ i, indexOf? n = some i ∧ i.toNat = n.toNat - 1 := by
  refine ⟨n - 1, if_pos hn, ?_⟩
  exact UInt64.toNat_sub_of_le n 1 (UInt64.le_iff_toNat_le.mpr hn)

theorem toNat_toUInt64 {n : Int64} (hn : 0 ≤ n.toInt) : n.toUInt64.toNat = n.toInt.toNat :=
  Int64.toNat_toUInt64_of_le (Int64.le_iff_toInt_le.mpr hn)

section Words

variable (overflow : Eval σ Unit)

/-- The child element of a name with a number that is a word. -/
def nthChildWord? (id : NodeId) (tag : String) (n : Int64) : Eval σ (Option NodeId) :=
  if n < 0 ∨ n.toUInt64 = 0 then return none
  else
    match indexOf? n.toUInt64 with
    | some i => return (← context).document.bind fun d => (d.named id tag)[i.toNat]?
    | none => do
      overflow
      return none

/-- Is the child before the place missing? -/
def gapWord (id : NodeId) (tag : String) (n : Int64) : Eval σ Bool :=
  if 1 < n then
    match lessOne? n with
    | some m => return (← nthChildWord? overflow id tag m).isNone
    | none => do
      overflow
      return true
  else return false

/-- Appends an element at a position that is a word and runs a step at it. -/
def addAtWord (id : NodeId) (tag : String) (n : Int64) (step : Eval σ Unit) : Eval σ Unit := do
  if n < 1 then return
  else
    let gap ← gapWord overflow id tag n
    if gap then return
    else
      let there ← nthChildWord? overflow id tag n
      if there.isSome then return
      else atElement? (← appendElement id tag) step

/-- Runs a step at the element at a position that is a word, which is appended if it is missing and
the one before it is not. -/
def changeOrAddAtWord (id : NodeId) (tag : String) (n : Int64) (step : Eval σ Unit) :
    Eval σ Unit := do
  if n < 1 then throw (.invalidPosition (toString n.toInt))
  else
    let gap ← gapWord overflow id tag n
    if gap then skip (.predecessorMissing tag)
    else
      match ← nthChildWord? overflow id tag n with
      | some there => atElement there step
      | none => atElement? (← appendElement id tag) step

omit [DocumentStore σ] in
theorem nthChildWord?_run (hd : s.context.document = some d) (n : Int64) :
    nthChildWord? overflow id tag n s = (.ok (d.nthChild? id tag n.toInt.toNat), s) := by
  have hneg : n < 0 ↔ n.toInt < 0 := Int64.lt_iff_toInt_lt
  rw [nthChildWord?, Document.nthChild?_eq]
  by_cases hn : n.toInt < 0
  · rw [if_pos (.inl (hneg.mpr hn)), if_pos (by omega)]
    rfl
  · have hnat := toNat_toUInt64 (Int.not_lt.mp hn)
    by_cases hzero : n.toUInt64 = 0
    · rw [if_pos (.inr hzero), if_pos]
      · rfl
      · rw [← hnat, hzero]
        rfl
    · have hpositive : n.toUInt64.toNat ≠ 0 := fun h => hzero (UInt64.toNat_inj.mp h)
      obtain ⟨i, hi, hindex⟩ := indexOf?_eq_some (Nat.one_le_iff_ne_zero.mpr hpositive)
      rw [if_neg (not_or.mpr ⟨hneg.not.mpr hn, hzero⟩), if_neg (hnat ▸ hpositive), hi]
      dsimp only
      rw [context_bind_run, hd, hindex, hnat]
      rfl

omit [DocumentStore σ] in
theorem gapWord_run (hd : s.context.document = some d) (n : Int64) :
    gapWord overflow id tag n s =
      (.ok (decide (1 < n.toInt ∧ (d.nthChild? id tag (n.toInt - 1).toNat).isNone)), s) := by
  have hone : 1 < n ↔ 1 < n.toInt := Int64.lt_iff_toInt_lt
  rw [gapWord]
  by_cases hn : 1 < n.toInt
  · obtain ⟨m, hm, hbefore⟩ := lessOne?_eq_some hn
    rw [if_pos (hone.mpr hn), hm]
    dsimp only
    rw [bind_run_ok (nthChildWord?_run overflow hd m), hbefore]
    simp only [hn, true_and, Bool.decide_eq_true, pure_run]
  · rw [if_neg (hone.not.mpr hn)]
    simp only [hn, false_and, decide_false, pure_run]

/-- `add` with words is `add` with integers. -/
theorem addAtWord_run (hd : s.context.document = some d) (n : Int64) (step : Eval σ Unit) :
    addAtWord overflow id tag n step s = addAt id tag n.toInt step s := by
  have hone : n < 1 ↔ n.toInt < 1 := Int64.lt_iff_toInt_lt
  rw [addAtWord, addAt]
  rw [bind_run_ok (nthChild?_run hd id tag _), bind_run_ok (nthChild?_run hd id tag _)]
  by_cases hn : n.toInt < 1
  · rw [if_pos (hone.mpr hn), if_pos (.inl hn)]
  · rw [if_neg (hone.not.mpr hn), bind_run_ok (gapWord_run overflow hd n)]
    by_cases hgap : 1 < n.toInt ∧ (d.nthChild? id tag (n.toInt - 1).toNat).isNone
    · rw [if_pos (decide_eq_true hgap), if_pos (.inr (.inl hgap))]
    · rw [if_neg (mt of_decide_eq_true hgap), bind_run_ok (nthChildWord?_run overflow hd n)]
      by_cases hthere : (d.nthChild? id tag n.toInt.toNat).isSome
      · rw [if_pos hthere, if_pos (.inr (.inr hthere))]
      · rw [if_neg hthere, if_neg (not_or.mpr ⟨hn, not_or.mpr ⟨hgap, hthere⟩⟩)]

/-- `change_add` with words is `change_add` with integers. -/
theorem changeOrAddAtWord_run (hd : s.context.document = some d) (n : Int64)
    (step : Eval σ Unit) :
    changeOrAddAtWord overflow id tag n step s = changeOrAddAt id tag n.toInt step s := by
  have hone : n < 1 ↔ n.toInt < 1 := Int64.lt_iff_toInt_lt
  rw [changeOrAddAtWord, changeOrAddAt]
  by_cases hn : n.toInt < 1
  · rw [if_pos (hone.mpr hn), if_pos hn]
    rfl
  · rw [if_neg (hone.not.mpr hn), if_neg hn, bind_run_ok (gapWord_run overflow hd n)]
    dsimp only
    rw [bind_run_ok (nthChild?_run hd id tag _)]
    by_cases hgap : 1 < n.toInt ∧ (d.nthChild? id tag (n.toInt - 1).toNat).isNone
    · rw [if_pos (decide_eq_true hgap), if_pos hgap]
    · rw [if_neg (mt of_decide_eq_true hgap), if_neg hgap]
      rewrite [bind_run_ok (nthChildWord?_run overflow hd n)]
      rewrite [bind_run_ok (nthChild?_run hd id tag _)]
      rfl

end Words

/-! ## Directives by their terms -/

/-- The position that a term stands for. -/
def positionIn (w : Ways σ) (position : Term Nat) : Eval σ Int :=
  match integerOfTerm? position with
  | some n => return n
  | none => do positionOf ((← eval w position).getD "")

/-- A position is found out, and then something is done with it. -/
theorem positionIn_bind {α : Type} (w : Ways σ) (position : Term Nat) (f : Int → Eval σ α) :
    (match integerOfTerm? position with
      | some n => do
        let n ← pure n
        f n
      | none => do
        let text ← eval w position
        let n ← positionOf (text.getD "")
        f n) = positionIn w position >>= f := by
  rw [positionIn]
  cases integerOfTerm? position with
  | some n => rfl
  | none => exact (bind_assoc _ _ _).symm

/-- To find out a position changes nothing if to evaluate its term does not. -/
theorem positionIn_rests {w : Ways σ} {position : Term Nat}
    (h : ∃ r, eval w position s = (r, s)) : ∃ r, positionIn w position s = (r, s) := by
  rw [positionIn]
  cases integerOfTerm? position with
  | some n => exact ⟨.ok n, rfl⟩
  | none =>
    obtain ⟨r, hr⟩ := h
    cases r with
    | error e => exact ⟨.error e, bind_run_error hr _⟩
    | ok text =>
      dsimp only
      rw [bind_run_ok hr, positionOf]
      cases integerOf? (text.getD "") with
      | some n => exact ⟨.ok n, rfl⟩
      | none => exact ⟨.error _, rfl⟩

section Terms

variable (w : Ways σ) {tagTerm position : Term Nat} {text : Option String} {n : Int}

theorem eval_addAt_run (hcursor : s.context.element? = some id)
    (htag : eval w tagTerm s = (.ok text, t))
    (hposition : positionIn w position t = (.ok n, u)) (body : List (Term Nat)) :
    eval w (.addAt tagTerm position body) s =
      (do
        addAt id (text.getD "") n (evalBody w body)
        return none) u := by
  rw [eval]
  rw [bind_run_ok (cursor?_run "add" hcursor)]
  dsimp only
  rw [bind_run_ok htag]
  exact (congrFun (positionIn_bind w position _) t).trans (bind_run_ok hposition _)

theorem eval_changeOrAddAt_run (hcursor : s.context.element? = some id)
    (htag : eval w tagTerm s = (.ok text, t))
    (hposition : positionIn w position t = (.ok n, u)) (body : List (Term Nat)) :
    eval w (.changeOrAddAt tagTerm position body) s =
      (do
        changeOrAddAt id (text.getD "") n (evalBody w body)
        return none) u := by
  rw [eval]
  rw [bind_run_ok (cursor?_run "change_add" hcursor)]
  dsimp only
  rw [bind_run_ok htag]
  exact (congrFun (positionIn_bind w position _) t).trans (bind_run_ok hposition _)

/-- `add` and `change_add` of a name at a position, in terms of the number of the children of this
name.  `add` works on a new element if the position is the next one to be filled, which is a new
last child and the next one of its name; at any other position it does nothing.  `change_add` fails
at a position before the first one, works on the child there if there is one, on the same new
element at the next position, and only reports that there is a gap behind that.  With positions
that are words the directives are the same, no matter what would be done on an overflow. -/
theorem positions_are_counted (hcursor : s.context.element? = some id)
    (htag : eval w tagTerm s = (.ok (some tag), t))
    (hposition : positionIn w position t = (.ok n, u)) (hd : u.context.document = some d)
    (hreachable : d.Reachable) (hid : id < d.nodes.size) (hvalid : isValidName tag)
    (body : List (Term Nat)) :
    let count := (d.named id tag).length
    let add := eval w (.addAt tagTerm position body) s
    let changeOrAdd := eval w (.changeOrAddAt tagTerm position body) s
    let done (step : Eval σ Unit) : Eval σ (Option String) := do
      step
      return none
    let work (c : NodeId) := done (atElement c (evalBody w body))
    ∃ d', d.appendElement id tag = .ok (d', d.nodes.size) ∧
      d'.children id = d.children id ++ [d.nodes.size] ∧
      d'.nthChild? id tag (count + 1) = some d.nodes.size ∧
      let made := u.comeTo { u.context with document := some d' }
      (n = count + 1 → add = work d.nodes.size made) ∧
      (n ≠ count + 1 → add = (.ok none, u)) ∧
      (n < 1 → ∃ e : Fault, e.report.code = "EVAL_INVALID_POSITION" ∧
        changeOrAdd = (.error e, u)) ∧
      (1 ≤ n ∧ n ≤ count → ∃ c, d.nthChild? id tag n.toNat = some c ∧ changeOrAdd = work c u) ∧
      (n = count + 1 → changeOrAdd = work d.nodes.size made) ∧
      (count + 1 < n → ∃ r : Diagnostic, r.code = "PREDECESSOR_MISSING" ∧
        changeOrAdd = (.ok none, u.comeTo (u.context.diagnose r))) ∧
      ∀ (overflow : Eval σ Unit) (word : Int64), word.toInt = n →
        add = done (addAtWord overflow id tag word (evalBody w body)) u ∧
        changeOrAdd = done (changeOrAddAtWord overflow id tag word (evalBody w body)) u := by
  intro count add changeOrAdd done work
  have hadd : add = done (addAt id tag n (evalBody w body)) u :=
    eval_addAt_run w hcursor htag hposition body
  have hchange : changeOrAdd = done (changeOrAddAt id tag n (evalBody w body)) u :=
    eval_changeOrAddAt_run w hcursor htag hposition body
  let d' := (Target.next d id tag).make d id
  let made := u.comeTo { u.context with document := some d' }
  have hmake : makeAt (.next d id tag) id (evalBody w body) u =
      atElement d.nodes.size (evalBody w body) made :=
    (makeAt_run (.next d id tag) hd id _).trans (if_pos hvalid)
  refine ⟨d', ?_, ?_, Target.find?_make_next hreachable.linked hid, ?_, ?_, ?_, ?_, ?_, ?_, ?_⟩
  · rw [Document.appendElement, Xml.checkName, if_pos hvalid]
    rfl
  · exact (Document.children_push _ _ hid).trans (if_pos rfl)
  · intro hn
    rw [hadd, hn]
    exact bind_run_congr ((addAt_run_next hd _).trans hmake) _
  · intro hn
    rw [hadd]
    exact bind_run_ok (addAt_run_other hd hn _) _
  · intro hn
    refine ⟨.invalidPosition (toString n), rfl, ?_⟩
    rw [hchange]
    exact bind_run_error (changeOrAddAt_run_invalid hn _) _
  · rintro ⟨hn, hle⟩
    obtain ⟨c, hc, hrun⟩ := changeOrAddAt_run_found hd hn hle (evalBody w body)
    refine ⟨c, hc, ?_⟩
    rw [hchange]
    exact bind_run_congr hrun _
  · intro hn
    rw [hchange, hn]
    exact bind_run_congr ((changeOrAddAt_run_next hd _).trans hmake) _
  · intro hn
    refine ⟨(Skipped.predecessorMissing tag).diagnostic, rfl, ?_⟩
    rw [hchange]
    exact bind_run_ok (changeOrAddAt_run_far hd hn _) _
  · rintro overflow word rfl
    rw [hadd, hchange]
    exact ⟨bind_run_congr (addAtWord_run overflow hd word _).symm _,
      bind_run_congr (changeOrAddAtWord_run overflow hd word _).symm _⟩

/-- The next position at an element with two children of the name and a text between them. -/
theorem positions_are_counted_beside_text :
    let element (name : String) : Xml.NodeKind := .element ⟨name, []⟩
    let first := (Document.empty.push 0 (element "r")).push 1 (element "a")
    let d := (first.push 1 (.text "x")).push 1 (element "a")
    let c : Context := { Context.new 7 [] with document := some d, cursor := some 1 }
    let s : Session MemoryStore := ⟨c, ⟨[]⟩, []⟩
    let w : Ways MemoryStore := ⟨fun _ => return, fun _ => return⟩
    let tagTerm : Term Nat := .literal (.text "a")
    let position : Term Nat := .literal (.integer 3)
    eval w tagTerm s = (.ok (some "a"), s) ∧ positionIn w position s = (.ok 3, s) ∧
      d.Reachable ∧ 1 < d.nodes.size ∧ isValidName "a" ∧ (d.named 1 "a").length = 2 ∧
      ∃ d', d.appendElement 1 "a" = .ok (d', 5) ∧ d'.nthChild? 1 "a" 3 = some 5 ∧
        eval w (.addAt tagTerm position []) s =
          (do
            atElement 5 (evalBody w [])
            return none) (s.comeTo { s.context with document := some d' }) := by
  intro element first d c s w tagTerm position
  have hr : Document.ofName "r" = .ok (Document.empty.push 0 (element "r")) := rfl
  have ha : (Document.empty.push 0 (element "r")).appendElement 1 "a" = .ok (first, 2) := rfl
  have hb : (first.push 1 (.text "x")).appendElement 1 "a" = .ok (d, 4) := rfl
  have hfirst : first.Reachable := .appendElement (.ofName hr) (by decide) ha
  have hd : d.Reachable := .appendElement (.appendText "x" hfirst (by decide)) (by decide) hb
  have htag : eval w tagTerm s = (.ok (some "a"), s) :=
    PlainLiteral.eval_run ⟨.text "a", by rintro _ ⟨⟩; decide⟩ w s
  have hposition : positionIn w position s = (.ok 3, s) := rfl
  have hsize : d.nodes.size = 5 := rfl
  have hcount : (d.named 1 "a").length = 2 := by decide
  have hall := positions_are_counted w rfl htag hposition rfl hd (by decide) (by decide) []
  rw [hsize, hcount] at hall
  obtain ⟨d', happend, -, hnext, hadd, -⟩ := hall
  exact ⟨htag, hposition, hd, by decide, by decide, hcount, d', happend, hnext, hadd rfl⟩

end Terms

end PatchScript.Run
