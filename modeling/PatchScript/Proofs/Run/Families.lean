import PatchScript.Proofs.Run.Declarations
import PatchScript.Proofs.Run.Steps
import PatchScript.Run.Eval

/-!
# Families of steps that are put together alike

The evaluator puts steps together: it binds names, asks and changes the document, enters
elements and documents, and does one step after another.  What is known of the smallest
steps and is kept by every way to put steps together is known of the steps of a term.

What there is to know may be about many runs at once, as when a run is compared with the
runs that have other sentinels.  So it is said of a *family* of steps, one for each index,
and it may compare the family with another one, on another store.  A `FamilyCongruence` is a
relation between two families that holds of the smallest steps, the same ones at all indices,
and is kept by every way to put them together.  It holds between the families of the steps of
a term, if it holds between those of the ways out of it (`FamilyCongruence.eval`).

The contexts of a family may differ, as long as they *look alike*: the directives of a term see
the names that are bound, the document and the element they work on, and these are the same.
Of the rest they see the sentinel, in three places only: at the gate of a preset, where the
last value is compared with it, when a `use` opens this gate, and when a `use` that has no
argument gives it to `get` for a selector and drops the answer.

The evaluator leaves a term in two ways, to the body of a preset and to another
script, so of these the relation has to be known.  The presets that can be reached
are those that the terms declare, at any depth, and the scripts those that they include;
`declared` and `included` are what is known of them.
-/

namespace PatchScript.Run

open Script (Term)
open Eval

/-! ## What the evaluator does -/

/-- The changes that directives make to a document. -/
inductive Edit : {α : Type} → (Xml.Document → Except Xml.Error (Xml.Document × α)) → Prop where
  | setAttribute (id : Xml.NodeId) (name value : String) :
    Edit fun d => do
      let d ← d.setAttribute id name value
      return (d, ())
  | removeAttribute (id : Xml.NodeId) (name : String) :
    Edit fun d => .ok (d.removeAttribute id name, ())
  | appendElement (id : Xml.NodeId) (tag : String) : Edit (·.appendElement id tag)
  | detachAll (ids : List Xml.NodeId) : Edit fun d => .ok (ids.foldl Xml.Document.detach d, ())

/-- The questions that directives ask about a document. -/
inductive Question : {α : Type} → (Xml.Document → Except XPath.Error α) → Prop where
  | first (id : Xml.NodeId) (selector : String) : Question (XPath.selectFirst? · id selector)
  | every (id : Xml.NodeId) (selector : String) : Question (XPath.selectElements · id selector)
  | text (id : Xml.NodeId) (expression : String) :
    Question fun d => (XPath.evaluateString d id expression).map some

/-- The faults that the evaluator makes itself. -/
inductive Raised : Fault → Prop where
  | unresolved (name : String) : Raised (.unresolved name)
  | invalidPosition (text : String) : Raised (.invalidPosition text)
  | presetUseRequired (name : String) : Raised (.presetUseRequired name)
  | presetMissingArgs (name : String) (expected found : Nat) :
    Raised (.presetMissingArgs name expected found)
  | presetArgNull (name : String) (index : Nat) : Raised (.presetArgNull name index)

/-- What the evaluator binds names to: texts, and presets that are declared. -/
inductive Made (declared : Preset → Prop) : Binding → Prop where
  | constant (text : String) : Made declared (.constant text)
  | preset {p : Preset} : declared p → Made declared (.callable (.preset p))

theorem Made.declares {declared : Preset → Prop} {b : Binding} (h : Made declared b) (p : Preset)
    (hp : b = .callable (.preset p)) : declared p := by
  cases h with
  | constant text => cases hp
  | preset hq =>
    cases hp
    exact hq

section
variable {σ : Type}

/-- A step behind the gate of a preset: the last value has to be the sentinel. -/
def gated (preset : String) (values : List (Option String)) (step : Eval σ Unit) :
    Eval σ Unit := do
  if values.getLast? ≠ some (some (← context).sentinel) then
    throw (.presetUseRequired preset)
  step

theorem gated_run_refused {s : Session σ} {preset : String} {values : List (Option String)}
    {step : Eval σ Unit} (h : values.getLast? ≠ some (some s.context.sentinel)) :
    gated preset values step s = (.error (.presetUseRequired preset), s) := by
  rw [gated, context_bind_run, if_pos h]
  rfl

theorem gated_run_opened {s : Session σ} {preset : String} {values : List (Option String)}
    {step : Eval σ Unit} (h : values.getLast? = some (some s.context.sentinel)) :
    gated preset values step s = step s := by
  rw [gated, context_bind_run, if_neg (not_not_intro h)]

variable [DocumentStore σ]

/-- Runs a preset on the values of its arguments. -/
def enter (w : Ways σ) (p : Preset) (values : List (Option String)) : Eval σ Unit := do
  if values.length < p.params.length then
    throw (.presetMissingArgs p.name p.params.length values.length)
  inPreset p do
    bindParams p.name 0 p.params values
    w.body p.body

theorem callPreset_eq (w : Ways σ) (p : Preset) (values : List (Option String)) :
    callPreset w p values = gated p.name values (enter w p values.dropLast) := rfl

end

/-! ### Contexts that look alike -/

/-- What the directives of a term see of the two contexts is the same, but for the sentinel. -/
structure Context.LooksLike (c c' : Context) : Prop where
  /-- The element that directives work on. -/
  element? : c.element? = c'.element?
  /-- The document. -/
  document : c.document = c'.document
  /-- The constants. -/
  const? : c.const? = c'.const?
  /-- What can be called. -/
  func? : c.func? = c'.func?

theorem Context.LooksLike.refl (c : Context) : c.LooksLike c := ⟨rfl, rfl, rfl, rfl⟩

/-! ## Relations between families -/

/-- A relation between families of steps that every way to put them together keeps. -/
structure FamilyCongruence (ι σ τ : Type) [DocumentStore σ] [DocumentStore τ]
    (declared : Preset → Prop) (included : String → Prop) where
  /-- The relation. -/
  related : {α : Type} → (ι → Eval σ α) → (ι → Eval τ α) → Prop
  /-- The ways out of terms that are followed. -/
  follows : (ι → Ways σ) → (ι → Ways τ) → Prop
  /-- The context that is seen at an index. -/
  seen : ι → Context → Context
  looks (i : ι) (c : Context) : (seen i c).LooksLike c
  ret {α : Type} (a : α) : related (fun _ => pure a) fun _ => pure a
  seq {α β : Type} {x : ι → Eval σ α} {y : ι → Eval τ α} {f : ι → α → Eval σ β}
    {g : ι → α → Eval τ β} : related x y → (∀ a, related (f · a) (g · a)) →
    related (fun i => x i >>= f i) fun i => y i >>= g i
  look {β : Type} {f : ι → Context → Eval σ β} {g : ι → Context → Eval τ β} :
    (∀ c : Context, c.Declares declared → related (fun i => f i (seen i c))
      fun i => g i (seen i c)) →
    related (fun i => context >>= f i) fun i => context >>= g i
  fault {α : Type} {e : Fault} : Raised e →
    related (α := α) (fun _ => throw e) fun _ => throw e
  binds (name : String) {b : Binding} : Made declared b →
    related (fun _ => bindName name b) fun _ => bindName name b
  skips (why : Skipped) : related (fun _ => skip why) fun _ => skip why
  asks {α : Type} {question : Xml.Document → Except XPath.Error α} (none : α) :
    Question question → related (fun _ => ask question none) fun _ => ask question none
  changes {α : Type} {f : Xml.Document → Except Xml.Error (Xml.Document × α)} :
    Edit f → related (fun _ => change f) fun _ => change f
  elements {α : Type} (id : Xml.NodeId) {x : ι → Eval σ α} {y : ι → Eval τ α} :
    related x y → related (fun i => atElement id (x i)) fun i => atElement id (y i)
  files {w : ι → Ways σ} {w' : ι → Ways τ} {path : Term Nat} {body : List (Term Nat)} :
    follows w w' → related (fun i => eval (w i) path) (fun i => eval (w' i) path) →
    related (fun i => evalBody (w i) body) (fun i => evalBody (w' i) body) →
    related (fun i => eval (w i) (.file path body)) fun i => eval (w' i) (.file path body)
  gates (preset : String) (values : List (Option String)) {x : ι → Eval σ Unit}
    {y : ι → Eval τ Unit} : related x y →
    related (fun i => gated preset values (x i)) fun i => gated preset values (y i)
  opens (preset : String) (values : List (Option String)) (c : Context) {x : ι → Eval σ Unit}
    {y : ι → Eval τ Unit} : related x y →
    related (fun i => gated preset (values ++ [some (seen i c).sentinel]) (x i))
      fun i => gated preset (values ++ [some (seen i c).sentinel]) (y i)
  selects (c : Context) :
    related
      (fun i => do let _ ← callGet (some (seen i c).sentinel); return (none : Option String))
      fun i => do let _ ← callGet (some (seen i c).sentinel); return none

namespace FamilyCongruence

variable {ι σ τ : Type} [DocumentStore σ] [DocumentStore τ] {declared : Preset → Prop}
  {included : String → Prop}

/-- Two families of ways out of terms are related if they lead to related steps. -/
structure Along (R : FamilyCongruence ι σ τ declared included) (w : ι → Ways σ)
    (w' : ι → Ways τ) : Prop where
  /-- They are followed. -/
  follows : R.follows w w'
  /-- The way to the body of a declared preset. -/
  preset (p : Preset) (values : List (Option String)) : declared p →
    R.related
      (fun i => inPreset p do bindParams p.name 0 p.params values; (w i).body p.body)
      fun i => inPreset p do bindParams p.name 0 p.params values; (w' i).body p.body
  /-- The way to another script. -/
  script (name : String) : included name →
    R.related (fun i => (w i).script name) fun i => (w' i).script name

variable (R : FamilyCongruence ι σ τ declared included)

theorem seen_element? (i : ι) (c : Context) : (R.seen i c).element? = c.element? :=
  (R.looks i c).element?

theorem seen_document (i : ι) (c : Context) : (R.seen i c).document = c.document :=
  (R.looks i c).document

theorem seen_const? (i : ι) (c : Context) : (R.seen i c).const? = c.const? :=
  (R.looks i c).const?

theorem seen_func? (i : ι) (c : Context) : (R.seen i c).func? = c.func? :=
  (R.looks i c).func?

/-! ## Steps that are put together from a few others -/

theorem cursor (directive : String) :
    R.related (fun _ => cursor? directive) fun _ => cursor? directive := by
  refine R.look fun c _ => ?_
  simp only [R.seen_element?]
  cases c.element? with
  | some id => exact R.ret _
  | none => exact R.seq (R.skips _) fun _ => R.ret _

theorem literal (value : Script.Literal) :
    R.related (fun _ => evalLiteral value) fun _ => evalLiteral value := by
  cases value with
  | text s =>
    refine R.look fun c _ => ?_
    simp only [R.seen_const?]
    cases fillPlaceholders c.const? s with
    | ok value => exact R.ret _
    | error name => exact R.fault (.unresolved name)
  | number x => exact R.ret _
  | integer n => exact R.ret _
  | boolean b => exact R.ret _

theorem position (s : String) : R.related (fun _ => positionOf s) fun _ => positionOf s := by
  unfold positionOf
  cases integerOf? s with
  | some n => exact R.ret _
  | none => exact R.fault (.invalidPosition s)

theorem nthChild (id : Xml.NodeId) (tag : String) (n : Int) :
    R.related (fun _ => nthChild? id tag n) fun _ => nthChild? id tag n := by
  unfold nthChild?
  split
  · exact R.ret _
  · refine R.look fun c _ => ?_
    simp only [R.seen_document]
    exact R.ret _

theorem forM {α : Type} {f : ι → α → Eval σ Unit} {g : ι → α → Eval τ Unit} (as : List α)
    (h : ∀ a, R.related (f · a) (g · a)) :
    R.related (fun i => as.forM (f i)) fun i => as.forM (g i) := by
  induction as with
  | nil => exact R.ret _
  | cons a as ih => exact R.seq (h a) fun _ => ih

theorem atElement? (id : Option Xml.NodeId) {x : ι → Eval σ Unit} {y : ι → Eval τ Unit}
    (h : R.related x y) :
    R.related (fun i => Run.atElement? id (x i)) fun i => Run.atElement? id (y i) := by
  cases id with
  | some id => exact R.elements id h
  | none => exact R.ret _

theorem detachAll (ids : List Xml.NodeId) :
    R.related (fun _ => detachAll ids) fun _ => detachAll ids :=
  R.seq (R.changes (.detachAll ids)) fun _ => R.ret _

theorem addAt (id : Xml.NodeId) (tag : String) (n : Int) {x : ι → Eval σ Unit}
    {y : ι → Eval τ Unit} (h : R.related x y) :
    R.related (fun i => addAt id tag n (x i)) fun i => addAt id tag n (y i) := by
  refine R.seq (R.nthChild id tag (n - 1)) fun before => ?_
  refine R.seq (R.nthChild id tag n) fun there => ?_
  split
  · exact R.ret _
  · exact R.seq (R.changes (.appendElement id tag)) fun added => R.atElement? added h

theorem changeOrAddAt (id : Xml.NodeId) (tag : String) (n : Int) {x : ι → Eval σ Unit}
    {y : ι → Eval τ Unit} (h : R.related x y) :
    R.related (fun i => changeOrAddAt id tag n (x i)) fun i => changeOrAddAt id tag n (y i) := by
  unfold Run.changeOrAddAt
  split
  refine R.seq (R.fault (.invalidPosition _)) fun _ => ?_
  -- What is left is the same in both cases.
  all_goals
    refine R.seq (R.nthChild id tag (n - 1)) fun before => ?_
    split
    · exact R.skips _
    · refine R.seq (R.nthChild id tag n) fun there => ?_
      cases there with
      | some there => exact R.elements there h
      | none => exact R.seq (R.changes (.appendElement id tag)) fun added => R.atElement? added h

theorem bindParams (preset : String) : ∀ (index : Nat) (params : List String)
    (values : List (Option String)),
    R.related (fun _ => bindParams preset index params values)
      fun _ => bindParams preset index params values
  | _, [], _ => R.ret _
  | _, _ :: _, [] => R.ret _
  | index, p :: ps, v :: vs => by
    unfold Run.bindParams
    cases v with
    | none => exact R.seq (R.fault (.presetArgNull preset index)) fun _ => bindParams preset _ ps vs
    | some value => exact R.seq (R.binds p (.constant value)) fun _ => bindParams preset _ ps vs

/-! ## Calls -/

theorem callGet (selector : Option String) :
    R.related (fun _ => callGet selector) fun _ => callGet selector := by
  cases selector with
  | none => exact R.ret _
  | some s =>
    refine R.look fun c _ => ?_
    simp only [R.seen_element?]
    split
    · exact R.ret _
    · exact R.asks _ (.text _ _)

variable {R} {w : ι → Ways σ} {w' : ι → Ways τ}

theorem enter (hw : R.Along w w') {p : Preset} (hp : declared p)
    (values : List (Option String)) :
    R.related (fun i => enter (w i) p values) fun i => enter (w' i) p values := by
  have inside := hw.preset p values hp
  unfold Run.enter
  split
  · exact R.seq (R.fault (.presetMissingArgs ..)) fun _ => inside
  · exact inside

theorem callPreset (hw : R.Along w w') {p : Preset} (hp : declared p)
    (values : List (Option String)) :
    R.related (fun i => callPreset (w i) p values) fun i => callPreset (w' i) p values :=
  R.gates p.name values (enter hw hp values.dropLast)

theorem callName (hw : R.Along w w') (name : String) {first : ι → Eval σ (Option String)}
    {first' : ι → Eval τ (Option String)} {all : ι → Eval σ (List (Option String))}
    {all' : ι → Eval τ (List (Option String))} (hfirst : R.related first first')
    (hall : R.related all all') :
    R.related (fun i => callName (w i) name (first i) (all i))
      fun i => callName (w' i) name (first' i) (all' i) := by
  refine R.look fun c hc => ?_
  simp only [R.seen_func?]
  cases hcall : c.func? name with
  | none => exact R.ret _
  | some callee =>
    cases callee with
    | get => exact R.seq hfirst fun v => R.callGet v
    | template text => exact R.seq hall fun vs => R.ret _
    | preset p =>
      refine R.seq hall fun vs => ?_
      exact R.seq (callPreset hw (hc.of_func? hcall) vs) fun _ => R.ret _

/-- A `use` evaluates the arguments as a call does, and has the sentinel behind them. -/
theorem useName (hw : R.Along w w') (name : String) (args : List (Term Nat)) (c : Context)
    (hfirst : args ≠ [] → R.related (fun i => evalFirst (w i) none args)
      fun i => evalFirst (w' i) none args)
    (hall : R.related (fun i => evalArgs (w i) args) fun i => evalArgs (w' i) args) :
    R.related
      (fun i => do
        let _ ← Run.callName (w i) name (evalFirst (w i) (some (R.seen i c).sentinel) args) do
          return (← evalArgs (w i) args) ++ [some (R.seen i c).sentinel]
        return (none : Option String))
      fun i => do
        let _ ← Run.callName (w' i) name (evalFirst (w' i) (some (R.seen i c).sentinel) args) do
          return (← evalArgs (w' i) args) ++ [some (R.seen i c).sentinel]
        return none := by
  simp only [Run.callName, bind_assoc, pure_bind]
  refine R.look fun c' hc' => ?_
  simp only [R.seen_func?]
  cases hcall : c'.func? name with
  | none => exact R.ret _
  | some callee =>
    cases callee with
    | get =>
      cases args with
      | nil => exact R.selects c
      | cons t ts =>
        simp only [bind_assoc]
        exact R.seq (hfirst (List.cons_ne_nil t ts)) fun v => R.seq (R.callGet v) fun _ => R.ret _
    | template text =>
      -- The text is not used.
      simp only [bind_assoc, pure_bind]
      exact R.seq hall fun _ => R.ret _
    | preset p =>
      simp only [bind_assoc, pure_bind, callPreset_eq, List.dropLast_concat]
      refine R.seq hall fun vs => ?_
      have inside := enter hw (hc'.of_func? hcall) vs
      exact R.seq (R.opens p.name vs c inside) fun _ => R.ret _

/-! ## Terms -/

mutual

/-- The families of the steps of a term are related, if the ways out of it are. -/
theorem eval (hw : R.Along w w') : ∀ t : Term Nat, Covered declared included t →
    R.related (fun i => eval (w i) t) fun i => eval (w' i) t
  | .literal value, _ => R.seq (R.literal value) fun _ => R.ret _
  | .name name negative, _ => by
    simp only [Run.eval]
    refine R.look fun c _ => ?_
    simp only [R.seen_const?]
    exact R.ret _
  | .call name args negative, h =>
    R.seq (callName hw name (evalFirst hw none args h) (evalArgs hw args h)) fun _ => R.ret _
  | .block body, h => R.seq (evalBody hw body h) fun _ => R.ret _
  | .const name value, h =>
    R.seq (eval hw value h) fun text => R.seq (R.binds name (.constant _)) fun _ => R.ret _
  | .preset mark name params body, h => R.seq (R.binds name (.preset h.1)) fun _ => R.ret _
  | .use name args, h => by
    simp only [Run.eval]
    refine R.look fun c _ => ?_
    simp only [R.seen_func?]
    by_cases hnone : (c.func? name).isNone
    · simp only [hnone, if_true]
      exact R.seq (R.skips _) fun _ => R.ret _
    · simp only [hnone, Bool.false_eq_true, if_false]
      exact useName hw name args c (fun _ => evalFirst hw none args h) (evalArgs hw args h)
  | .include name, h => R.seq (hw.script name h) fun _ => R.ret _
  | .file path body, h => R.files hw.follows (eval hw path h.1) (evalBody hw body h.2)
  | .set attr value, h => by
    simp only [Run.eval]
    refine R.seq (R.cursor "set") fun id => ?_
    cases id with
    | none => exact R.ret _
    | some id =>
      refine R.seq (eval hw attr h.1) fun name => ?_
      refine R.seq (eval hw value h.2) fun text => ?_
      exact R.seq (R.changes (.setAttribute id _ _)) fun _ => R.ret _
  | .removeAttribute attr, h => by
    simp only [Run.eval]
    refine R.seq (R.cursor "remove") fun id => ?_
    cases id with
    | none => exact R.ret _
    | some id =>
      refine R.seq (eval hw attr h) fun name => ?_
      exact R.seq (R.changes (.removeAttribute id _)) fun _ => R.ret _
  | .removeElement selector, h => by
    simp only [Run.eval]
    refine R.seq (R.cursor "remove") fun id => ?_
    cases id with
    | none => exact R.ret _
    | some id =>
      refine R.seq (eval hw selector h) fun s => R.seq (R.asks _ (.first _ _)) fun target => ?_
      cases target with
      | some target => exact R.seq (R.detachAll _) fun _ => R.ret _
      | none => exact R.seq (R.skips _) fun _ => R.ret _
  | .removeAll selector, h => by
    simp only [Run.eval]
    refine R.seq (R.cursor "remove") fun id => ?_
    cases id with
    | none => exact R.ret _
    | some id =>
      refine R.seq (eval hw selector h) fun s => R.seq (R.asks _ (.every _ _)) fun targets => ?_
      cases targets with
      | nil => exact R.seq (R.skips _) fun _ => R.ret _
      | cons target targets => exact R.seq (R.detachAll _) fun _ => R.ret _
  | .add tag body, h => by
    simp only [Run.eval]
    refine R.seq (R.cursor "add") fun id => ?_
    cases id with
    | none => exact R.ret _
    | some id =>
      refine R.seq (eval hw tag h.1) fun name => ?_
      refine R.seq (R.changes (.appendElement id _)) fun added => ?_
      exact R.seq (R.atElement? added (evalBody hw body h.2)) fun _ => R.ret _
  | .addAt tag position body, h => by
    simp only [Run.eval]
    refine R.seq (R.cursor "add") fun id => ?_
    cases id with
    | none => exact R.ret _
    | some id =>
      have inside := evalBody hw body h.2.2
      refine R.seq (eval hw tag h.1) fun name => ?_
      cases integerOfTerm? position with
      | some n => exact R.seq (R.ret n) fun n => R.seq (R.addAt id _ n inside) fun _ => R.ret _
      | none =>
        refine R.seq (eval hw position h.2.1) fun s => ?_
        exact R.seq (R.position _) fun n => R.seq (R.addAt id _ n inside) fun _ => R.ret _
  | .change selector body, h => by
    simp only [Run.eval]
    refine R.seq (R.cursor "change") fun id => ?_
    cases id with
    | none => exact R.ret _
    | some id =>
      have inside := evalBody hw body h.2
      refine R.seq (eval hw selector h.1) fun s => ?_
      refine R.seq (R.asks _ (.first _ _)) fun target => ?_
      cases target with
      | some target => exact R.seq (R.elements target inside) fun _ => R.ret _
      | none => exact R.seq (R.skips _) fun _ => R.ret _
  | .changeAll selector body, h => by
    simp only [Run.eval]
    refine R.seq (R.cursor "all") fun id => ?_
    cases id with
    | none => exact R.ret _
    | some id =>
      have inside := evalBody hw body h.2
      refine R.seq (eval hw selector h.1) fun s => ?_
      refine R.seq (R.asks _ (.every _ _)) fun targets => ?_
      cases targets with
      | nil => exact R.seq (R.skips _) fun _ => R.ret _
      | cons target targets =>
        refine R.seq (R.forM (target :: targets) fun id => R.elements id inside) fun _ => R.ret _
  | .changeOrAdd tag body, h => by
    simp only [Run.eval]
    refine R.seq (R.cursor "change_add") fun id => ?_
    cases id with
    | none => exact R.ret _
    | some id =>
      have inside := evalBody hw body h.2
      refine R.seq (eval hw tag h.1) fun name => ?_
      exact R.seq (R.changeOrAddAt id _ 1 inside) fun _ => R.ret _
  | .changeOrAddAt tag position body, h => by
    simp only [Run.eval]
    refine R.seq (R.cursor "change_add") fun id => ?_
    cases id with
    | none => exact R.ret _
    | some id =>
      have inside := evalBody hw body h.2.2
      refine R.seq (eval hw tag h.1) fun name => ?_
      cases integerOfTerm? position with
      | some n =>
        exact R.seq (R.ret n) fun n => R.seq (R.changeOrAddAt id _ n inside) fun _ => R.ret _
      | none =>
        refine R.seq (eval hw position h.2.1) fun s => ?_
        exact R.seq (R.position _) fun n => R.seq (R.changeOrAddAt id _ n inside) fun _ => R.ret _

theorem evalBody (hw : R.Along w w') : ∀ ts : List (Term Nat),
    CoveredAll declared included ts →
    R.related (fun i => evalBody (w i) ts) fun i => evalBody (w' i) ts
  | [], _ => R.ret _
  | t :: ts, h => R.seq (eval hw t h.1) fun _ => evalBody hw ts h.2

theorem evalFirst (hw : R.Along w w') (none' : Option String) : ∀ ts : List (Term Nat),
    CoveredAll declared included ts →
    R.related (fun i => evalFirst (w i) none' ts) fun i => evalFirst (w' i) none' ts
  | [], _ => R.ret _
  | t :: _, h => eval hw t h.1

theorem evalArgs (hw : R.Along w w') : ∀ ts : List (Term Nat),
    CoveredAll declared included ts →
    R.related (fun i => evalArgs (w i) ts) fun i => evalArgs (w' i) ts
  | [], _ => R.ret _
  | t :: ts, h => R.seq (eval hw t h.1) fun _ => R.seq (evalArgs hw ts h.2) fun _ => R.ret _

end

end FamilyCongruence

end PatchScript.Run
