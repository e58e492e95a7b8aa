import PatchScript.Proofs.Run.Forgetting
import PatchScript.Proofs.Run.Positions
import PatchScript.Proofs.Run.Purity

/-!
# Directives that are skipped

A directive does nothing and reports why if what it is about is missing: the element to work
on, a target, a file, the element before a position, or a preset; or if it would open a
document inside another one.  It finds this out at different points, sometimes only after it
has evaluated selectors and positions and asked the store.  By then it has done nothing else,
since the operands that the parser gives it are values, and these are pure
(`Misses.eval_run`).

So it leaves its session as it is, but for one diagnostic and a call of the store.  Since no
step reads these, the directives behind it do what they would do without it
(`skipped_directives_only_report`).
-/

namespace PatchScript.Script

/-- The values that a directive evaluates before it may find something missing. -/
def Term.operands {ι : Type} : Term ι → List (Term ι)
  | .file path _ => [path]
  | .set attr value => [attr, value]
  | .removeAttribute attr => [attr]
  | .removeElement selector | .removeAll selector => [selector]
  | .change selector _ | .changeAll selector _ => [selector]
  | .add tag _ | .changeOrAdd tag _ => [tag]
  | .addAt tag position _ | .changeOrAddAt tag position _ => [tag, position]
  | _ => []

/-- The word for a directive that works on an element. -/
def Term.cursorWord? {ι : Type} : Term ι → Option String
  | .set .. => some "set"
  | .removeAttribute _ | .removeElement _ | .removeAll _ => some "remove"
  | .add .. | .addAt .. => some "add"
  | .change .. => some "change"
  | .changeAll .. => some "all"
  | .changeOrAdd .. | .changeOrAddAt .. => some "change_add"
  | _ => none

/-- The selector of a directive that is about one element. -/
def Term.target? {ι : Type} : Term ι → Option (Term ι)
  | .removeElement selector | .change selector _ => some selector
  | _ => none

/-- The selector of a directive that is about any number of elements. -/
def Term.targets? {ι : Type} : Term ι → Option (Term ι)
  | .removeAll selector | .changeAll selector _ => some selector
  | _ => none

theorem Term.mem_operands {ι : Type} {t a : Term ι} (h : t.target? = some a ∨ t.targets? = some a) :
    a ∈ t.operands := by
  rcases h with h | h <;> cases t <;> cases h <;> exact List.mem_singleton.mpr rfl

end PatchScript.Script

namespace PatchScript.Run

open Xml (Document NodeId)
open Script (Term)
open Eval

/-! ## What the parser builds -/

/-- The term is a directive that the parser has read, with its presets numbered. -/
def ParserBuilt (t : Term Nat) : Prop :=
  ∃ (levels : Nat) (token : Script.Token) (ts rest : List Script.Token) (source : Term Unit)
    (n : Nat), Script.directiveOf (Script.directives levels) token ts = .ok (source, rest) ∧
      t = (source.number n).1

theorem operands_number {t : Term Unit} {n : Nat} {a : Term Nat}
    (ha : a ∈ (t.number n).1.operands) : ∃ b ∈ t.operands, ∃ m, a = (b.number m).1 := by
  cases t <;> simp only [Term.number, Term.operands, List.mem_cons, List.not_mem_nil] at ha ⊢
  -- What is left has one operand or two, the second numbered behind the first.
  case set | addAt | changeOrAddAt =>
    rcases ha with rfl | rfl | ⟨⟨⟩⟩
    · exact ⟨_, .inl rfl, _, rfl⟩
    · exact ⟨_, .inr (.inl rfl), _, rfl⟩
  all_goals
    rcases ha with rfl | ⟨⟨⟩⟩
    exact ⟨_, .inl rfl, _, rfl⟩

theorem isValue_operands (d : Script.Grammar.Directive) : ∀ a ∈ d.term.operands, IsValue a := by
  have one {t : Term Unit} (ht : IsValue t) : ∀ a ∈ [t], IsValue a :=
    List.forall_mem_singleton.mpr ht
  cases d with
  | «include» | use | preset | const => exact fun _ ha => nomatch ha
  | file _ path _ => exact one (.of_selector path)
  | all _ s _ | change _ s _ | remove _ s | removeAll _ _ s => exact one (.of_selector s)
  | set _ name _ v => exact List.forall_mem_cons.mpr ⟨.of_selector name, one (.of_value v)⟩
  | add _ tag p _ | changeOrAdd _ tag p _ =>
    rw [Script.Grammar.Directive.term]
    cases hp : p.term? with
    | none => exact one (.of_selector tag)
    | some t => exact List.forall_mem_cons.mpr ⟨.of_selector tag, one (.of_position hp)⟩

/-- The operands of a directive that the parser has read are values. -/
theorem ParserBuilt.isValue {t : Term Nat} (h : ParserBuilt t) : ∀ a ∈ t.operands, IsValue a := by
  obtain ⟨levels, token, ts, rest, source, n, hread, rfl⟩ := h
  obtain ⟨d, -, rfl⟩ := Script.Grammar.directiveOf_eq_ok
    (Script.Grammar.directives_eq_ok levels) hread
  intro a ha
  obtain ⟨b, hb, m, rfl⟩ := operands_number ha
  exact (isValue_operands d b hb).number m

/-! ## What is missing -/

variable {σ : Type} [DocumentStore σ] {w : Ways σ} {s : Session σ}

/-- What the store is asked before a directive is skipped. -/
def Skipped.calls : Skipped → List StoreCall
  | .fileNotFound path => [.load path]
  | _ => []

/-- The text that a term has for a directive.  A term with no text stands for the empty one. -/
def HasText (w : Ways σ) (s : Session σ) (a : Term Nat) (text : String) : Prop :=
  ∃ v, (eval w a s).1 = .ok v ∧ v.getD "" = text

/-- A directive itself misses what it is about, and this is why it is skipped. -/
inductive Misses (w : Ways σ) (s : Session σ) : Term Nat → Skipped → Prop where
  /-- There is no element to work on. -/
  | cursor {t : Term Nat} {word : String} :
    t.cursorWord? = some word → s.context.element? = none → Misses w s t (.cursorMissing word)
  /-- A document is open already. -/
  | document (path : Term Nat) (body : List (Term Nat)) :
    s.context.document.isSome → Misses w s (.file path body) .fileNested
  /-- The store has no document at the path. -/
  | file {path : Term Nat} {text : String} (body : List (Term Nat)) :
    s.context.document = none → HasText w s path text →
    DocumentStore.load s.store text = .ok none → Misses w s (.file path body) (.fileNotFound text)
  /-- Nothing can be called by the name. -/
  | preset {name : String} (args : List (Term Nat)) :
    s.context.func? name = none → Misses w s (.use name args) (.presetNotFound name)
  /-- The selector selects no element, or there is no document to select from. -/
  | target {t selector : Term Nat} {id : NodeId} {text : String} :
    t.target? = some selector → s.context.element? = some id → HasText w s selector text →
    (∀ d ∈ s.context.document, XPath.selectFirst? d id text = .ok none) →
    Misses w s t (.elementNotFound text)
  /-- The same for a selector of any number of elements. -/
  | targets {t selector : Term Nat} {id : NodeId} {text : String} :
    t.targets? = some selector → s.context.element? = some id → HasText w s selector text →
    (∀ d ∈ s.context.document, XPath.selectElements d id text = .ok []) →
    Misses w s t (.elementsNotFound text)
  /-- There is no element before the position. -/
  | predecessor {tag position : Term Nat} {id : NodeId} {name : String} {n : Int}
    (body : List (Term Nat)) :
    s.context.element? = some id → HasText w s tag name → (positionIn w position s).1 = .ok n →
    1 < n → (∀ d ∈ s.context.document, d.nthChild? id name (n - 1).toNat = none) →
    Misses w s (.changeOrAddAt tag position body) (.predecessorMissing name)

/-! ### Before a directive is skipped -/

omit [DocumentStore σ] in
/-- A step that changes nothing is told by its result. -/
theorem run_of_result {α : Type} {x : Eval σ α} {r : Except Fault α}
    (hx : ∃ r, x s = (r, s)) (hr : (x s).1 = r) : x s = (r, s) := by
  obtain ⟨r', hx⟩ := hx
  rw [hx] at hr
  exact hx.trans (congrArg (·, s) hr)

theorem IsValue.run {a : Term Nat} (ha : IsValue a) (hf : ¬ Forges w s a) :
    ∃ r, eval w a s = (r, s) := by
  obtain ⟨r, hr⟩ := ha.rests hf
  exact ⟨r, hr w⟩

theorem HasText.run {a : Term Nat} {text : String} (h : HasText w s a text)
    (ha : ∃ r, eval w a s = (r, s)) : ∃ v, eval w a s = (.ok v, s) ∧ v.getD "" = text := by
  obtain ⟨v, hv, htext⟩ := h
  exact ⟨v, run_of_result ha hv, htext⟩

omit [DocumentStore σ] in
theorem ask_run_missing {α : Type} {question : Document → Except XPath.Error α} {answer : α}
    (h : ∀ d ∈ s.context.document, question d = .ok answer) :
    ask question answer s = (.ok answer, s) := by
  cases hd : s.context.document with
  | none => exact ask_run_none hd
  | some d =>
    rw [ask_run_some hd, h d hd]
    rfl

omit [DocumentStore σ] in
theorem nthChild?_run_missing {id : NodeId} {tag : String} {n : Int}
    (h : ∀ d ∈ s.context.document, d.nthChild? id tag n.toNat = none) :
    nthChild? id tag n s = (.ok none, s) := by
  cases hd : s.context.document with
  | none =>
    rw [nthChild?]
    split
    · rfl
    · rw [context_bind_run, hd]
      rfl
  | some d => rw [nthChild?_run hd, h d hd]

/-! ### Directives that are skipped -/

/-- Reports why a directive is skipped and gives no text. -/
def skipped (why : Skipped) : Eval σ (Option String) := do
  skip why
  return none

section

variable {id : NodeId} {t selector path tag position : Term Nat} {v : Option String} {n : Int}

theorem eval_run_cursor {word : String} (hword : t.cursorWord? = some word)
    (h : s.context.element? = none) : eval w t s = skipped (.cursorMissing word) s := by
  have hcursor (word : String) : cursor? word s =
      (skip (.cursorMissing word) >>= fun _ => return none) s := by
    rw [cursor?]
    rw [context_bind_run, h]
  cases t <;> cases hword <;> rw [eval] <;> exact bind_run_congr (hcursor _) _

theorem eval_run_document (body : List (Term Nat)) (h : s.context.document.isSome) :
    eval w (.file path body) s = skipped .fileNested s := by
  rw [eval]
  rw [context_bind_run, if_pos h]
  rfl

theorem eval_run_file (body : List (Term Nat)) (hd : s.context.document = none)
    (hpath : eval w path s = (.ok v, s))
    (hload : DocumentStore.load s.store (v.getD "") = .ok none) :
    eval w (.file path body) s = skipped (.fileNotFound (v.getD ""))
      { s with calls := s.calls ++ [.load (v.getD "")] } := by
  have hopen : openFile (v.getD "") (evalBody w body) s = skip (.fileNotFound (v.getD ""))
      { s with calls := s.calls ++ [.load (v.getD "")] } := by
    refine bind_run_ok (a := none) ?_ _
    rw [load_run, hload]
  rw [eval]
  rw [context_bind_run, hd, Option.isSome_none, if_neg Bool.false_ne_true, bind_run_ok hpath]
  exact bind_run_congr hopen _

theorem eval_run_preset {name : String} (args : List (Term Nat))
    (h : s.context.func? name = none) :
    eval w (.use name args) s = skipped (.presetNotFound name) s := by
  rw [eval]
  rw [context_bind_run, h]
  rfl

theorem eval_run_target (ht : t.target? = some selector) (hid : s.context.element? = some id)
    (htext : eval w selector s = (.ok v, s))
    (h : ∀ d ∈ s.context.document, XPath.selectFirst? d id (v.getD "") = .ok none) :
    eval w t s = skipped (.elementNotFound (v.getD "")) s := by
  have hselect : selectOne id (v.getD "") s = (.ok none, s) := ask_run_missing h
  cases t <;> cases ht <;> rw [eval]
  all_goals
    rw [bind_run_ok (cursor?_run _ hid)]
    dsimp only
    rw [bind_run_ok htext, bind_run_ok hselect]
    rfl

theorem eval_run_targets (ht : t.targets? = some selector) (hid : s.context.element? = some id)
    (htext : eval w selector s = (.ok v, s))
    (h : ∀ d ∈ s.context.document, XPath.selectElements d id (v.getD "") = .ok []) :
    eval w t s = skipped (.elementsNotFound (v.getD "")) s := by
  have hselect : selectAll id (v.getD "") s = (.ok [], s) := ask_run_missing h
  cases t <;> cases ht <;> rw [eval]
  all_goals
    rw [bind_run_ok (cursor?_run _ hid)]
    dsimp only
    rw [bind_run_ok htext, bind_run_ok hselect]
    rfl

theorem eval_run_predecessor (body : List (Term Nat)) (hid : s.context.element? = some id)
    (htag : eval w tag s = (.ok v, s)) (hposition : positionIn w position s = (.ok n, s))
    (hn : 1 < n)
    (h : ∀ d ∈ s.context.document, d.nthChild? id (v.getD "") (n - 1).toNat = none) :
    eval w (.changeOrAddAt tag position body) s =
      skipped (.predecessorMissing (v.getD "")) s := by
  have hgap := changeOrAddAt_run_gap hn (nthChild?_run_missing h) (evalBody w body)
  exact (eval_changeOrAddAt_run w hid htag hposition body).trans (bind_run_congr hgap _)

end

/-- A directive that misses something has done nothing before it is skipped, apart from asking
the store. -/
theorem Misses.eval_run {t : Term Nat} {why : Skipped} (h : Misses w s t why)
    (hvalues : ∀ a ∈ t.operands, IsValue a) (hforges : ∀ a ∈ t.operands, ¬ Forges w s a) :
    eval w t s = skipped why { s with calls := s.calls ++ why.calls } := by
  have rests (a : Term Nat) (ha : a ∈ t.operands) : ∃ r, eval w a s = (r, s) :=
    (hvalues a ha).run (hforges a ha)
  have read {a : Term Nat} {text : String} (ha : a ∈ t.operands) (h : HasText w s a text) :
      ∃ v, eval w a s = (.ok v, s) ∧ v.getD "" = text := h.run (rests a ha)
  have silent {why : Skipped} (hcalls : why.calls = []) :
      skipped why s = skipped why { s with calls := s.calls ++ why.calls } := by
    rw [hcalls, List.append_nil]
  cases h with
  | cursor hword h =>
    exact (eval_run_cursor hword h).trans (silent rfl)
  | document path body h =>
    exact (eval_run_document body h).trans (silent rfl)
  | file body hd htext hload =>
    obtain ⟨v, hpath, rfl⟩ := read List.mem_cons_self htext
    exact eval_run_file body hd hpath hload
  | preset args h =>
    exact (eval_run_preset args h).trans (silent rfl)
  | target ht hid htext h =>
    obtain ⟨v, hselector, rfl⟩ := read (Term.mem_operands (.inl ht)) htext
    exact (eval_run_target ht hid hselector h).trans (silent rfl)
  | targets ht hid htext h =>
    obtain ⟨v, hselector, rfl⟩ := read (Term.mem_operands (.inr ht)) htext
    exact (eval_run_targets ht hid hselector h).trans (silent rfl)
  | @predecessor tag position _ _ _ body hid htext hposition hn h =>
    obtain ⟨v, htag, rfl⟩ := read List.mem_cons_self htext
    have hmem : position ∈ (Term.changeOrAddAt tag position body).operands :=
      List.mem_cons_of_mem tag List.mem_cons_self
    have hrun := run_of_result (positionIn_rests (rests position hmem)) hposition
    exact (eval_run_predecessor body hid htag hrun hn h).trans (silent rfl)

/-- What a directive that is skipped reports is all that it changes, where the store takes no
notice of contexts. -/
theorem skipped_run (hσ : Unnoticing σ) (why : Skipped) (s : Session σ) :
    skipped why { s with calls := s.calls ++ why.calls } =
      (.ok none, s.withPast (s.context.diagnostics ++ [why.diagnostic]) (s.calls ++ why.calls)) := by
  refine (bind_run_ok (skip_run why _) _).trans (congrArg (Prod.mk _) ?_)
  rw [Session.comeTo, hσ]
  rfl

/-! ## Blocks -/

theorem evalBody_append (w : Ways σ) (before after : List (Term Nat)) :
    evalBody w (before ++ after) = (evalBody w before >>= fun _ => evalBody w after) := by
  induction before with
  | nil =>
    rw [evalBody]
    exact (pure_bind _ _).symm
  | cons t before ih =>
    rw [List.cons_append, evalBody, evalBody, ih]
    exact (bind_assoc _ _ _).symm

/-- A directive that the parser has built misses what it is about (the element to work on, its
target, its file, the element before its position, or its preset), or a document is open where it
would open one.  Then it succeeds, and the session is the same but for one more diagnostic, and the
call of the store if that is where its file is missing: the document, all scopes, the cursor, the
presets that run and the store are what they were.  And a block with the directive ends with the
same result, in the same session, as the block without it, but for this diagnostic and this
call. -/
theorem skipped_directives_only_report (hσ : Unnoticing σ) (host : Host) (scripts presets : Nat)
    {t : Term Nat} (ht : ParserBuilt t) {u : Session σ} {why : Skipped}
    (hforges : ∀ a ∈ t.operands, ¬ Forges (waysAt host scripts presets) u a)
    (hmisses : Misses (waysAt host scripts presets) u t why) :
    let w : Ways σ := waysAt host scripts presets
    let diagnostics := u.context.diagnostics
    let calls := u.calls
    eval w t u = (.ok none, u.withPast (diagnostics ++ [why.diagnostic]) (calls ++ why.calls)) ∧
      ∀ (before after : List (Term Nat)) (s : Session σ), evalBody w before s = (.ok (), u) →
        ∃ (r : Except Fault Unit) (v : Session σ) (told : List Diagnostic)
          (asked : List StoreCall),
          evalBody w (before ++ after) s =
            (r, v.withPast (diagnostics ++ told) (calls ++ asked)) ∧
          evalBody w (before ++ t :: after) s =
            (r, v.withPast (diagnostics ++ [why.diagnostic] ++ told)
              (calls ++ why.calls ++ asked)) := by
  intro w diagnostics calls
  have heval : eval w t u = (.ok none,
      u.withPast (diagnostics ++ [why.diagnostic]) (calls ++ why.calls)) :=
    (hmisses.eval_run ht.isValue hforges).trans (skipped_run hσ why u)
  refine ⟨heval, fun before after s hbefore => ?_⟩
  obtain ⟨r, v, told, asked, hafter⟩ :=
    (evalBody_forgets hσ host scripts presets after).run_withPast u
  refine ⟨r, v, told, asked, ?_, ?_⟩
  · rw [evalBody_append, bind_run_ok hbefore]
    exact hafter diagnostics calls
  · rw [evalBody_append, bind_run_ok hbefore, evalBody, bind_run_ok heval]
    exact hafter (diagnostics ++ [why.diagnostic]) (calls ++ why.calls)

/-- A file that there is not is opened between a constant and a preset that there is not. -/
theorem skipped_directives_only_report_of_file :
    let token : Script.Token := ⟨.keyword, "file", .point .origin⟩
    let ts : List Script.Token :=
      [(.string, "d"), (.operator, "\x7b"), (.operator, "\x7d")].map
        fun (kind, text) => ⟨kind, text, .point .origin⟩
    let source : Term Unit := .file (.literal (.text "d")) []
    let t : Term Nat := .file (.literal (.text "d")) []
    let before : List (Term Nat) := [.const "k" (.literal (.text "v"))]
    let after : List (Term Nat) := [.use "p" []]
    let w : Ways MemoryStore := waysAt ⟨[], 7⟩ 1 1
    let c : Context := .new 7 []
    let s : Session MemoryStore := ⟨c, ⟨[]⟩, []⟩
    let u : Session MemoryStore :=
      s.comeTo { c with globals := ("k", .constant "v") :: c.globals }
    let missing := (Skipped.fileNotFound "d").diagnostic
    Unnoticing MemoryStore ∧
      Script.directiveOf (Script.directives 1) token ts = .ok (source, []) ∧
      t = (source.number 0).1 ∧ (∀ a ∈ t.operands, ¬ Forges w u a) ∧
      Misses w u t (.fileNotFound "d") ∧ evalBody w before s = (.ok (), u) ∧
      eval w t u = (.ok none, u.withPast [missing] [.load "d"]) ∧
      ∃ (r : Except Fault Unit) (v : Session MemoryStore) (told : List Diagnostic)
        (asked : List StoreCall),
        evalBody w (before ++ after) s = (r, v.withPast told asked) ∧
        evalBody w (before ++ t :: after) s =
          (r, v.withPast (missing :: told) (.load "d" :: asked)) := by
  intro token ts source t before after w c s u missing
  have hread : Script.directiveOf (Script.directives 1) token ts = .ok (source, []) := rfl
  have hforges : ∀ a ∈ t.operands, ¬ Forges w u a :=
    List.forall_mem_singleton.mpr fun h => nomatch h
  have hmisses : Misses w u t (.fileNotFound "d") := .file [] rfl ⟨some "d", rfl, rfl⟩ rfl
  have hbefore : evalBody w before s = (.ok (), u) := rfl
  obtain ⟨heval, hblock⟩ := skipped_directives_only_report MemoryStore.unnoticing ⟨[], 7⟩ 1 1
    ⟨1, token, ts, [], source, 0, hread, rfl⟩ hforges hmisses
  obtain ⟨r, v, told, asked, hwithout, hwith⟩ := hblock before after s hbefore
  exact ⟨MemoryStore.unnoticing, hread, rfl, hforges, hmisses, hbefore, heval, r, v, told, asked,
    hwithout, hwith⟩

end PatchScript.Run
