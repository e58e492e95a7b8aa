import PatchScript.Proofs.Reading
import PatchScript.XPath.Eval

/-!
# Expressions are read with the levels there are

`path` counts down levels, and so do the loops for operators, predicates, steps and
arguments.  Each reads a token before it goes on, so none of them runs out.
-/

namespace PatchScript.XPath

variable {α : Type} {bound k m n : Nat} {p : Parser α} {expr operand : Parser Expr}

/-- A parser that reads at least `k` tokens of every list that is shorter than `bound`. -/
def Reads (bound k : Nat) (p : Parser α) : Prop :=
  ∀ ts, ts.length < bound → Gets .levels k ts.length (p ts)

/-! ## Single tokens -/

theorem skip_ok {wanted : Token} {ts rest : List Token} (h : skip wanted ts = .ok rest) :
    rest.length + 1 = ts.length := by
  cases ts with
  | nil => cases h
  | cons t ts =>
    rw [skip] at h
    split at h
    · cases h
      rfl
    · cases h

theorem skip_levels (wanted : Token) (ts : List Token) : skip wanted ts ≠ .error .levels := by
  cases ts with
  | nil => exact fun h => by cases h
  | cons t ts =>
    rw [skip]
    split
    · exact fun h => by cases h
    · exact fun h => by cases h

/-- Reading goes on behind a token that has to stand first. -/
theorem gets_skip {wanted : Token} {ts : List Token} {f : List Token → Reading (α × List Token)}
    (hf : ∀ rest, rest.length + 1 = ts.length → Gets .levels m n (f rest)) :
    Gets .levels m n (skip wanted ts >>= f) :=
  .bind_of (skip_levels wanted ts) fun rest h => hf rest (skip_ok h)

/-! ## Operators -/

theorem chainFrom_reads {op : Token → Option (Expr → Expr → Expr)}
    (h : Reads bound 1 operand) : ∀ (steps : Nat) (left : Expr) (ts : List Token),
    ts.length < bound → ts.length < steps →
    Gets .levels 0 ts.length (chainFrom op operand steps left ts) := by
  intro steps
  induction steps with
  | zero => exact fun _ ts _ hs => absurd hs (Nat.not_lt_zero _)
  | succ n ih =>
    intro left ts hb hs
    cases ts with
    | nil => exact .ok (Nat.le_refl _)
    | cons t ts =>
      rw [List.length_cons] at hb hs ⊢
      rw [chainFrom]
      cases op t with
      | none => exact .ok (Nat.le_refl _)
      | some combine =>
        refine .bind (h ts (by omega)) fun right rest hr => ?_
        exact (ih (combine left right) rest (by omega) (by omega)).mono (by omega)

theorem chain_reads {op : Token → Option (Expr → Expr → Expr)} (h : Reads bound 1 operand) :
    Reads bound 1 (chain op operand) := by
  intro ts hts
  refine .bind (h ts hts) fun left rest hr => ?_
  exact (chainFrom_reads h _ left rest (by omega) (by omega)).mono (by omega)

theorem signed_reads (h : Reads bound 1 operand) : Reads bound 1 (signed operand) := by
  intro ts
  fun_induction signed operand ts with
  | case1 ts ih =>
    intro hts
    rw [List.length_cons] at hts ⊢
    exact .bind (ih (by omega)) fun e rest hr => .ok (by omega)
  | case2 ts _ => exact h ts

theorem expression_reads (h : Reads bound 1 operand) : Reads bound 1 (expression operand) :=
  chain_reads (chain_reads (chain_reads (chain_reads (chain_reads
    (signed_reads (chain_reads h))))))

/-! ## Steps -/

theorem predicatesFrom_reads (h : Reads bound 1 expr) : ∀ (steps : Nat) (ts : List Token),
    ts.length ≤ bound → ts.length < steps →
    Gets .levels 0 ts.length (predicatesFrom expr steps ts) := by
  intro steps ts
  fun_induction predicatesFrom expr steps ts with
  | case1 ts => exact fun _ hs => absurd hs (Nat.not_lt_zero _)
  | case2 n ts ih =>
    intro hb hs
    rw [List.length_cons] at hb hs ⊢
    refine .bind (h ts (by omega)) fun e rest hr => gets_skip fun rest' hr' => ?_
    exact .bind (ih rest' (by omega) (by omega)) fun es rest'' hr'' => .ok (by omega)
  | case3 n ts _ => exact fun _ _ => .ok (Nat.le_refl _)

/-- Inside of the brackets of a predicate there are fewer tokens. -/
theorem predicates_reads (h : Reads bound 1 expr) : Reads (bound + 1) 0 (predicates expr) :=
  fun ts hts => predicatesFrom_reads h _ ts (by omega) (by omega)

theorem nodeTest_reads : Reads bound 1 nodeTest := by
  intro ts _
  fun_cases nodeTest ts with
  | case1 ts => exact .ok (Nat.le_refl _)
  | case2 s ts test h => 
    exact gets_skip fun rest hr => .ok (by simp only [List.length_cons]; omega)
  | case3 s ts h => exact .error nofun
  | case4 s ts _ => exact .ok (Nat.le_refl _)
  | case5 ts _ _ _ => exact .error nofun

theorem axis_reads : Reads bound 0 axis := by
  intro ts _
  fun_cases axis ts with
  | case1 ts => exact .ok (by simp)
  | case2 s ts a h => exact .ok (by simp only [List.length_cons]; omega)
  | case3 s ts h => exact .error nofun
  | case4 ts _ _ => exact .ok (Nat.le_refl _)

theorem step_reads (h : Reads bound 1 expr) : Reads (bound + 1) 1 (step expr) := by
  intro ts hts
  fun_cases step expr ts with
  | case1 ts => exact .ok (Nat.le_refl _)
  | case2 ts => exact .ok (Nat.le_refl _)
  | case3 ts _ _ =>
    refine .bind (axis_reads ts hts) fun a rest hr => ?_
    refine .bind (nodeTest_reads rest (Nat.lt_of_le_of_lt hr hts)) fun test rest' hr' => ?_
    refine .bind (predicates_reads h rest' (by omega)) fun ps rest'' hr'' => ?_
    exact .ok (by omega)

theorem stepsFrom_reads (h : Reads bound 1 expr) : ∀ (count : Nat) (ts : List Token),
    ts.length ≤ bound → ts.length < count →
    Gets .levels 0 ts.length (stepsFrom expr count ts) := by
  intro count ts
  fun_induction stepsFrom expr count ts with
  | case1 ts => exact fun _ hs => absurd hs (Nat.not_lt_zero _)
  | case2 n ts ih =>
    intro hb hs
    rw [List.length_cons] at hb hs ⊢
    refine .bind (step_reads h ts (by omega)) fun s rest hr => ?_
    exact .bind (ih rest (by omega) (by omega)) fun ss rest' hr' => .ok (by omega)
  | case3 n ts ih =>
    intro hb hs
    rw [List.length_cons] at hb hs ⊢
    refine .bind (step_reads h ts (by omega)) fun s rest hr => ?_
    exact .bind (ih rest (by omega) (by omega)) fun ss rest' hr' => .ok (by omega)
  | case4 n ts _ _ => exact fun _ _ => .ok (Nat.le_refl _)

theorem steps_reads (h : Reads bound 1 expr) : Reads (bound + 1) 1 (steps expr) := by
  intro ts hts
  refine .bind (step_reads h ts hts) fun s rest hr => ?_
  exact .bind (stepsFrom_reads h _ rest (by omega) (by omega)) fun ss rest' hr' => .ok (by omega)

/-! ## Paths -/

theorem argsFrom_reads (h : Reads bound 1 expr) : ∀ (count : Nat) (ts : List Token),
    ts.length < bound → ts.length < count →
    Gets .levels 1 ts.length (argsFrom expr count ts) := by
  intro count
  induction count with
  | zero => exact fun ts _ hs => absurd hs (Nat.not_lt_zero _)
  | succ n ih =>
    intro ts hb hs
    refine .bind (h ts hb) fun e rest hr => ?_
    dsimp only
    split
    · rw [List.length_cons] at hr
      exact .ok (by omega)
    · refine gets_skip fun rest' hr' => ?_
      exact .bind (ih rest' (by omega) (by omega)) fun es rest'' hr'' => .ok (by dsimp only; omega)

theorem args_reads (h : Reads bound 1 expr) : Reads bound 1 (args expr) := by
  intro ts hts
  fun_cases args expr ts with
  | case1 ts => exact .ok (Nat.le_refl _)
  | case2 ts _ => exact argsFrom_reads h _ ts hts (by omega)

/-- An expression in a primary stands behind a parenthesis. -/
theorem primary?_reads (h : Reads bound 1 expr) {ts : List Token} (hts : ts.length ≤ bound)
    {r : Reading (Expr × List Token)} (hr : primary? expr ts = some r) :
    Gets .levels 1 ts.length r := by
  unfold primary? at hr
  split at hr
  · cases hr
    exact .ok (Nat.le_refl _)
  · cases hr
    exact .ok (Nat.le_refl _)
  · cases hr
    rw [List.length_cons] at hts ⊢
    refine .bind (h _ (by omega)) fun e rest hr => gets_skip fun rest' hr' => .ok (by omega)
  · split at hr
    · cases hr
    · cases hr
      simp only [List.length_cons] at hts ⊢
      exact .bind (args_reads h _ (by omega)) fun as rest hr => .ok (by dsimp only; omega)
  · cases hr

theorem filterRest_reads (h : Reads bound 1 expr) (e : Expr) :
    Reads (bound + 1) 0 (filterRest expr e) := by
  intro ts hts
  refine .bind (predicates_reads h ts hts) fun ps rest hr => ?_
  dsimp only
  split
  · rw [List.length_cons] at hr
    exact .bind (steps_reads h _ (by omega)) fun ss rest' hr' => .ok (by dsimp only; omega)
  · rw [List.length_cons] at hr
    exact .bind (steps_reads h _ (by omega)) fun ss rest' hr' => .ok (by dsimp only; omega)
  · exact .ok hr

theorem pathOf_reads (h : Reads bound 1 expr) : Reads (bound + 1) 1 (pathOf expr) := by
  intro ts hts
  fun_cases pathOf expr ts with
  | case1 ts _ =>
    rw [List.length_cons] at hts ⊢
    exact .bind (steps_reads h ts (by omega)) fun ss rest hr => .ok (by omega)
  | case2 ts _ => exact .ok (Nat.le_refl _)
  | case3 ts =>
    rw [List.length_cons] at hts ⊢
    exact .bind (steps_reads h ts (by omega)) fun ss rest hr => .ok (by omega)
  | case4 ts _ _ r hr =>
    refine .bind (primary?_reads h (Nat.le_of_lt_succ hts) hr) fun e rest hrest => ?_
    exact (filterRest_reads h e rest (by omega)).mono (by omega)
  | case5 ts _ _ _ =>
    exact .bind (steps_reads h ts hts) fun ss rest hr => .ok hr

theorem path_reads : ∀ levels : Nat, Reads levels 1 (path levels)
  | 0 => fun _ h => absurd h (Nat.not_lt_zero _)
  | n + 1 => pathOf_reads (expression_reads (path_reads n))

/-! ## Expressions -/

/-- No list of tokens nests more deeply than there are levels. -/
theorem parse_ne_levels (ts : List Token) : parse ts ≠ .error .levels := by
  have hread := expression_reads (path_reads (ts.length + 1)) ts (Nat.lt_succ_self _)
  intro h
  rw [parse] at h
  cases hx : expression (path (ts.length + 1)) ts with
  | error e =>
    rw [hx] at h
    cases h
    exact hread.1 hx
  | ok r =>
    rw [hx] at h
    obtain ⟨e, rest⟩ := r
    cases rest with
    | nil => cases h
    | cons t rest => cases h

theorem front_ne_levels (c : Char) (cs : List Char) : front c cs ≠ .error .levels := by
  fun_cases front c cs
  all_goals exact nofun

theorem tokensFrom_ne_levels (skip : Nat) (done : List Token) (cs : List Char) :
    tokensFrom skip done cs ≠ .error .levels := by
  fun_induction tokensFrom skip done cs with
  | case1 skip done => exact nofun
  | case2 skip done c cs ih => exact ih
  | case3 done c cs _ ih => exact ih
  | case4 done c cs _ t width _ ih => exact ih
  | case5 done c cs _ fault h =>
    intro he
    cases he
    exact front_ne_levels c cs h

theorem read_ne_levels (text : String) : read text ≠ .error .levels := by
  intro h
  rw [read] at h
  cases ht : tokens text with
  | error e =>
    rw [ht] at h
    cases h
    exact tokensFrom_ne_levels 0 [] text.toList ht
  | ok ts =>
    rw [ht] at h
    exact parse_ne_levels ts h

/-! ## Questions -/

/-- A result that is no complaint about levels. -/
def LevelsSuffice (r : Except Error α) : Prop := ∀ text, r ≠ .error (.unreadable text .levels)

namespace LevelsSuffice

variable {β : Type}

theorem ok (a : α) : LevelsSuffice (.ok a) := nofun

theorem bind {x : Except Error α} {f : α → Except Error β} (hx : LevelsSuffice x)
    (hf : ∀ a, LevelsSuffice (f a)) : LevelsSuffice (x >>= f) := by
  cases x with
  | error e =>
    intro text h
    cases h
    exact hx text rfl
  | ok a => exact hf a

theorem map {f : α → β} {x : Except Error α} (hx : LevelsSuffice x) :
    LevelsSuffice (x.map f) := by
  cases x with
  | error e =>
    intro text h
    cases h
    exact hx text rfl
  | ok a => exact .ok (f a)

theorem nodesOf (what : String) (v : Value) : LevelsSuffice (nodesOf what v) := by
  cases v <;> exact nofun

theorem mapM {f : α → Except Error β} (as : List α) (h : ∀ a, LevelsSuffice (f a)) :
    LevelsSuffice (as.mapM f) := by
  induction as with
  | nil => exact .ok []
  | cons a as ih =>
    rw [List.mapM_cons]
    exact (h a).bind fun b => ih.bind fun bs => .ok _

theorem keepFrom {predicate : Focus → Except Error Value} (h : ∀ f, LevelsSuffice (predicate f))
    (size : Nat) : ∀ (before : Nat) (items : List Item),
    LevelsSuffice (keepFrom predicate size before items)
  | _, [] => .ok []
  | before, _ :: items =>
    (h _).bind fun _ => (keepFrom h size (before + 1) items).bind fun _ => .ok _

theorem callOf (v : View) (f : Focus) (function : String) (args : List Value) :
    LevelsSuffice (callOf v f function args) := by
  have unary (arg : Value) : LevelsSuffice (unaryOf v function arg) := by
    unfold unaryOf
    split
    all_goals try exact .ok _
    all_goals cases arg <;> exact nofun
  unfold XPath.callOf
  split
  · split
    all_goals first | exact .ok _ | exact unary _
  · split <;> exact nofun

mutual

/-- What goes wrong in an expression that was read has nothing to do with levels. -/
theorem eval (v : View) : ∀ (e : Expr) (f : Focus), LevelsSuffice (e.eval v f)
  | .or l r, f => by
    refine (eval v l f).bind fun a => ?_
    split
    · exact .ok _
    · exact (eval v r f).bind fun b => .ok _
  | .and l r, f => by
    refine (eval v l f).bind fun a => ?_
    split
    · exact (eval v r f).bind fun b => .ok _
    · exact .ok _
  | .compare op l r, f => (eval v l f).bind fun _ => (eval v r f).bind fun _ => .ok _
  | .add l r, f => (eval v l f).bind fun _ => (eval v r f).bind fun _ => .ok _
  | .subtract l r, f => (eval v l f).bind fun _ => (eval v r f).bind fun _ => .ok _
  | .negate e, f => (eval v e f).bind fun _ => .ok _
  | .union l r, f => by
    refine (eval v l f).bind fun a => (nodesOf _ a).bind fun _ => ?_
    exact (eval v r f).bind fun b => (nodesOf _ b).bind fun _ => .ok _
  | .path absolute ss, f => (evalSteps v ss _).bind fun _ => .ok _
  | .filter primary ps ss, f => by
    refine (eval v primary f).bind fun a => ?_
    split
    · exact .ok _
    · refine (nodesOf _ a).bind fun items => (evalPredicates v ps _).bind fun kept => ?_
      exact (evalSteps v ss kept).bind fun _ => .ok _
  | .literal s, _ => .ok _
  | .number x, _ => .ok _
  | .call function args, f => (evalArgs v args f).bind fun values => callOf v f function values

theorem evalSteps (v : View) : ∀ (ss : List Step) (items : List Item),
    LevelsSuffice (evalSteps v ss items)
  | [], items => .ok items
  | .along _ _ ps :: ss, items =>
    (mapM items fun _ => evalPredicates v ps _).bind fun _ => evalSteps v ss _

theorem evalPredicates (v : View) : ∀ (ps : List Expr) (items : List Item),
    LevelsSuffice (evalPredicates v ps items)
  | [], items => .ok items
  | p :: ps, _ =>
    (keepFrom (fun f => eval v p f) _ _ _).bind fun _ => evalPredicates v ps _

theorem evalArgs (v : View) : ∀ (es : List Expr) (f : Focus), LevelsSuffice (evalArgs v es f)
  | [], _ => .ok []
  | e :: es, f => (eval v e f).bind fun _ => (evalArgs v es f).bind fun _ => .ok _

end

theorem evaluate (d : Xml.Document) (context : Xml.NodeId) (expression : String) :
    LevelsSuffice (evaluate d context expression) := by
  rw [XPath.evaluate]
  refine bind ?_ fun e => eval _ e _
  cases h : read expression with
  | ok e => exact .ok e
  | error fault =>
    intro text he
    cases he
    exact read_ne_levels expression h

theorem selectElements (d : Xml.Document) (context : Xml.NodeId) (expression : String) :
    LevelsSuffice (selectElements d context expression) := by
  refine (evaluate d context expression).bind fun value => ?_
  cases value with
  | nodes items => exact .ok _
  | boolean b => exact nofun
  | number x => exact nofun
  | string s => exact nofun

theorem selectFirst? (d : Xml.Document) (context : Xml.NodeId) (expression : String) :
    LevelsSuffice (selectFirst? d context expression) :=
  (selectElements d context expression).bind fun _ => .ok _

theorem evaluateString (d : Xml.Document) (context : Xml.NodeId) (expression : String) :
    LevelsSuffice (evaluateString d context expression) :=
  (evaluate d context expression).bind fun _ => .ok _

end LevelsSuffice

end PatchScript.XPath
