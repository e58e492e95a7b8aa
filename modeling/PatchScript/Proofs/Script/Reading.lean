import PatchScript.Proofs.Reading
import PatchScript.Script.Parser

/-!
# Scripts are read with the levels there are

Blocks and arguments nest, and each time a token is read first.  So a list of tokens
never needs more levels than it has tokens, and one or two.
-/

namespace PatchScript.Script

variable {α : Type} {k m n : Nat}

/-! ## Single tokens -/

theorem expect_gets (accept : Token → Bool) (expected : Expected) (ts : List Token) :
    Gets .levels 1 ts.length (expect accept expected ts) := by
  cases ts with
  | nil => exact .error nofun
  | cons t ts =>
    rw [expect]
    split
    · exact .ok (Nat.le_refl _)
    · exact .error nofun

theorem skipOperator_ne_levels (op : Operator) (ts : List Token) :
    skipOperator op ts ≠ .error .levels := by
  rw [skipOperator]
  have h := (expect_gets (·.isOperator op) (.operator op) ts).1
  cases he : expect (·.isOperator op) (.operator op) ts with
  | ok r => exact nofun
  | error e =>
    rintro ⟨⟩
    exact h he

theorem skipOperator_ok {op : Operator} {ts rest : List Token}
    (h : skipOperator op ts = .ok rest) : rest.length + 1 = ts.length := by
  rw [skipOperator] at h
  cases ts with
  | nil => cases h
  | cons t ts =>
    rw [expect] at h
    split at h
    · cases h
      rfl
    · cases h

/-- Reading goes on behind an operator that has to stand first. -/
theorem gets_skipOperator {op : Operator} {ts : List Token}
    {f : List Token → Reading (α × List Token)}
    (hf : ∀ rest, rest.length + 1 = ts.length → Gets .levels m n (f rest)) :
    Gets .levels m n (skipOperator op ts >>= f) :=
  .bind_of (skipOperator_ne_levels op ts) fun rest h => hf rest (skipOperator_ok h)

theorem operator?_some {op : Operator} {ts rest : List Token} (h : operator? op ts = some rest) :
    rest.length + 1 = ts.length := by
  cases ts with
  | nil => cases h
  | cons t ts =>
    rw [operator?] at h
    split at h
    · cases h
      rfl
    · cases h

theorem minus_length (ts : List Token) : (minus ts).2.length ≤ ts.length := by
  rw [minus]
  cases h : operator? .minus ts with
  | none => exact Nat.le_refl _
  | some rest =>
    have := operator?_some h
    dsimp only
    omega

theorem identifier_gets (ts : List Token) : Gets .levels 1 ts.length (identifier ts) :=
  (expect_gets _ _ ts).bind fun _ _ hr => .ok hr

theorem numberOf_ne_levels (t : Token) : numberOf t ≠ .error .levels := by
  rw [numberOf]
  cases Binary64.ofText? t.text <;> exact nofun

/-! ## Values -/

/-- The parser of arguments is only asked behind a parenthesis. -/
theorem reference_gets {args : List Token → Reading (List (Term Unit) × List Token)}
    {ts : List Token}
    (h : ∀ rest, rest.length < ts.length → Gets .levels 1 rest.length (args rest))
    (name : String) (negative : Bool) :
    Gets .levels 0 ts.length (reference args name negative ts) := by
  rw [reference]
  cases hopen : operator? .openParen ts with
  | none => exact .ok (Nat.le_refl _)
  | some rest =>
    have hrest := operator?_some hopen
    dsimp only
    cases hclose : operator? .closeParen rest with
    | some rest' =>
      have := operator?_some hclose
      exact .ok (by omega)
    | none => exact (h rest (by omega)).bind fun as rest' hr => .ok (by dsimp only; omega)

theorem valueOf_gets {args : List Token → Reading (List (Term Unit) × List Token)}
    {ts : List Token}
    (h : ∀ rest, rest.length < ts.length → Gets .levels 1 rest.length (args rest))
    (negative : Bool) (t : Token) : Gets .levels 0 ts.length (valueOf args negative t ts) := by
  rw [valueOf]
  split
  · exact reference_gets h _ _
  · exact .bind_of (numberOf_ne_levels t) fun x _ => .ok (Nat.le_refl _)
  · exact .ok (Nat.le_refl _)
  · exact .ok (Nat.le_refl _)

mutual

theorem value_gets : ∀ (levels : Nat) (ts : List Token), ts.length < levels →
    Gets .levels 1 ts.length (value levels ts)
  | 0, _, h => absurd h (Nat.not_lt_zero _)
  | n + 1, ts, h => by
    have hminus := minus_length ts
    rw [value]
    refine (expect_gets _ _ (minus ts).2).bind fun t rest hr => ?_
    refine (valueOf_gets (fun rest' hr' => ?_) _ t).mono (by omega)
    exact args_gets n rest' (by omega)

theorem args_gets : ∀ (levels : Nat) (ts : List Token), ts.length + 1 < levels →
    Gets .levels 1 ts.length (args levels ts)
  | 0, _, h => absurd h (Nat.not_lt_zero _)
  | n + 1, ts, h => by
    rw [args]
    refine (value_gets n ts (by omega)).bind fun v rest hr => ?_
    dsimp only
    cases hclose : operator? .closeParen rest with
    | some rest' =>
      have := operator?_some hclose
      exact .ok (by omega)
    | none =>
      refine gets_skipOperator fun rest' hr' => ?_
      exact (args_gets n rest' (by omega)).bind fun vs rest'' hr'' => .ok (by dsimp only; omega)

end

theorem arguments_gets (ts : List Token) : Gets .levels 1 ts.length (arguments ts) :=
  args_gets _ ts (by unfold levelsFor; omega)

theorem readValue_gets (ts : List Token) : Gets .levels 1 ts.length (readValue ts) :=
  value_gets _ ts (by unfold levelsFor; omega)

theorem selector_gets (ts : List Token) : Gets .levels 1 ts.length (selector ts) := by
  refine (expect_gets _ _ ts).bind fun t rest hr => ?_
  dsimp only
  split
  · exact (reference_gets (fun rest' _ => arguments_gets rest') _ _).mono (by omega)
  · exact .ok hr

theorem position?_gets (ts : List Token) : Gets .levels 0 ts.length (position? ts) := by
  cases ts with
  | nil => exact .ok (Nat.le_refl _)
  | cons at' ts =>
    have hminus := minus_length ts
    rw [position?]
    split
    · refine (expect_gets _ _ (minus ts).2).bind fun t rest hr => ?_
      rw [List.length_cons]
      dsimp only
      split
      · refine (reference_gets (fun rest' _ => arguments_gets rest') _ _).bind ?_
        exact fun p rest' hr' => .ok (by dsimp only; omega)
      · exact .bind_of (numberOf_ne_levels t) fun x _ => .ok (by omega)
    · exact .ok (Nat.le_refl _)

theorem paramsFrom_gets : ∀ (levels : Nat) (ts : List Token), ts.length < levels →
    Gets .levels 1 ts.length (paramsFrom levels ts) := by
  intro levels
  induction levels with
  | zero => exact fun _ h => absurd h (Nat.not_lt_zero _)
  | succ n ih =>
    intro ts h
    refine (identifier_gets ts).bind fun p rest hr => ?_
    dsimp only
    cases hclose : operator? .closeParen rest with
    | some rest' =>
      have := operator?_some hclose
      exact .ok (by omega)
    | none =>
      refine gets_skipOperator fun rest' hr' => ?_
      exact (ih rest' (by omega)).bind fun ps rest'' hr'' => .ok (by dsimp only; omega)

theorem params_gets (preset : String) (ts : List Token) :
    Gets .levels 1 ts.length (params preset ts) := by
  rw [params]
  cases hopen : operator? .openParen ts with
  | none => exact .error nofun
  | some rest =>
    have hrest := operator?_some hopen
    dsimp only
    cases hclose : operator? .closeParen rest with
    | some rest' =>
      have := operator?_some hclose
      exact .ok (by omega)
    | none => exact (paramsFrom_gets _ rest (by unfold levelsFor; omega)).mono (by omega)

/-! ## Directives -/

theorem block_gets {body : List Token → Reading (List (Term Unit) × List Token)}
    {ts : List Token}
    (h : ∀ rest, rest.length < ts.length → Gets .levels 0 rest.length (body rest)) :
    Gets .levels 2 ts.length (block body ts) := by
  refine gets_skipOperator fun rest hr => ?_
  refine (h rest (by omega)).bind fun b rest' hr' => ?_
  exact gets_skipOperator fun rest'' hr'' => .ok (by omega)

section

variable {body : List Token → Reading (List (Term Unit) × List Token)} {ts : List Token}
  (h : ∀ rest, rest.length < ts.length → Gets .levels 0 rest.length (body rest))

include h

/-- A block behind something that was read. -/
theorem gets_block {rest : List Token} {f : List (Term Unit) → Term Unit}
    (hr : rest.length + k ≤ ts.length) :
    Gets .levels 0 ts.length do
      let (b, ts) ← block body rest
      return (f b, ts) := by
  refine (block_gets fun rest' hr' => h rest' (by omega)).bind fun b rest' hr' => ?_
  exact .ok (by omega)

theorem directiveOf_gets (t : Token) : Gets .levels 0 ts.length (directiveOf body t ts) := by
  unfold directiveOf
  split
  · exact (identifier_gets ts).bind fun name rest hr => .ok (by omega)
  · exact (selector_gets ts).bind fun path rest hr => gets_block h hr
  · refine (identifier_gets ts).bind fun name rest hr => ?_
    refine (reference_gets (fun rest' _ => arguments_gets rest') _ _).bind fun r rest' hr' => ?_
    cases r <;> exact .ok (by omega)
  · refine (identifier_gets ts).bind fun name rest hr => ?_
    refine (params_gets name rest).bind fun ps rest' hr' => ?_
    exact gets_block h (k := 2) (by omega)
  · refine (selector_gets ts).bind fun name rest hr => gets_skipOperator fun rest' hr' => ?_
    exact (readValue_gets rest').bind fun v rest'' hr'' => .ok (by omega)
  · refine (selector_gets ts).bind fun tag rest hr => ?_
    refine (position?_gets rest).bind fun p rest' hr' => ?_
    cases p with
    | none => exact gets_block h (k := 1) (by omega)
    | some p => exact gets_block h (k := 1) (by omega)
  · refine (selector_gets ts).bind fun tag rest hr => ?_
    refine (position?_gets rest).bind fun p rest' hr' => ?_
    cases p with
    | none => exact gets_block h (k := 1) (by omega)
    | some p => exact gets_block h (k := 1) (by omega)
  · exact (selector_gets ts).bind fun s rest hr => gets_block h hr
  · exact (selector_gets ts).bind fun s rest hr => gets_block h hr
  · cases ts with
    | nil => exact (selector_gets []).bind fun s rest hr => .ok (by omega)
    | cons all rest =>
      dsimp only
      split
      · exact (selector_gets rest).bind fun s rest' hr => .ok (by simp only [List.length_cons]; omega)
      · exact (selector_gets (all :: rest)).bind fun s rest' hr => .ok (by dsimp only; omega)
  · refine (identifier_gets ts).bind fun name rest hr => gets_skipOperator fun rest' hr' => ?_
    exact (readValue_gets rest').bind fun v rest'' hr'' => .ok (by omega)
  · exact .error nofun
  · exact .error nofun

end

theorem directives_gets : ∀ (levels : Nat) (ts : List Token), ts.length < levels →
    Gets .levels 0 ts.length (directives levels ts) := by
  intro levels
  induction levels with
  | zero => exact fun _ h => absurd h (Nat.not_lt_zero _)
  | succ n ih =>
    intro ts h
    cases ts with
    | nil => exact .ok (Nat.le_refl _)
    | cons t ts =>
      rw [List.length_cons] at h ⊢
      rw [directives]
      split
      · exact .ok (Nat.le_refl _)
      · refine (directiveOf_gets (fun rest hr => ih rest (by omega)) t).bind fun d rest hr => ?_
        exact (ih rest (by omega)).bind fun ds rest' hr' => .ok (by omega)

/-! ## Scripts -/

/-- No list of tokens nests more deeply than there are levels. -/
theorem script_ne_levels (ts : List Token) : script ts ≠ .error .levels := by
  have hread := directives_gets (levelsFor ts) ts (by unfold levelsFor; omega)
  intro h
  rw [script] at h
  cases hx : directives (levelsFor ts) ts with
  | error e =>
    rw [hx] at h
    cases h
    exact hread.1 hx
  | ok r =>
    rw [hx] at h
    obtain ⟨body, rest⟩ := r
    cases rest with
    | nil => cases h
    | cons t rest => cases h

theorem parse_ne_levels {ts : List Token} {e : ParseError} (h : parse ts = .error e) :
    e.fault ≠ .levels := by
  rw [parse] at h
  cases hs : script ts with
  | ok body =>
    rw [hs] at h
    cases h
  | error fault =>
    rw [hs] at h
    cases h
    rintro rfl
    exact script_ne_levels ts hs

end PatchScript.Script
