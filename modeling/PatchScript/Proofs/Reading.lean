import PatchScript.Number.Decimal

/-!
# How far a reading gets

The parsers count down a number of levels, and fail if the number is used up.  A parser
that reads a token before it goes down a level never has to, if there are more levels
than tokens.  `Gets` says so of one result: levels were not what was missing, and so
many tokens were read.
-/

namespace PatchScript

variable {ε τ α β : Type} {levels : ε} {k k' m n n' : Nat}

/-- One thing after the other has a value if both have. -/
theorem bind_eq_ok {x : Except ε α} {f : α → Except ε β} {b : β} (h : x >>= f = .ok b) :
    ∃ a, x = .ok a ∧ f a = .ok b := by
  cases x with
  | error e => cases h
  | ok a => exact ⟨a, rfl, h⟩

/-- What has a value goes on with it. -/
@[simp] theorem ok_bind (a : α) (f : α → Except ε β) : (Except.ok a >>= f) = f a := rfl

@[simp] theorem pure_eq_ok (a : α) : (pure a : Except ε α) = .ok a := rfl

@[simp] theorem map_ok (f : α → β) (a : α) : f <$> (Except.ok a : Except ε α) = .ok (f a) := rfl

/-- A result for `n` tokens, of which at least `k` were read.  If it is a failure, then not
for want of levels. -/
def Gets (levels : ε) (k n : Nat) (r : Except ε (α × List τ)) : Prop :=
  r ≠ .error levels ∧ ∀ a rest, r = .ok (a, rest) → rest.length + k ≤ n

namespace Gets

theorem ok {a : α} {rest : List τ} (h : rest.length + k ≤ n) :
    Gets levels k n (.ok (a, rest)) := by
  refine ⟨nofun, fun a' rest' he => ?_⟩
  cases he
  exact h

theorem error {e : ε} (h : e ≠ levels) :
    Gets levels k n (.error e : Except ε (α × List τ)) := by
  refine ⟨fun he => ?_, nofun⟩
  cases he
  exact h rfl

/-- More tokens are read by more of the same. -/
theorem mono {r : Except ε (α × List τ)} (h : Gets levels k n r) (hn : n + k' ≤ n' + k) :
    Gets levels k' n' r := by
  refine ⟨h.1, fun a rest hr => ?_⟩
  have := h.2 a rest hr
  omega

/-- One reading after the other. -/
theorem bind {x : Except ε (α × List τ)} {f : α × List τ → Except ε (β × List τ)}
    (hx : Gets levels k n' x)
    (hf : ∀ a rest, rest.length + k ≤ n' → Gets levels m n (f (a, rest))) :
    Gets levels m n (x >>= f) := by
  cases x with
  | error e =>
    refine error ?_
    rintro rfl
    exact hx.1 rfl
  | ok r =>
    obtain ⟨a, rest⟩ := r
    exact hf a rest (hx.2 a rest rfl)

/-- A reading after something that takes no token. -/
theorem bind_of {x : Except ε α} {f : α → Except ε (β × List τ)} (hx : x ≠ .error levels)
    (hf : ∀ a, x = .ok a → Gets levels m n (f a)) : Gets levels m n (x >>= f) := by
  cases x with
  | error e =>
    refine error ?_
    rintro rfl
    exact hx rfl
  | ok a => exact hf a rfl

end Gets

end PatchScript
