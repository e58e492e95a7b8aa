import PatchScript.XPath.Value

/-!
# Comparisons read from right to left

Every comparison has a converse: what holds of `l` and `r` under an operator holds of `r`
and `l` under the converse one.  `Value.compare` treats its two sides in an order of its
own, nodes on the left before nodes on the right and truth values before the rest, so the
law is not to be read off its lines.

It becomes plain once the comparison is put in a form that treats both sides alike.  Each
side is told by the atoms that stand for it *against* the other side (`Value.against`), and
a comparison holds if it holds of one atom from either side (`compare_iff`).
-/

namespace PatchScript

/-! ## Numbers -/

namespace Binary64

theorem compareScaled_swap (x e y f : Int) :
    compareScaled y f x e = (compareScaled x e y f).swap := by
  unfold compareScaled
  rw [Int.min_comm f e]
  exact Std.OrientedCmp.eq_swap

/-- Turning two numbers round turns their order round. -/
theorem compare?_swap (x y : Binary64) :
    compare? y x = (compare? x y).map Ordering.swap := by
  cases x with
  | nan => cases y <;> rfl
  | infinite s =>
    cases y with
    | nan => rfl
    | infinite t => cases s <;> cases t <;> rfl
    | finite t n f => cases s <;> rfl
  | finite s m e =>
    cases y with
    | nan => rfl
    | infinite t => cases t <;> rfl
    | finite t n f => exact congrArg some (compareScaled_swap ..)

theorem equal_comm (x y : Binary64) : equal x y = equal y x := by
  rw [equal, equal, compare?_swap y x]
  cases compare? y x with
  | none => rfl
  | some order => cases order <;> rfl

end Binary64

namespace XPath

/-- The operator that says the same from right to left. -/
def Comparison.converse : Comparison → Comparison
  | .equal => .equal
  | .notEqual => .notEqual
  | .less => .greater
  | .lessOrEqual => .greaterOrEqual
  | .greater => .less
  | .greaterOrEqual => .lessOrEqual

@[simp] theorem Comparison.converse_converse (op : Comparison) :
    op.converse.converse = op := by
  cases op <;> rfl

namespace Value

variable (v : View)

/-! ## Atoms -/

theorem equalAtoms_comm (l r : Value) : equalAtoms v l r = equalAtoms v r l := by
  unfold equalAtoms
  rw [Bool.or_comm r.isBoolean, Bool.or_comm r.isNumber, Binary64.equal_comm (r.toNumber v),
    Bool.beq_comm (a := r.toBool), BEq.comm (a := r.toText v)]

theorem compareAtoms_converse (op : Comparison) (l r : Value) :
    compareAtoms v op.converse r l = compareAtoms v op l r := by
  cases op with
  | equal => exact equalAtoms_comm v r l
  | notEqual => exact congrArg (!·) (equalAtoms_comm v r l)
  | less | lessOrEqual | greater | greaterOrEqual => rfl

/-! ## Values -/

/-- The atoms that stand for a value when it is compared with another: for nodes their
texts, but against a truth value only whether there are any. -/
def against (value other : Value) : List Value :=
  match value with
  | .nodes items =>
    if other.isBoolean then [.boolean (!items.isEmpty)]
    else items.map fun item => .string (v.stringOf item)
  | _ => [value]

theorem compare_eq (op : Comparison) (l r : Value) :
    compare v op l r =
      (l.against v r).any fun a => (r.against v l).any fun b => compareAtoms v op a b := by
  -- The kinds of both sides together decide which line of `compare` it is.
  cases l <;> cases r <;> simp [compare, against, isBoolean, Function.comp_def]

/-- A comparison holds if it holds of an atom for the left side and one for the right. -/
theorem compare_iff (op : Comparison) (l r : Value) :
    compare v op l r = true ↔
      ∃ a ∈ l.against v r, ∃ b ∈ r.against v l, compareAtoms v op a b = true := by
  simp only [compare_eq, List.any_eq_true]

theorem compare_converse (op : Comparison) (l r : Value) :
    compare v op.converse r l = compare v op l r := by
  rw [Bool.eq_iff_iff, compare_iff, compare_iff]
  constructor
  · rintro ⟨b, hb, a, ha, h⟩
    exact ⟨a, ha, b, hb, (compareAtoms_converse v op a b).symm.trans h⟩
  · rintro ⟨a, ha, b, hb, h⟩
    exact ⟨b, hb, a, ha, (compareAtoms_converse v op a b).trans h⟩

/-- Equality and inequality do not depend on the sides of a comparison, and what is less
on the left is greater on the right.  That is so for all kinds of values, since each
comparison asks for one atom from either side. -/
theorem comparisons_have_converses (l r : Value) :
    (compare v .equal l r = compare v .equal r l ∧
      compare v .notEqual l r = compare v .notEqual r l ∧
      compare v .less l r = compare v .greater r l ∧
      compare v .lessOrEqual l r = compare v .greaterOrEqual r l) ∧
    ∀ op, compare v op l r = true ↔
      ∃ a ∈ l.against v r, ∃ b ∈ r.against v l, compareAtoms v op a b = true :=
  ⟨⟨compare_converse v .equal r l, compare_converse v .notEqual r l,
    compare_converse v .greater r l, compare_converse v .greaterOrEqual r l⟩,
    fun op => compare_iff v op l r⟩

/-- No nodes at all are neither equal to themselves nor unequal. -/
example : compare v .equal (.nodes []) (.nodes []) = false ∧
    compare v .notEqual (.nodes []) (.nodes []) = false :=
  ⟨rfl, rfl⟩

end Value

end XPath

end PatchScript
