import Mathlib.Data.List.Forall2
import PatchScript.Proofs.Text.Replacing

/-!
# A sign behind a word

Behind a word stands one of two signs.  Wherever it is the one, it can be replaced by the other.
Then it does not matter any more which one it was, so to replace the other by the one gives
the same as before (`swapped_swapped`): neither of the two replacements undoes the other, unless
the sign that it makes was missing.

It is enough that the signs are not in the word.  Then no two places overlap, and the signs that
were made are never taken for parts of a word.
-/

namespace PatchScript.Text

/-- The sign `b` in place of the sign `a` wherever this stands behind the word. -/
def swapped (word : List Char) (a b : Char) (cs : List Char) : List Char :=
  replaced (word ++ [a]) (word ++ [b]) cs

variable {word : List Char} {a b : Char}

theorem append_sign_ne_nil (word : List Char) (a : Char) : word ++ [a] ≠ [] :=
  List.append_ne_nil_of_right_ne_nil _ (List.cons_ne_nil _ _)

@[simp] theorem swapped_nil (word : List Char) (a b : Char) : swapped word a b [] = [] := rfl

theorem swapped_one (word : List Char) (a b : Char) (cs : List Char) :
    swapped word a b (word ++ a :: cs) = word ++ b :: swapped word a b cs := by
  rw [swapped, List.append_cons word a cs, replaced_append (append_sign_ne_nil word a),
    ← List.append_cons]
  rfl

theorem swapped_cons {c : Char} {cs : List Char} (h : ¬word ++ [a] <+: c :: cs) (b : Char) :
    swapped word a b (c :: cs) = c :: swapped word a b cs := replaced_cons h _

theorem swapped_separated {s : Char} (hs : s ∉ word ++ [a]) (b : Char) (u v : List Char) :
    swapped word a b (u ++ s :: v) = swapped word a b u ++ s :: swapped word a b v :=
  replaced_separated hs (append_sign_ne_nil word a) u v

/-- Characters that are not in the word, and are not the sign, are kept. -/
theorem swapped_append {u : List Char} (hu : ∀ c ∈ u, c ∉ word ++ [a]) (b : Char)
    (v : List Char) : swapped word a b (u ++ v) = u ++ swapped word a b v := by
  induction u with
  | nil => rfl
  | cons c u ih =>
    rw [List.forall_mem_cons] at hu
    rw [List.cons_append, List.cons_append, ← ih hu.2]
    exact swapped_separated hu.1 b [] (u ++ v)

/-- A text is swapped up to a character that is not in the word and not the sign, and behind. -/
theorem swapped_before {s : Char} (hs : s ∉ word ++ [a]) (b : Char) (u v : List Char) :
    swapped word a b (u ++ s :: v) = swapped word a b u ++ swapped word a b (s :: v) := by
  have hstart : swapped word a b (s :: v) = s :: swapped word a b v :=
    swapped_separated hs b [] v
  rw [swapped_separated hs, hstart]

theorem swapped_eq_self_iff (hab : a ≠ b) (cs : List Char) :
    swapped word a b cs = cs ↔ containsList (word ++ [a]) cs = false := by
  refine replaced_eq_self_iff (append_sign_ne_nil word a) (by simp) ?_ cs
  simpa using hab.symm

theorem swapped_of_notMem {cs : List Char} (h : a ∉ cs) (b : Char) : swapped word a b cs = cs := by
  induction cs with
  | nil => rfl
  | cons c cs ih =>
    rw [swapped_cons, ih (List.not_mem_of_not_mem_cons h)]
    exact fun hword => h (hword.subset (List.mem_append_right word List.mem_cons_self))

/-- The other sign is kept. -/
theorem swapped_other (ha : a ∉ word) (hb : b ∉ word) (hab : a ≠ b) (cs : List Char) :
    swapped word a b (word ++ b :: cs) = word ++ b :: swapped word a b cs := by
  have hother : b ∉ word ++ [a] := by simp [hb, hab.symm]
  rw [swapped_separated hother, swapped_of_notMem ha]

/-- Each character is kept, or it is the one sign and becomes the other. -/
theorem forall₂_swapped (word : List Char) (a b : Char) (cs : List Char) :
    List.Forall₂ (fun c c' => c' = c ∨ c = a ∧ c' = b) cs (swapped word a b cs) := by
  rw [swapped]
  induction cs using replacing_induction (append_sign_ne_nil word a) with
  | nil => exact .nil
  | found cs ih =>
    rw [replaced_append (append_sign_ne_nil word a), List.append_assoc, List.append_assoc]
    have hsign := List.Forall₂.cons (.inr ⟨rfl, rfl⟩) ih
    exact List.rel_append (List.forall₂_same.mpr fun _ _ => .inl rfl) hsign
  | kept c cs hprefix ih =>
    rw [replaced_cons hprefix]
    exact .cons (.inl rfl) ih

/-- Where the other sign stands behind the word after a swap, it was there before, or the one
was. -/
theorem prefix_of_forall₂ (hb : b ∉ word) {cs cs' : List Char}
    (hpairs : List.Forall₂ (fun c c' => c' = c ∨ c = a ∧ c' = b) cs cs')
    (h : word ++ [b] <+: cs') : word ++ [b] <+: cs ∨ word ++ [a] <+: cs := by
  induction word generalizing cs cs' with
  | nil =>
    obtain ⟨rest, rfl⟩ := h
    cases hpairs with
    | @cons c _ cs _ hsign _ =>
      rcases hsign with rfl | ⟨rfl, -⟩
      · exact .inl (List.prefix_append [_] cs)
      · exact .inr (List.prefix_append [_] cs)
  | cons z word ih =>
    obtain ⟨rest, rfl⟩ := h
    rw [List.mem_cons, not_or] at hb
    cases hpairs with
    | cons hsame hpairs =>
      obtain rfl := hsame.resolve_right fun h => hb.1 h.2.symm
      have hword := ih hb.2 hpairs (List.prefix_append _ rest)
      exact hword.imp (List.prefix_cons_inj z).mpr (List.prefix_cons_inj z).mpr

/-- A text is gone through by its signs, of both kinds. -/
theorem signs_induction (word : List Char) (a b : Char) {P : List Char → Prop} (nil : P [])
    (one : ∀ cs, P cs → P (word ++ a :: cs)) (other : ∀ cs, P cs → P (word ++ b :: cs))
    (kept : ∀ c cs, ¬word ++ [a] <+: c :: cs → ¬word ++ [b] <+: c :: cs → P cs → P (c :: cs))
    (cs : List Char) : P cs := by
  induction hlength : cs.length using Nat.strong_induction_on generalizing cs with
  | h n ih =>
    have behind {s : Char} {rest : List Char} (hrest : word ++ [s] ++ rest = cs) : P rest := by
      refine ih rest.length ?_ rest rfl
      rw [← hlength, ← hrest, List.length_append, List.length_append, List.length_singleton]
      omega
    cases cs with
    | nil => exact nil
    | cons c cs =>
      by_cases ha : word ++ [a] <+: c :: cs
      · obtain ⟨rest, hrest⟩ := ha
        rw [← hrest, ← List.append_cons]
        exact one rest (behind hrest)
      · by_cases hb : word ++ [b] <+: c :: cs
        · obtain ⟨rest, hrest⟩ := hb
          rw [← hrest, ← List.append_cons]
          exact other rest (behind hrest)
        · refine kept c cs ha hb (ih cs.length ?_ cs rfl)
          rw [← hlength]
          exact Nat.lt_succ_self _

/-- After both swaps the signs are what the second swap makes of them. -/
theorem swapped_swapped (ha : a ∉ word) (hb : b ∉ word) (hab : a ≠ b) (cs : List Char) :
    swapped word b a (swapped word a b cs) = swapped word b a cs := by
  induction cs using signs_induction word a b with
  | nil => rfl
  | one cs ih => rw [swapped_one, swapped_one, ih, swapped_other hb ha hab.symm]
  | other cs ih => rw [swapped_other ha hb hab, swapped_one, swapped_one, ih]
  | kept c cs hone hother ih =>
    have hkept : ¬word ++ [b] <+: c :: swapped word a b cs := fun h =>
      (prefix_of_forall₂ hb (.cons (.inl rfl) (forall₂_swapped word a b cs)) h).elim hother hone
    rw [swapped_cons hone, swapped_cons hkept, swapped_cons hother, ih]

/-- To swap once more changes nothing. -/
theorem swapped_twice (ha : a ∉ word) (hb : b ∉ word) (hab : a ≠ b) (cs : List Char) :
    swapped word a b (swapped word a b cs) = swapped word a b cs := by
  rw [← swapped_swapped hb ha hab.symm (swapped word a b cs), swapped_swapped ha hb hab,
    swapped_swapped hb ha hab.symm]

end PatchScript.Text
