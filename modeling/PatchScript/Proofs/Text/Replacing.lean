import Mathlib.Data.List.Infix
import PatchScript.Text.Edit

/-!
# Replacing

A replacement goes through a text from left to right.  What it gives is known from what the text
starts with: where the old text stands, the new one comes instead of it, and every other character
is kept.  What was made so far is not looked at again.
-/

namespace PatchScript.Text

/-- Every occurrence of `old` replaced by `new`. -/
def replaced (old new cs : List Char) : List Char := replaceFrom old new 0 [] cs

variable {old new : List Char}

theorem toList_replaceAll (s old new : String) :
    (replaceAll s old new).toList = replaced old.toList new.toList s.toList := by
  rw [replaceAll, String.toList_ofList, replaced]

/-- What was made so far stands before the rest. -/
theorem replaceFrom_done (old new : List Char) : ∀ (cs : List Char) (skip : Nat)
    (done : List Char),
    replaceFrom old new skip done cs = done.reverse ++ replaceFrom old new skip [] cs := by
  intro cs
  induction cs with
  | nil => exact fun skip done => by cases skip <;> simp [replaceFrom]
  | cons c cs ih =>
    intro skip done
    cases skip with
    | succ skip => exact ih skip done
    | zero =>
      rw [replaceFrom, replaceFrom]
      split
      · rw [ih, ih _ (new.reverseAux [])]
        simp [List.reverseAux_eq]
      · rw [ih, ih _ [c]]
        simp

/-- The rest of an occurrence is left out. -/
theorem replaceFrom_skip (old new : List Char) : ∀ (skip : Nat) (cs : List Char),
    replaceFrom old new skip [] cs = replaced old new (cs.drop skip)
  | 0, _ => rfl
  | _ + 1, [] => rfl
  | skip + 1, _ :: cs => replaceFrom_skip old new skip cs

@[simp] theorem replaced_nil (old new : List Char) : replaced old new [] = [] := rfl

theorem replaced_append (hold : old ≠ []) (new cs : List Char) :
    replaced old new (old ++ cs) = new ++ replaced old new cs := by
  obtain ⟨c, rest, rfl⟩ := List.exists_cons_of_ne_nil hold
  have hprefix : (c :: rest).isPrefixOf (c :: (rest ++ cs)) = true :=
    List.isPrefixOf_iff_prefix.mpr (List.prefix_append (c :: rest) cs)
  rw [replaced, List.cons_append, replaceFrom, if_pos hprefix, replaceFrom_done,
    replaceFrom_skip]
  simp [List.reverseAux_eq]

theorem replaced_cons {c : Char} {cs : List Char} (h : ¬old <+: c :: cs) (new : List Char) :
    replaced old new (c :: cs) = c :: replaced old new cs := by
  have hprefix : ¬old.isPrefixOf (c :: cs) = true := fun hold =>
    h (List.isPrefixOf_iff_prefix.mp hold)
  rw [replaced, replaceFrom, if_neg hprefix, replaceFrom_done]
  rfl

/-- A list is gone through as a text is replaced. -/
theorem replacing_induction {α : Type} {old : List α} (hold : old ≠ []) {P : List α → Prop}
    (nil : P []) (found : ∀ cs, P cs → P (old ++ cs))
    (kept : ∀ c cs, ¬old <+: c :: cs → P cs → P (c :: cs)) (cs : List α) : P cs := by
  induction hlength : cs.length using Nat.strong_induction_on generalizing cs with
  | h n ih =>
    cases cs with
    | nil => exact nil
    | cons c cs =>
      by_cases hprefix : old <+: c :: cs
      · obtain ⟨rest, hrest⟩ := hprefix
        rw [← hrest] at hlength ⊢
        have hpos := List.length_pos_iff.mpr hold
        exact found rest (ih rest.length (by rw [← hlength, List.length_append]; omega) rest rfl)
      · exact kept c cs hprefix (ih cs.length (by rw [← hlength]; exact Nat.lt_succ_self _) cs rfl)

/-- Where a character stands that is not in the old text, a text is replaced part by part. -/
theorem replaced_separated {s : Char} (hs : s ∉ old) (hold : old ≠ []) (u v : List Char) :
    replaced old new (u ++ s :: v) = replaced old new u ++ s :: replaced old new v := by
  have inside (u : List Char) (h : old <+: u ++ s :: v) : old <+: u := by
    have hsep : u ++ [s] <+: u ++ s :: v := ⟨v, by simp⟩
    rcases List.prefix_or_prefix_of_prefix h hsep with hshort | hlong
    · rcases List.prefix_concat_iff.mp hshort with heq | hu
      · exact absurd (heq ▸ List.mem_append_right u List.mem_cons_self) hs
      · exact hu
    · exact absurd (hlong.subset (List.mem_append_right u List.mem_cons_self)) hs
  induction u using replacing_induction hold with
  | nil => exact replaced_cons (fun h => hold (List.prefix_nil.mp (inside [] h))) new
  | found u ih => rw [List.append_assoc, replaced_append hold, replaced_append hold, ih,
      List.append_assoc]
  | kept c u hprefix ih =>
    have hwhole : ¬old <+: c :: (u ++ s :: v) := fun h => hprefix (inside (c :: u) h)
    rw [List.cons_append, replaced_cons hwhole, ih, replaced_cons hprefix, List.cons_append]

/-- A text is replaced by itself if and only if the old text is not in it. -/
theorem replaced_eq_self_iff (hold : old ≠ []) (hlength : new.length = old.length)
    (hne : new ≠ old) (cs : List Char) :
    replaced old new cs = cs ↔ containsList old cs = false := by
  induction cs using replacing_induction hold with
  | nil => simp [containsList, hold]
  | found cs ih =>
    have hcontains : containsList old (old ++ cs) = true := by
      obtain ⟨c, rest, rfl⟩ := List.exists_cons_of_ne_nil hold
      rw [List.cons_append, containsList, Bool.or_eq_true]
      exact .inl (List.isPrefixOf_iff_prefix.mpr (List.prefix_append (c :: rest) cs))
    rw [replaced_append hold, hcontains]
    exact ⟨fun h => absurd (List.append_inj h hlength).1 hne, nofun⟩
  | kept c cs hprefix ih =>
    have hnot : old.isPrefixOf (c :: cs) = false :=
      Bool.eq_false_iff.mpr fun h => hprefix (List.isPrefixOf_iff_prefix.mp h)
    rw [replaced_cons hprefix, containsList, hnot, Bool.false_or, ← ih]
    exact ⟨fun h => (List.cons.inj h).2, congrArg (c :: ·)⟩

end PatchScript.Text
