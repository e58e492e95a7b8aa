import PatchScript.Proofs.Number.Rounding

/-!
# The digits that are found read back

The digits of a number are looked for on grids of multiples of powers of ten that get finer.  A
multiple is taken only if it rounds to the number (`roundsTo_of_onGrid?`).  A grid of 17 places is
so fine that one of the two multiples next to the number does (`readsBack_neighbour`), so the digits
that are found round to the number, whichever grid they are on (`roundsTo_shortest`).
-/

namespace PatchScript.Decimal

open Binary64 (power power_pos power_div_power RoundsTo IsCanonical)

/-! ## Comparisons -/

/-- Two numbers that are scaled by powers compare as integers do, after the powers that would
divide have gone to the other side. -/
theorem scaled_lt_iff {b c : Nat} (hb : 0 < b) (hc : 0 < c) (x y : Nat) (k q : Int) :
    x * power b k * power c (-q) < y * power c q * power b (-k) ↔
      (x : ℚ) * b ^ k < y * c ^ q := by
  have hb' : (0 : ℚ) < power b (-k) := by exact_mod_cast power_pos hb (-k)
  have hc' : (0 : ℚ) < power c (-q) := by exact_mod_cast power_pos hc (-q)
  rw [← power_div_power hb, ← power_div_power hc, ← mul_div_assoc, ← mul_div_assoc,
    div_lt_div_iff₀ hb' hc']
  exact_mod_cast Iff.rfl

theorem compareGrid_eq_lt_iff {a b : Nat} {k q : Int} :
    compareGrid a k b q = .lt ↔ (a : ℚ) * 10 ^ k < b * 2 ^ q := by
  rw [compareGrid, Nat.compare_eq_lt]
  exact scaled_lt_iff (by decide) (by decide) a b k q

theorem compareGrid_eq_gt_iff {a b : Nat} {k q : Int} :
    compareGrid a k b q = .gt ↔ (b : ℚ) * 2 ^ q < a * 10 ^ k := by
  rw [compareGrid, Nat.compare_eq_gt]
  exact scaled_lt_iff (by decide) (by decide) b a q k

/-- A multiple of a power of ten reads back if it is one of the quotients that round to the
number. -/
theorem readsBack_iff {m a : Nat} {e k : Int} :
    readsBack m e a k ↔ RoundsTo m e ((a : ℚ) * 10 ^ k) := by
  unfold readsBack
  dsimp only
  split
  · rename_i heven
    rw [Bool.and_eq_true, bne_iff_ne, bne_iff_ne, Ne, compareGrid_eq_lt_iff, not_lt, Ne,
      compareGrid_eq_gt_iff, not_lt]
    exact ⟨fun h => ⟨h.1, h.2, fun hodd => by omega⟩, fun h => ⟨h.low, h.high⟩⟩
  · rename_i hodd
    have hodd : m % 2 = 1 := by omega
    rw [Bool.and_eq_true, beq_iff_eq, beq_iff_eq, compareGrid_eq_gt_iff, compareGrid_eq_lt_iff]
    exact ⟨fun h => ⟨h.1.le, h.2.le, fun _ => h⟩, fun h => h.inside hodd⟩

/-! ## Grids -/

/-- A number lies between a multiple of a power of ten and the next one. -/
theorem floorGrid_spec (m : Nat) (e k : Int) :
    (floorGrid m e k : ℚ) * 10 ^ k ≤ m * 2 ^ e ∧
      (m : ℚ) * 2 ^ e < (floorGrid m e k + 1 : Nat) * 10 ^ k := by
  let den := power 10 k * power 2 (-e)
  have hden : 0 < den := Nat.mul_pos (power_pos (by decide) k) (power_pos (by decide) (-e))
  have hlow : floorGrid m e k * den ≤ m * power 2 e * power 10 (-k) := Nat.div_mul_le_self _ _
  have hhigh : m * power 2 e * power 10 (-k) < (floorGrid m e k + 1) * den := by
    rw [mul_comm (floorGrid m e k + 1)]
    exact Nat.lt_mul_div_succ _ hden
  rw [← mul_assoc] at hlow hhigh
  have hlow := mt (scaled_lt_iff (by decide) (by decide) _ _ _ _).mpr (not_lt.mpr hlow)
  exact ⟨not_lt.mp hlow, (scaled_lt_iff (by decide) (by decide) _ _ _ _).mp hhigh⟩

theorem roundsTo_of_onGrid? {m a : Nat} {e k : Int} (h : onGrid? m e k = some a) :
    RoundsTo m e ((a : ℚ) * 10 ^ k) := by
  rw [← readsBack_iff]
  unfold onGrid? at h
  dsimp only at h
  split at h
  · cases h
  · rename_i hdown hup
    cases h
    exact hdown
  · rename_i hdown hup
    cases h
    exact hup
  · rename_i hdown hup
    cases h
    split
    · exact hdown
    · exact hup

/-- What is nearer to a number than half a step, and a quarter where the step below it is half of
that above, rounds to it. -/
theorem roundsTo_of_near {m : Nat} {e : Int} (hm : 0 < m) {r : ℚ}
    (hlow : (4 * m - (if m = Binary64.leastSignificand then 1 else 2)) * 2 ^ (e - 2) < r)
    (hhigh : r < (4 * m + 2) * 2 ^ (e - 2)) : RoundsTo m e r := by
  have hstep : (0 : ℚ) < 2 ^ (e - 2) := by positivity
  have hlow' : ((roundingInterval m e).1 : ℚ) * 2 ^ (e - 2) < r := by
    refine lt_of_le_of_lt (mul_le_mul_of_nonneg_right ?_ hstep.le) hlow
    unfold roundingInterval
    dsimp only
    split_ifs with hpower hleast
    · push_cast [show 1 ≤ 4 * m by omega]
      exact le_rfl
    · exact absurd hpower.1 hleast
    · push_cast [show 2 ≤ 4 * m by omega]
      linarith
    · push_cast [show 2 ≤ 4 * m by omega]
      exact le_rfl
  have hhigh' : r < ((roundingInterval m e).2 : ℚ) * 2 ^ (e - 2) := by
    simpa [roundingInterval] using hhigh
  exact ⟨hlow'.le, hhigh'.le, fun _ => ⟨hlow', hhigh'⟩⟩

theorem isSome_onGrid? {m : Nat} {e k : Int} (h : readsBack m e (floorGrid m e k) k ∨
    readsBack m e (floorGrid m e k + 1) k) : (onGrid? m e k).isSome := by
  unfold onGrid?
  dsimp only
  split
  · rename_i hdown hup
    rcases h with h | h
    · exact absurd h (Bool.eq_false_iff.mp hdown)
    · exact absurd h (Bool.eq_false_iff.mp hup)
  · rfl
  · rfl
  · rfl

/-- One of the two multiples next to a number rounds to it, if the number has 17 places before the
grid.  This is because a significand has 53 bits, and `2 ^ 53` is less than `10 ^ 16`. -/
theorem readsBack_neighbour {m : Nat} {e k : Int} (hm : 0 < m) (hc : IsCanonical m e)
    (hk : (10 : ℚ) ^ 16 * 10 ^ k ≤ m * 2 ^ e) :
    readsBack m e (floorGrid m e k) k ∨ readsBack m e (floorGrid m e k + 1) k := by
  let down := floorGrid m e k
  have hstep : (0 : ℚ) < 2 ^ (e - 2) := by positivity
  have hgrid : (0 : ℚ) < 10 ^ k := by positivity
  have hvalue : (m : ℚ) * 2 ^ e = 4 * m * 2 ^ (e - 2) := by
    rw [Binary64.two_zpow_eq e e 2 (by omega)]
    ring
  have hbits : (m : ℚ) * 2 ^ (e - 2) < 2 ^ 53 * 2 ^ (e - 2) :=
    mul_lt_mul_of_pos_right (by exact_mod_cast hc.lt) hstep
  obtain ⟨hdown, hup⟩ := floorGrid_spec m e k
  have hnext : ((down + 1 : Nat) : ℚ) * 10 ^ k = down * 10 ^ k + 10 ^ k := by
    push_cast
    ring
  rw [hvalue] at hk hdown hup
  rw [readsBack_iff, readsBack_iff, hnext]
  rw [hnext] at hup
  by_cases hleast : m = Binary64.leastSignificand
  · -- The grid is finer than half a step, so that the upper multiple is near enough.
    have hm : (m : ℚ) = 2 ^ 52 := by
      rw [hleast]
      norm_num [Binary64.leastSignificand]
    right
    refine roundsTo_of_near (by omega) ?_ ?_
    · rw [if_pos hleast]
      linarith
    · rw [hm] at hk hdown ⊢
      linarith
  · -- The grid is finer than a step, so that one of the multiples is nearer than half a step.
    by_cases hnear : 4 * (m : ℚ) * 2 ^ (e - 2) - down * 10 ^ k < 2 * 2 ^ (e - 2)
    · left
      refine roundsTo_of_near hm ?_ ?_
      · rw [if_neg hleast]
        linarith
      · linarith
    · right
      refine roundsTo_of_near hm ?_ ?_
      · rw [if_neg hleast]
        linarith
      · linarith

/-! ## The grids one after the other -/

/-- If the last of the grids has a multiple that rounds to the number, so does the one at which the
search ends. -/
theorem roundsTo_shortestFrom {m : Nat} {e : Int} : ∀ {tries : Nat} {k : Int},
    (onGrid? m e (k - tries)).isSome → RoundsTo m e
      (((shortestFrom m e (tries + 1) k).1 : ℚ) * 10 ^ (shortestFrom m e (tries + 1) k).2) := by
  intro tries
  induction tries with
  | zero =>
    intro k h
    rw [Nat.cast_zero, sub_zero] at h
    obtain ⟨a, ha⟩ := Option.isSome_iff_exists.mp h
    rw [shortestFrom, ha]
    exact roundsTo_of_onGrid? ha
  | succ n ih =>
    intro k h
    rw [shortestFrom]
    cases ha : onGrid? m e k with
    | some a => exact roundsTo_of_onGrid? ha
    | none =>
      refine ih ?_
      rwa [sub_sub, add_comm, ← Nat.cast_succ]

/-- Three bits take at most one decimal place. -/
theorem two_zpow_le_ten_zpow (n : Nat) : (2 : ℚ) ^ (3 * n : Int) ≤ 10 ^ (n : Int) := by
  rw [zpow_mul, zpow_natCast, zpow_natCast]
  exact pow_le_pow_left₀ (by norm_num) (by norm_num) n

theorem ten_zpow_neg_le_two_zpow_neg (n : Nat) : (10 : ℚ) ^ (-n : Int) ≤ 2 ^ (-(3 * n) : Int) := by
  rw [zpow_neg, zpow_neg]
  exact inv_anti₀ (by positivity) (two_zpow_le_ten_zpow n)

/-- Every number of the format has a place among the first 400 behind the point. -/
theorem floorGrid_pos {m : Nat} {e : Int} (hm : 0 < m) (hc : IsCanonical m e) :
    0 < floorGrid m e (-400) := by
  have hleast : (10 : ℚ) ^ (-400 : Int) ≤ m * 2 ^ e := by
    calc (10 : ℚ) ^ (-400 : Int) ≤ 2 ^ (-(3 * 400) : Int) := ten_zpow_neg_le_two_zpow_neg 400
      _ ≤ 2 ^ e := zpow_le_zpow_right₀ one_le_two (le_trans (by decide) hc.least)
      _ ≤ m * 2 ^ e := le_mul_of_one_le_left (by positivity) (by exact_mod_cast hm)
  have hup := (floorGrid_spec m e (-400)).2
  by_contra hzero
  rw [Nat.eq_zero_of_not_pos hzero, Nat.cast_one, one_mul] at hup
  linarith

theorem ten_zpow_magnitude_le {m : Nat} {e : Int} (hm : 0 < m) (hc : IsCanonical m e) :
    (10 : ℚ) ^ magnitude m e ≤ m * 2 ^ e := by
  let places := (Nat.toDigits 10 (floorGrid m e (-400))).length
  have hpositive : 0 < places := Nat.length_toDigits_pos
  have hplaces : 10 ^ (places - 1) ≤ floorGrid m e (-400) := by
    rcases Nat.eq_zero_or_pos (places - 1) with hone | hmore
    · rw [hone]
      exact floorGrid_pos hm hc
    · refine not_lt.mp (mt (Nat.length_toDigits_le_iff (by decide) hmore).mpr ?_)
      show ¬places ≤ places - 1
      omega
  have hmagnitude : magnitude m e = ((places - 1 : Nat) : Int) + -400 := by
    show (places : Int) - 401 = _
    omega
  calc (10 : ℚ) ^ magnitude m e = (10 ^ (places - 1) : Nat) * 10 ^ (-400 : Int) := by
        rw [hmagnitude, zpow_add₀ (by norm_num), zpow_natCast, Nat.cast_pow, Nat.cast_ofNat]
    _ ≤ floorGrid m e (-400) * 10 ^ (-400 : Int) :=
        mul_le_mul_of_nonneg_right (by exact_mod_cast hplaces) (by positivity)
    _ ≤ m * 2 ^ e := (floorGrid_spec m e (-400)).1

/-! ## The digits -/

theorem ofDigits_eq_ofDigitChars (cs : List Char) : ofDigits cs = Nat.ofDigitChars 10 cs 0 :=
  ofDigits_eq cs

theorem ofDigits_concat_zero (cs : List Char) : ofDigits (cs ++ ['0']) = 10 * ofDigits cs := by
  rw [ofDigits_eq_ofDigitChars, ofDigits_eq_ofDigitChars, Nat.ofDigitChars_append]
  rfl

/-- Zeros at the end can go to the exponent. -/
theorem value_stripZeros : ∀ (ds : List Char) (k : Int),
    (ofDigits (stripZeros ds k).1 : ℚ) * 10 ^ (stripZeros ds k).2 =
      ofDigits ds.reverse * 10 ^ k := by
  intro ds
  induction ds with
  | nil => exact fun _ => rfl
  | cons d ds ih =>
    intro k
    unfold stripZeros
    split
    · rename_i heq
      cases heq
      rw [ih, List.reverse_cons, ofDigits_concat_zero, zpow_add_one₀ (by norm_num)]
      push_cast
      ring
    · rfl

/-- The digits that are found, times their power of ten, round to the number. -/
theorem roundsTo_shortest {m : Nat} {e : Int} (hm : 0 < m) (hc : IsCanonical m e) :
    RoundsTo m e ((ofDigits (shortest m e).1 : ℚ) * 10 ^ (shortest m e).2) := by
  have hgrid : (10 : ℚ) ^ 16 * 10 ^ (magnitude m e - (16 : Nat)) ≤ m * 2 ^ e := by
    refine le_trans (le_of_eq ?_) (ten_zpow_magnitude_le hm hc)
    rw [← zpow_natCast, ← zpow_add₀ (by norm_num)]
    congr 1
    omega
  have hfound := roundsTo_shortestFrom (isSome_onGrid? (readsBack_neighbour hm hc hgrid))
  rw [shortest, value_stripZeros, List.reverse_reverse, ofDigits_eq_ofDigitChars,
    Nat.ofDigitChars_ten_toDigits]
  exact hfound

end PatchScript.Decimal
