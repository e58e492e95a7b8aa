import Mathlib.Algebra.Order.Field.Power
import Mathlib.Tactic.Linarith
import Mathlib.Tactic.NormNum
import Mathlib.Tactic.Ring
import PatchScript.Number.Decimal

/-!
# What quotients are rounded to

A finite number of the format stands for `m * 2 ^ e`.  The quotients that are nearer to it than to
any other number make an interval around it, and its ends belong to it if `m` is even.  Whatever
quotient lies in it is rounded to this number, however the quotient is written as one of two
integers (`ofRatio_eq`).
-/

namespace PatchScript.Binary64

/-! ## Powers -/

theorem power_pos {b : Nat} (hb : 0 < b) (k : Int) : 0 < power b k := Nat.pow_pos hb

/-- A power is the quotient of what it is on the two sides. -/
theorem power_div_power {b : Nat} (hb : 0 < b) (k : Int) :
    (power b k : ℚ) / power b (-k) = (b : ℚ) ^ k := by
  have hb : (b : ℚ) ≠ 0 := by exact_mod_cast hb.ne'
  obtain ⟨n, rfl | rfl⟩ := k.eq_nat_or_neg
  · simp [power]
  · simp [power]

/-- A power of two goes from one side of a quotient to the other. -/
theorem ratio_power (n d : Nat) (e : Int) :
    ((n * power 2 (-e) : Nat) : ℚ) / (d * power 2 e : Nat) = n / d / 2 ^ e := by
  rw [Nat.cast_mul, Nat.cast_mul, mul_div_mul_comm, div_eq_mul_inv (n / d : ℚ)]
  congr 1
  have h := power_div_power (b := 2) (by decide) e
  rw [← inv_div, h]
  rfl

/-- Powers of two in quarters of a step. -/
theorem two_zpow_eq (e k : Int) (n : Nat) (h : e - 2 + n = k) :
    (2 : ℚ) ^ k = 2 ^ n * 2 ^ (e - 2) := by
  rw [← h, zpow_add₀ two_ne_zero, zpow_natCast, mul_comm]

/-! ## Logarithms -/

theorem two_zpow_le_ratio_iff {n d : Nat} (hd : 0 < d) (k : Int) :
    d * power 2 k ≤ n * power 2 (-k) ↔ (2 : ℚ) ^ k ≤ n / d := by
  have hd : (0 : ℚ) < d := by exact_mod_cast hd
  have hpower : (0 : ℚ) < power 2 (-k) := by exact_mod_cast power_pos (by decide) (-k)
  have h := power_div_power (b := 2) (by decide) k
  rw [Nat.cast_ofNat] at h
  rw [← h, div_le_div_iff₀ hpower hd, mul_comm (power 2 k : ℚ)]
  exact_mod_cast Iff.rfl

theorem floorLog2_spec {n d : Nat} (hn : 0 < n) (hd : 0 < d) :
    (2 : ℚ) ^ floorLog2 n d ≤ n / d ∧ (n : ℚ) / d < 2 ^ (floorLog2 n d + 1) := by
  let k : Int := (Nat.log2 n : Int) - Nat.log2 d
  have hn₁ : (2 : ℚ) ^ (Nat.log2 n : Int) ≤ n := by exact_mod_cast Nat.log2_self_le hn.ne'
  have hn₂ : (n : ℚ) < 2 ^ ((Nat.log2 n : Int) + 1) := by exact_mod_cast Nat.lt_log2_self
  have hd₁ : (2 : ℚ) ^ (Nat.log2 d : Int) ≤ d := by exact_mod_cast Nat.log2_self_le hd.ne'
  have hd₂ : (d : ℚ) < 2 ^ ((Nat.log2 d : Int) + 1) := by exact_mod_cast Nat.lt_log2_self
  have hd₀ : (0 : ℚ) < d := by exact_mod_cast hd
  have habove : (n : ℚ) / d < 2 ^ (k + 1) := by
    rw [div_lt_iff₀ hd₀]
    calc (n : ℚ) < 2 ^ ((Nat.log2 n : Int) + 1) := hn₂
      _ = 2 ^ (k + 1) * 2 ^ (Nat.log2 d : Int) := by
        rw [← zpow_add₀ two_ne_zero]
        congr 1
        omega
      _ ≤ 2 ^ (k + 1) * d := by gcongr
  have hbelow : (2 : ℚ) ^ (k - 1) ≤ n / d := by
    rw [le_div_iff₀ hd₀]
    calc (2 : ℚ) ^ (k - 1) * d ≤ 2 ^ (k - 1) * 2 ^ ((Nat.log2 d : Int) + 1) := by gcongr
      _ = 2 ^ (Nat.log2 n : Int) := by
        rw [← zpow_add₀ two_ne_zero]
        congr 1
        omega
      _ ≤ n := hn₁
  unfold floorLog2
  dsimp only
  split
  · rename_i h
    exact ⟨(two_zpow_le_ratio_iff hd k).mp h, habove⟩
  · rename_i h
    rw [two_zpow_le_ratio_iff hd, not_le] at h
    exact ⟨hbelow, by rwa [sub_add_cancel]⟩

theorem floorLog2_eq {n d : Nat} (hn : 0 < n) (hd : 0 < d) {k : Int}
    (hlow : (2 : ℚ) ^ k ≤ n / d) (hhigh : (n : ℚ) / d < 2 ^ (k + 1)) : floorLog2 n d = k := by
  obtain ⟨hle, hlt⟩ := floorLog2_spec hn hd
  have h₁ := (zpow_lt_zpow_iff_right₀ one_lt_two).mp (hle.trans_lt hhigh)
  have h₂ := (zpow_lt_zpow_iff_right₀ one_lt_two).mp (hlow.trans_lt hlt)
  omega

theorem floorLog2_lt {n d : Nat} (hn : 0 < n) (hd : 0 < d) {k : Int}
    (hhigh : (n : ℚ) / d < 2 ^ k) : floorLog2 n d < k :=
  (zpow_lt_zpow_iff_right₀ one_lt_two).mp ((floorLog2_spec hn hd).1.trans_lt hhigh)

/-! ## Nearest integers -/

/-- A quotient is rounded to an integer that is not further away than a half, and nearer if it is
odd. -/
theorem roundQuotient_eq {n d q : Nat} (hd : 0 < d) (hlow : 2 * (d * q) ≤ 2 * n + d)
    (hhigh : 2 * n ≤ 2 * (d * q) + d)
    (hodd : q % 2 = 1 → 2 * (d * q) < 2 * n + d ∧ 2 * n < 2 * (d * q) + d) :
    roundQuotient n d = q := by
  have hdiv := Nat.div_add_mod n d
  have hmod := Nat.mod_lt n hd
  have hle : n / d ≤ q := by
    by_contra hlt
    have := Nat.mul_le_mul_left d (Nat.succ_le_of_lt (not_le.mp hlt))
    rw [Nat.mul_succ] at this
    omega
  have hge : q ≤ n / d + 1 := by
    by_contra hlt
    have := Nat.mul_le_mul_left d (Nat.succ_le_of_lt (not_le.mp hlt))
    rw [Nat.mul_succ, Nat.mul_succ] at this
    omega
  unfold roundQuotient
  dsimp only
  obtain rfl | rfl : q = n / d ∨ q = n / d + 1 := by omega
  · split_ifs <;> omega
  · rw [Nat.mul_succ] at hlow hhigh hodd
    split_ifs <;> omega

/-- An integer that is not further away from a quotient than a half, and nearer if it is odd. -/
structure IsNearest (q : Nat) (s : ℚ) : Prop where
  low : (q : ℚ) - 1 / 2 ≤ s
  high : s ≤ q + 1 / 2
  inside : q % 2 = 1 → (q : ℚ) - 1 / 2 < s ∧ s < q + 1 / 2

theorem IsNearest.roundQuotient_eq {n d q : Nat} (h : IsNearest q ((n : ℚ) / d)) (hd : 0 < d) :
    roundQuotient n d = q := by
  have hd' : (0 : ℚ) < d := by exact_mod_cast hd
  have hn : (n : ℚ) / d * d = n := div_mul_cancel₀ _ hd'.ne'
  have hlow := mul_le_mul_of_nonneg_right h.low hd'.le
  have hhigh := mul_le_mul_of_nonneg_right h.high hd'.le
  rw [hn] at hlow hhigh
  refine Binary64.roundQuotient_eq hd ?_ ?_ fun hodd => ?_
  · exact_mod_cast (by linarith : (2 * (d * q) : ℚ) ≤ 2 * n + d)
  · exact_mod_cast (by linarith : (2 * n : ℚ) ≤ 2 * (d * q) + d)
  · have hlow := mul_lt_mul_of_pos_right (h.inside hodd).1 hd'
    have hhigh := mul_lt_mul_of_pos_right (h.inside hodd).2 hd'
    rw [hn] at hlow hhigh
    constructor
    · exact_mod_cast (by linarith : (2 * (d * q) : ℚ) < 2 * n + d)
    · exact_mod_cast (by linarith : (2 * n : ℚ) < 2 * (d * q) + d)

/-! ## Numbers of the format -/

/-- The significand and the exponent are those that rounding gives: the significand has 53 bits,
or the exponent is the least one. -/
structure IsCanonical (m : Nat) (e : Int) : Prop where
  lt : m < significandEnd
  least : minExponent ≤ e
  greatest : e ≤ maxExponent
  full : leastSignificand ≤ m ∨ e = minExponent

theorem pack_eq {negative : Bool} {m : Nat} {e : Int} (he : e ≤ maxExponent) :
    pack negative m e = .finite negative m e := if_neg (not_lt.mpr he)

/-- The quotients that are rounded to `m * 2 ^ e`. -/
structure RoundsTo (m : Nat) (e : Int) (r : ℚ) : Prop where
  low : ((Decimal.roundingInterval m e).1 : ℚ) * 2 ^ (e - 2) ≤ r
  high : r ≤ ((Decimal.roundingInterval m e).2 : ℚ) * 2 ^ (e - 2)
  inside : m % 2 = 1 → ((Decimal.roundingInterval m e).1 : ℚ) * 2 ^ (e - 2) < r ∧
    r < ((Decimal.roundingInterval m e).2 : ℚ) * 2 ^ (e - 2)

namespace RoundsTo

variable {m : Nat} {e : Int} {r : ℚ}

theorem low_le (hm : 0 < m) : 4 * m - 2 ≤ (Decimal.roundingInterval m e).1 := by
  unfold Decimal.roundingInterval
  dsimp only
  split <;> omega

/-- The quotient in steps of the number. -/
theorem isNearest (h : RoundsTo m e r) (hm : 0 < m) : IsNearest m (r / 2 ^ e) := by
  have hstep : (0 : ℚ) < 2 ^ (e - 2) := by positivity
  have hpower : (2 : ℚ) ^ e = 4 * 2 ^ (e - 2) := by
    rw [two_zpow_eq e e 2 (by omega)]
    norm_num
  have hlow : ((4 * m - 2 : Nat) : ℚ) * 2 ^ (e - 2) ≤
      (Decimal.roundingInterval m e).1 * 2 ^ (e - 2) := by
    have := low_le (e := e) hm
    gcongr
  rw [Nat.cast_sub (by omega), Nat.cast_mul] at hlow
  have hhigh : ((Decimal.roundingInterval m e).2 : ℚ) = 4 * m + 2 := by
    simp [Decimal.roundingInterval]
  have := h.low
  have := h.high
  have := h.inside
  rw [hhigh] at *
  generalize ((Decimal.roundingInterval m e).1 : ℚ) * 2 ^ (e - 2) = low at *
  generalize (2 : ℚ) ^ (e - 2) = u at *
  push_cast at hlow
  refine ⟨?_, ?_, fun hodd => ⟨?_, ?_⟩⟩
  · rw [hpower, le_div_iff₀ (by linarith)]
    linarith
  · rw [hpower, div_le_iff₀ (by linarith)]
    linarith
  · rw [hpower, lt_div_iff₀ (by linarith)]
    linarith [(this hodd).1]
  · rw [hpower, div_lt_iff₀ (by linarith)]
    linarith [(this hodd).2]

theorem step_le (h : RoundsTo m e r) (hm : 0 < m) : 2 ^ (e - 2) ≤ r := by
  have := low_le (e := e) hm
  refine le_trans (le_mul_of_one_le_left (by positivity) ?_) h.low
  exact_mod_cast (by omega : 1 ≤ (Decimal.roundingInterval m e).1)

theorem pos (h : RoundsTo m e r) (hm : 0 < m) : 0 < r :=
  lt_of_lt_of_le (by positivity) (h.step_le hm)

/-- What rounds to a number has at most as many bits in front of the point. -/
theorem lt_zpow (h : RoundsTo m e r) (hc : IsCanonical m e) : r < 2 ^ (e + 53) := by
  refine h.high.trans_lt ?_
  rw [two_zpow_eq e (e + 53) 55 (by omega)]
  refine mul_lt_mul_of_pos_right ?_ (by positivity)
  have hhigh : (Decimal.roundingInterval m e).2 < 2 ^ 55 := by
    have := hc.lt
    unfold significandEnd at this
    simp only [Decimal.roundingInterval]
    omega
  exact_mod_cast hhigh

/-- Where it has fewer bits, the exponent is the least one, or the number is a power of two and
what rounds to it is written with the exponent below. -/
theorem short (h : RoundsTo m e r) (hc : IsCanonical m e) (hr : r < 2 ^ (e + 52)) :
    e = minExponent ∨ m = leastSignificand ∧ minExponent < e ∧
      ((significandEnd : ℚ) - 1 / 2) * 2 ^ (e - 1) ≤ r := by
  refine or_iff_not_imp_left.mpr fun he => ?_
  have he : minExponent < e := lt_of_le_of_ne hc.least (Ne.symm he)
  have hfull := hc.full.resolve_right he.ne'
  have hlow := h.low.trans_lt hr
  rw [two_zpow_eq e (e + 52) 54 (by omega)] at hlow
  have hlow : (Decimal.roundingInterval m e).1 < 2 ^ 54 := by
    exact_mod_cast lt_of_mul_lt_mul_right hlow (by positivity)
  have hm : m = leastSignificand := by
    unfold Decimal.roundingInterval leastSignificand at hlow
    unfold leastSignificand at hfull ⊢
    dsimp only at hlow
    split at hlow <;> omega
  refine ⟨hm, he, le_trans (le_of_eq ?_) h.low⟩
  have hinterval : (Decimal.roundingInterval m e).1 = 4 * leastSignificand - 1 := by
    rw [Decimal.roundingInterval, if_pos ⟨hm, he⟩, hm]
  rw [hinterval, two_zpow_eq e (e - 1) 1 (by omega)]
  norm_num [significandEnd, leastSignificand]
  ring

/-- The exponent at which it is rounded is that of the number, where it has as many bits. -/
theorem exponentFor_eq {n d : Nat} (h : RoundsTo m e ((n : ℚ) / d)) (hc : IsCanonical m e)
    (hn : 0 < n) (hd : 0 < d) (hfull : (2 : ℚ) ^ (e + 52) ≤ n / d ∨ e = minExponent) :
    exponentFor n d = e := by
  unfold exponentFor
  have hleast := hc.least
  by_cases hr : (2 : ℚ) ^ (e + 52) ≤ n / d
  · rw [floorLog2_eq hn hd hr (by rw [add_assoc]; exact h.lt_zpow hc)]
    omega
  · have hlt := floorLog2_lt hn hd (not_le.mp hr)
    have := hfull.resolve_left hr
    omega

end RoundsTo

/-- What rounds to a number is rounded to it. -/
theorem ofRatio_eq {m : Nat} {e : Int} {n d : Nat} (negative : Bool) (hc : IsCanonical m e)
    (hm : 0 < m) (hd : 0 < d) (h : RoundsTo m e ((n : ℚ) / d)) :
    ofRatio negative n d = .finite negative m e := by
  have hn : 0 < n := by
    by_contra hn
    have := h.pos hm
    rw [Nat.eq_zero_of_not_pos hn] at this
    simp at this
  have hd₂ (k : Int) : 0 < d * power 2 k := Nat.mul_pos hd (power_pos (by decide) k)
  rw [ofRatio, if_neg hn.ne']
  dsimp only
  by_cases hfull : (2 : ℚ) ^ (e + 52) ≤ n / d ∨ e = minExponent
  · rw [h.exponentFor_eq hc hn hd hfull]
    have hnearest := h.isNearest hm
    rw [← ratio_power] at hnearest
    rw [hnearest.roundQuotient_eq (hd₂ e), if_neg hc.lt.ne]
    exact pack_eq hc.greatest
  · obtain ⟨hr, he⟩ := not_or.mp hfull
    have hr := not_le.mp hr
    obtain ⟨rfl, he, hlow⟩ := (h.short hc hr).resolve_left he
    -- The significand at the exponent below has 53 bits and is rounded up to 54.
    have hpower (k : Int) : (0 : ℚ) < 2 ^ k := by positivity
    have hexponent : exponentFor n d = e - 1 := by
      have hlog : floorLog2 n d = e + 51 := by
        refine floorLog2_eq hn hd (le_trans ?_ hlow) (by rwa [add_assoc])
        rw [show e + 51 = 52 + (e - 1) by ring, zpow_add₀ two_ne_zero]
        exact mul_le_mul_of_nonneg_right (by norm_num [significandEnd]) (hpower _).le
      unfold exponentFor
      omega
    have hnearest : IsNearest significandEnd (n / d / 2 ^ (e - 1)) := by
      refine ⟨(le_div_iff₀ (hpower _)).mpr hlow, ?_, nofun⟩
      rw [div_le_iff₀ (hpower _)]
      refine hr.le.trans ?_
      rw [show e + 52 = 53 + (e - 1) by ring, zpow_add₀ two_ne_zero]
      exact mul_le_mul_of_nonneg_right (by norm_num [significandEnd]) (hpower _).le
    rw [← ratio_power] at hnearest
    rw [hexponent, hnearest.roundQuotient_eq (hd₂ _), if_pos rfl, sub_add_cancel]
    exact pack_eq hc.greatest

/-! ## What rounding gives -/

/-- The number is not finite, or its significand and its exponent are those that rounding gives. -/
def Canonical : Binary64 → Prop
  | .finite _ m e => IsCanonical m e
  | _ => True

theorem canonical_zero (negative : Bool) : (zero negative).Canonical :=
  ⟨by decide, le_rfl, by decide, .inr rfl⟩

theorem canonical_pack (negative : Bool) {m : Nat} {e : Int} (hm : m < significandEnd)
    (hleast : minExponent ≤ e) (hfull : leastSignificand ≤ m ∨ e = minExponent) :
    (pack negative m e).Canonical := by
  rw [pack]
  split
  · exact trivial
  · rename_i hgreatest
    exact ⟨hm, hleast, not_lt.mp hgreatest, hfull⟩

theorem le_roundQuotient (n d : Nat) : n / d ≤ roundQuotient n d := by
  unfold roundQuotient
  dsimp only
  split_ifs <;> omega

theorem roundQuotient_le {n d q : Nat} (h : n < d * q) : roundQuotient n d ≤ q := by
  have hlt : n / d < q := Nat.div_lt_of_lt_mul h
  unfold roundQuotient
  dsimp only
  split_ifs <;> omega

/-- The significand that is rounded to has at most 53 bits, or is the least one of 54, and it has
53 bits unless the exponent is the least one. -/
theorem significand_bounds {n d : Nat} (hn : 0 < n) (hd : 0 < d) :
    let e := exponentFor n d
    let m := roundQuotient (n * power 2 (-e)) (d * power 2 e)
    m ≤ significandEnd ∧ (leastSignificand ≤ m ∨ e = minExponent) := by
  intro e m
  obtain ⟨hlow, hhigh⟩ := floorLog2_spec hn hd
  have hpower : (0 : ℚ) < 2 ^ e := by positivity
  have hden : 0 < d * power 2 e := Nat.mul_pos hd (power_pos (by decide) e)
  have hden' : (0 : ℚ) < (d * power 2 e : Nat) := by exact_mod_cast hden
  have hratio := ratio_power n d e
  constructor
  · refine roundQuotient_le ?_
    have hlt : (n : ℚ) / d / 2 ^ e < significandEnd := by
      rw [div_lt_iff₀ hpower]
      refine hhigh.trans_le ?_
      rw [show (significandEnd : ℚ) = 2 ^ (53 : Int) by norm_num [significandEnd],
        ← zpow_add₀ two_ne_zero]
      refine zpow_le_zpow_right₀ one_le_two ?_
      have : floorLog2 n d - 52 ≤ e := le_max_left _ _
      omega
    rw [← hratio, div_lt_iff₀ hden'] at hlt
    rw [mul_comm (d * power 2 e)]
    exact_mod_cast hlt
  · refine or_iff_not_imp_right.mpr fun he => ?_
    have he : e = floorLog2 n d - 52 := (max_choice _ _).resolve_right he
    have hle : (leastSignificand : ℚ) ≤ n / d / 2 ^ e := by
      rw [le_div_iff₀ hpower]
      refine le_trans (le_of_eq ?_) hlow
      rw [show (leastSignificand : ℚ) = 2 ^ (52 : Int) by norm_num [leastSignificand],
        ← zpow_add₀ two_ne_zero]
      congr 1
      omega
    rw [← hratio, le_div_iff₀ hden'] at hle
    refine le_trans ((Nat.le_div_iff_mul_le hden).mpr ?_) (le_roundQuotient _ _)
    exact_mod_cast hle

theorem canonical_ofRatio (negative : Bool) (n : Nat) {d : Nat} (hd : 0 < d) :
    (ofRatio negative n d).Canonical := by
  have hleast : minExponent ≤ exponentFor n d := le_max_right _ _
  rw [ofRatio]
  split
  · exact canonical_zero negative
  · rename_i hn
    obtain ⟨hle, hfull⟩ := significand_bounds (Nat.pos_of_ne_zero hn) hd
    dsimp only
    split
    · exact canonical_pack negative (by decide) (by omega) (.inl le_rfl)
    · rename_i hne
      exact canonical_pack negative (lt_of_le_of_ne hle hne) hleast hfull

end PatchScript.Binary64
