import PatchScript.Proofs.Number.RoundTrip

/-!
# Whole numbers

A whole number of at most 53 bits is a number of the format as it is (`ofNat_exact`), and it is
read from its digits.  A greater one is rounded, but not below those of 53 bits (`ofNat_large`).
So whole numbers are told apart as numbers of the format as soon as one of them has at most 53
bits (`equal_ofNat_iff`).
-/

namespace PatchScript

namespace Binary64

variable {n p m : Nat} {e : Int}

theorem power_of_nonpos {b : Nat} {k : Int} (hk : k ≤ 0) : power b k = 1 := by
  rw [power, Int.toNat_of_nonpos hk]
  rfl

theorem roundQuotient_one (n : Nat) : roundQuotient n 1 = n := by
  rw [roundQuotient, Nat.mod_one, Nat.div_one]
  rfl

/-! ## Values -/

/-- Scaled integers compare as equal if their values are equal. -/
theorem compareScaled_eq_iff (x y : Int) (e f : Int) :
    compareScaled x e y f = .eq ↔ (x : ℚ) * 2 ^ e = y * 2 ^ f := by
  -- Both sides of the comparison are the values in steps of the lesser exponent.
  have steps (z k : Int) (hk : min e f ≤ k) :
      ((z * power 2 (k - min e f) : Int) : ℚ) * 2 ^ min e f = z * 2 ^ k := by
    have hpower : ((power 2 (k - min e f) : Nat) : ℚ) = 2 ^ (k - min e f) := by
      rw [power, Nat.pow_eq, Nat.cast_pow, Nat.cast_ofNat, ← zpow_natCast,
        Int.toNat_of_nonneg (by omega)]
    rw [Int.cast_mul, Int.cast_natCast, hpower, mul_assoc, ← zpow_add₀ two_ne_zero,
      sub_add_cancel]
  have hpos : (2 : ℚ) ^ min e f ≠ 0 := by positivity
  rw [compareScaled, Int.compare_eq_eq, ← steps x e (min_le_left e f),
    ← steps y f (min_le_right e f), mul_left_inj' hpos, Int.cast_inj]

/-! ## Numbers of at most 53 bits -/

theorem exponentFor_one (hn : 0 < n) : exponentFor n 1 = Nat.log2 n - 52 := by
  have hfloor : floorLog2 n 1 = Nat.log2 n := by
    refine floorLog2_eq hn Nat.one_pos ?_ ?_
    · rw [Nat.cast_one, div_one]
      exact_mod_cast Nat.log2_self_le hn.ne'
    · rw [Nat.cast_one, div_one]
      exact_mod_cast Nat.lt_log2_self
  rw [exponentFor, hfloor, minExponent]
  omega

theorem ofNat_exact (hn : 0 < n) (hlt : n < significandEnd) :
    ∃ m e, ofNat n = .finite false m e ∧ (m : ℚ) * 2 ^ e = n := by
  have hlog : Nat.log2 n < 53 := (Nat.log2_lt hn.ne').mpr hlt
  let e : Int := Nat.log2 n - 52
  have he : e ≤ 0 := by omega
  have hvalue : ((n * power 2 (-e) : Nat) : ℚ) * 2 ^ e = n := by
    have hpower := power_div_power (b := 2) (by decide) (-e)
    rw [neg_neg, power_of_nonpos he, Nat.cast_one, div_one, Nat.cast_ofNat] at hpower
    rw [Nat.cast_mul, hpower, mul_assoc, ← zpow_add₀ two_ne_zero, neg_add_cancel, zpow_zero,
      mul_one]
  have hmantissa : n * power 2 (-e) < significandEnd := by
    have hpower : power 2 (-e) = 2 ^ (52 - Nat.log2 n) := congrArg (2 ^ ·) (by omega)
    calc n * power 2 (-e) < 2 ^ (Nat.log2 n + 1) * power 2 (-e) :=
        Nat.mul_lt_mul_of_pos_right Nat.lt_log2_self (power_pos (by decide) _)
      _ = 2 ^ 53 := by
        rw [hpower, ← Nat.pow_add]
        congr 1
        omega
  refine ⟨_, e, ?_, hvalue⟩
  rw [ofNat, ofRatio, if_neg hn.ne', exponentFor_one hn]
  show (if roundQuotient (n * power 2 (-e)) (1 * power 2 e) = significandEnd then _ else
    pack false (roundQuotient (n * power 2 (-e)) (1 * power 2 e)) e) = _
  rw [power_of_nonpos he, Nat.mul_one, roundQuotient_one, if_neg hmantissa.ne]
  refine pack_eq ?_
  rw [maxExponent]
  omega

/-! ## Greater numbers -/

/-- The number is not below those of 53 bits. -/
def IsLarge (x : Binary64) : Prop :=
  x = .infinite false ∨ ∃ m e, x = .finite false m e ∧ (significandEnd : ℚ) ≤ m * 2 ^ e

theorem isLarge_pack (hm : leastSignificand ≤ m) (he : 1 ≤ e) : (pack false m e).IsLarge := by
  rw [pack]
  split
  · exact .inl rfl
  · refine .inr ⟨m, e, rfl, ?_⟩
    have hend : (significandEnd : ℚ) = leastSignificand * 2 ^ (1 : Int) := by
      norm_num [significandEnd, leastSignificand]
    calc (significandEnd : ℚ) = leastSignificand * 2 ^ (1 : Int) := hend
      _ ≤ m * 2 ^ e := mul_le_mul (by exact_mod_cast hm)
        (zpow_le_zpow_right₀ one_le_two he) (by positivity) (by positivity)

theorem ofNat_large (hn : significandEnd ≤ n) : (ofNat n).IsLarge := by
  have hpos : 0 < n := Nat.lt_of_lt_of_le (by decide) hn
  have hlog : ¬ Nat.log2 n < 53 := (Nat.log2_lt hpos.ne').not.mpr (Nat.not_lt.mpr hn)
  have he : 1 ≤ exponentFor n 1 := by
    rw [exponentFor_one hpos]
    omega
  have hfull := (significand_bounds hpos Nat.one_pos).2.resolve_right (by
    rw [minExponent]
    omega)
  rw [ofNat, ofRatio, if_neg hpos.ne']
  dsimp only
  split
  · exact isLarge_pack le_rfl (by omega)
  · exact isLarge_pack hfull he

/-! ## Equality -/

/-- A whole number of at most 53 bits equals no other one. -/
theorem equal_ofNat_iff (hn : 0 < n) (hlt : n < significandEnd) (hp : 0 < p) :
    (ofNat n).equal (ofNat p) ↔ n = p := by
  obtain ⟨m, e, hx, hvalue⟩ := ofNat_exact hn hlt
  have finite {k : Nat} {f : Int} :
      (finite false m e).equal (.finite false k f) ↔ (n : ℚ) = k * 2 ^ f := by
    rw [equal, beq_iff_eq, compare?, Option.some_inj, compareScaled_eq_iff]
    show ((m : Int) : ℚ) * 2 ^ e = ((k : Int) : ℚ) * 2 ^ f ↔ _
    rw [Int.cast_natCast, Int.cast_natCast, hvalue]
  rw [hx]
  rcases Nat.lt_or_ge p significandEnd with hsmall | hlarge
  · obtain ⟨k, f, hy, hvalue'⟩ := ofNat_exact hp hsmall
    rw [hy, finite, hvalue', Nat.cast_inj]
  · have hne : n ≠ p := (Nat.lt_of_lt_of_le hlt hlarge).ne
    refine iff_of_false ?_ hne
    rcases ofNat_large hlarge with hy | ⟨k, f, hy, hge⟩
    · rw [hy]
      exact nofun
    · rw [hy, finite]
      have hlt : (n : ℚ) < significandEnd := by exact_mod_cast hlt
      exact (hlt.trans_le hge).ne

end Binary64

/-! ## Digits -/

namespace Decimal

theorem ofDigits_toDigits (n : Nat) : ofDigits (Nat.toDigits 10 n) = n := by
  rw [ofDigits_eq_ofDigitChars]
  exact Nat.ofDigitChars_toDigits (by decide) (by decide)

/-- A whole number of at most 53 bits is read from its digits. -/
theorem number?_toDigits {n : Nat} (hn : 0 < n) (hlt : n < Binary64.significandEnd) :
    number? (Nat.toDigits 10 n) = some (.ofNat n) := by
  have hdigits : ∀ c ∈ Nat.toDigits 10 n, Text.isDigit c := fun c => isDigit_of_mem_toDigits
  have hlength : (Nat.toDigits 10 n).length ≤ 16 :=
    (Nat.length_toDigits_le_iff (by decide) (by decide)).mpr (Nat.lt_trans hlt (by decide))
  have hplaces := (List.dropWhile_sublist (· == '0') (l := Nat.toDigits 10 n)).length_le
  rw [number?_of_isPlainDigit fun c hc => .inl (hdigits c hc)]
  rw [unsigned?_whole false hdigits Nat.toDigits_ne_nil, round]
  rw [ofDigits_toDigits, if_neg (by omega), if_neg (by omega)]
  show some (Binary64.ofRatio false (n * 1) 1) = _
  rw [Nat.mul_one]
  rfl

end Decimal

end PatchScript
