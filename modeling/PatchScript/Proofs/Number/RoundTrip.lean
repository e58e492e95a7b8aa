import Mathlib.Data.List.TakeWhile
import PatchScript.Proofs.Number.Layout
import PatchScript.Proofs.Number.Shortest

/-!
# Numbers that are written and read again

A number is written with digits that round to it, and reading rounds what the digits denote.  So a
finite number is read from what it is written as (`number?_render`).  That goes for every number
that is read from a text (`number?_render_of_number?`), since rounding leaves no other pairs of
significand and exponent than those that are looked for.
-/

namespace PatchScript.Decimal

open Binary64 (power power_pos power_div_power RoundsTo IsCanonical)

/-! ## Digits -/

theorem digit_lt_ten {c : Char} (hc : Text.isDigit c) : digit c < 10 := by
  have hrange := isDigit_iff.mp hc
  show c.toNat - 48 < 10
  omega

theorem digit_pos {c : Char} (hc : Text.isDigit c) (hzero : c ≠ '0') : 0 < digit c := by
  have hrange := isDigit_iff.mp hc
  have hne : c.toNat ≠ 48 := fun h => hzero (Char.ext (UInt32.toNat_inj.mp h))
  show 0 < c.toNat - 48
  omega

theorem ofDigits_cons (c : Char) (cs : List Char) :
    ofDigits (c :: cs) = 10 ^ cs.length * digit c + ofDigits cs := by
  rw [ofDigits_eq_ofDigitChars, ofDigits_eq_ofDigitChars, Nat.ofDigitChars_cons,
    Nat.ofDigitChars_eq_ofDigitChars_zero, Nat.mul_zero, Nat.zero_add]
  rfl

theorem ofDigits_append_zeros (cs : List Char) (n : Nat) :
    ofDigits (cs ++ List.replicate n '0') = ofDigits cs * 10 ^ n := by
  rw [ofDigits_eq_ofDigitChars, ofDigits_eq_ofDigitChars, Nat.ofDigitChars_append,
    Nat.ofDigitChars_replicate_zero, Nat.mul_comm]

theorem ofDigits_zeros_append (n : Nat) (cs : List Char) :
    ofDigits (List.replicate n '0' ++ cs) = ofDigits cs := by
  rw [ofDigits_eq_ofDigitChars, ofDigits_eq_ofDigitChars, Nat.ofDigitChars_append,
    Nat.ofDigitChars_replicate_zero, Nat.mul_zero]

theorem ofDigits_dropWhile_zero (cs : List Char) :
    ofDigits (cs.dropWhile (· == '0')) = ofDigits cs := by
  induction cs with
  | nil => rfl
  | cons c cs ih =>
    by_cases hc : c = '0'
    · subst hc
      rw [List.dropWhile_cons_of_pos (by decide), ih]
      exact (ofDigits_zeros_append 1 cs).symm
    · rw [List.dropWhile_cons_of_neg (by simpa using hc)]

theorem ofDigits_lt {cs : List Char} (h : ∀ c ∈ cs, Text.isDigit c) :
    ofDigits cs < 10 ^ cs.length := by
  induction cs with
  | nil => exact Nat.one_pos
  | cons c cs ih =>
    obtain ⟨hc, hcs⟩ := List.forall_mem_cons.mp h
    have hrest := ih hcs
    have hfirst := Nat.mul_le_mul_left (10 ^ cs.length) (Nat.le_of_lt_succ (digit_lt_ten hc))
    rw [ofDigits_cons, List.length_cons, Nat.pow_succ]
    omega

theorem pow_le_ofDigits {c : Char} (hc : Text.isDigit c) (hzero : c ≠ '0') (cs : List Char) :
    10 ^ cs.length ≤ ofDigits (c :: cs) := by
  rw [ofDigits_cons]
  exact Nat.le_add_right_of_le (Nat.le_mul_of_pos_right _ (digit_pos hc hzero))

/-! ## Digits that round to a number -/

/-- The places that a number of the format takes are no more than reading allows. -/
theorem places_of_roundsTo {m n places : Nat} {e scale : Int} (hm : 0 < m) (hc : IsCanonical m e)
    (h : RoundsTo m e ((n : ℚ) * 10 ^ scale)) (hlow : 10 ^ places ≤ n)
    (hhigh : n < 10 ^ (places + 1)) :
    -400 < (places + 1 : Nat) + scale ∧ (places + 1 : Nat) + scale ≤ 400 := by
  have hleast : -1074 ≤ e := hc.least
  have hgreatest : e ≤ 971 := hc.greatest
  have hscale : (0 : ℚ) < 10 ^ scale := by positivity
  have hten (k : Nat) : (10 : ℚ) ^ ((k : Int) + scale) = (10 ^ k : Nat) * 10 ^ scale := by
    rw [zpow_add₀ (by norm_num), zpow_natCast, Nat.cast_pow, Nat.cast_ofNat]
  have habove : (10 : ℚ) ^ (-400 : Int) < 10 ^ ((places + 1 : Nat) + scale) := by
    calc (10 : ℚ) ^ (-400 : Int) ≤ 2 ^ (-(3 * 400) : Int) := ten_zpow_neg_le_two_zpow_neg 400
      _ ≤ 2 ^ (e - 2) := zpow_le_zpow_right₀ one_le_two (by omega)
      _ ≤ n * 10 ^ scale := h.step_le hm
      _ < (10 ^ (places + 1) : Nat) * 10 ^ scale :=
        mul_lt_mul_of_pos_right (by exact_mod_cast hhigh) hscale
      _ = 10 ^ ((places + 1 : Nat) + scale) := (hten _).symm
  have hbelow : (10 : ℚ) ^ ((places : Int) + scale) < 10 ^ (400 : Int) := by
    calc (10 : ℚ) ^ ((places : Int) + scale) = (10 ^ places : Nat) * 10 ^ scale := hten _
      _ ≤ n * 10 ^ scale := mul_le_mul_of_nonneg_right (by exact_mod_cast hlow) hscale.le
      _ < 2 ^ (e + 53) := h.lt_zpow hc
      _ ≤ 2 ^ (3 * 400 : Int) := zpow_le_zpow_right₀ one_le_two (by omega)
      _ ≤ 10 ^ (400 : Int) := two_zpow_le_ten_zpow 400
  have hlt := (zpow_lt_zpow_iff_right₀ (by norm_num)).mp hbelow
  exact ⟨(zpow_lt_zpow_iff_right₀ (by norm_num)).mp habove, by omega⟩

/-- Digits that denote a quotient that rounds to a number are read as the number. -/
theorem round_eq {m : Nat} {e scale : Int} {digits : List Char} (negative : Bool) (hm : 0 < m)
    (hc : IsCanonical m e) (hdigits : ∀ c ∈ digits, Text.isDigit c)
    (h : RoundsTo m e ((ofDigits digits : ℚ) * 10 ^ scale)) :
    round negative digits scale = .finite negative m e := by
  have hn : ofDigits digits ≠ 0 := by
    intro hzero
    have := h.pos hm
    rw [hzero, Nat.cast_zero, zero_mul] at this
    exact lt_irrefl _ this
  have hvalue := ofDigits_dropWhile_zero digits
  have hplaces : -400 < ((digits.dropWhile (· == '0')).length : Int) + scale ∧
      ((digits.dropWhile (· == '0')).length : Int) + scale ≤ 400 := by
    cases hsignificant : digits.dropWhile (· == '0') with
    | nil =>
      rw [hsignificant] at hvalue
      exact absurd hvalue.symm hn
    | cons c cs =>
      have hall : ∀ b ∈ c :: cs, Text.isDigit b := fun b hb =>
        hdigits b ((List.dropWhile_sublist _).subset (hsignificant ▸ hb))
      have hzero : c ≠ '0' := by
        have := List.head_dropWhile_not (· == '0') (hsignificant ▸ List.cons_ne_nil c cs)
        simpa [hsignificant] using this
      rw [hsignificant] at hvalue
      rw [← hvalue] at h
      exact places_of_roundsTo hm hc h (pow_le_ofDigits (hall c List.mem_cons_self) hzero cs)
        (ofDigits_lt hall)
  have hratio : (((ofDigits digits * power 10 scale : Nat) : ℚ) / power 10 (-scale) : ℚ) =
      ofDigits digits * 10 ^ scale := by
    rw [Nat.cast_mul, mul_div_assoc, power_div_power (by decide), Nat.cast_ofNat]
  rw [round]
  rw [if_neg (not_or.mpr ⟨hn, by omega⟩), if_neg (by omega)]
  exact Binary64.ofRatio_eq negative hc hm (power_pos (by decide) _) (hratio ▸ h)

/-! ## Layouts -/

variable {whole part digits : List Char} {k : Int}

theorem unsigned?_whole (negative : Bool) (hwhole : ∀ c ∈ whole, Text.isDigit c)
    (hne : whole ≠ []) : unsigned? negative whole = some (round negative whole 0) := by
  have htake : whole.takeWhile Text.isDigit = whole := List.takeWhile_eq_self_iff.mpr hwhole
  have hdrop : whole.dropWhile Text.isDigit = [] := List.dropWhile_eq_nil_iff.mpr hwhole
  rw [unsigned?]
  dsimp only
  rw [htake, hdrop]
  dsimp only
  rw [if_neg fun h => hne h.1, List.append_nil]
  rfl

theorem unsigned?_parts (negative : Bool) (hwhole : ∀ c ∈ whole, Text.isDigit c)
    (hpart : ∀ c ∈ part, Text.isDigit c) (hne : whole ≠ []) :
    unsigned? negative (whole ++ '.' :: part) =
      some (round negative (whole ++ part) (-part.length)) := by
  have htake : (whole ++ '.' :: part).takeWhile Text.isDigit = whole := by
    rw [List.takeWhile_append_of_pos hwhole, List.takeWhile_cons_of_neg (by decide),
      List.append_nil]
  have hdrop : (whole ++ '.' :: part).dropWhile Text.isDigit = '.' :: part := by
    rw [List.dropWhile_append_of_pos hwhole, List.dropWhile_cons_of_neg (by decide)]
  rw [unsigned?]
  dsimp only
  rw [htake, hdrop]
  show (if whole = [] ∧ part.takeWhile Text.isDigit = [] then none else
    (exponent? (part.dropWhile Text.isDigit)).map fun e => round negative
      (whole ++ part.takeWhile Text.isDigit) (e - (part.takeWhile Text.isDigit).length)) = _
  rw [List.takeWhile_eq_self_iff.mpr hpart, List.dropWhile_eq_nil_iff.mpr hpart,
    if_neg fun h => hne h.1]
  show some (round negative (whole ++ part) (0 - part.length)) = _
  rw [zero_sub]

/-- Digits that are laid out without an exponent are read as digits that denote the same. -/
theorem unsigned?_positional (negative : Bool) (hdigits : ∀ c ∈ digits, Text.isDigit c)
    (hne : digits ≠ []) : ∃ digits' scale,
      unsigned? negative (positional digits k) = some (round negative digits' scale) ∧
      (∀ c ∈ digits', Text.isDigit c) ∧
      (ofDigits digits' : ℚ) * 10 ^ scale = ofDigits digits * 10 ^ k := by
  have zeros (n : Nat) : ∀ c ∈ List.replicate n '0', Text.isDigit c := by
    intro c hc
    rw [List.eq_of_mem_replicate hc]
    rfl
  unfold positional
  split
  · rename_i hk
    have hall := List.forall_mem_append.mpr ⟨hdigits, zeros k.toNat⟩
    refine ⟨_, 0, unsigned?_whole negative hall (by simp [hne]), hall, ?_⟩
    rw [ofDigits_append_zeros, zpow_zero, mul_one, Nat.cast_mul, Nat.cast_pow, Nat.cast_ofNat,
      ← zpow_natCast, Int.toNat_of_nonneg hk]
  · rename_i hk
    dsimp only
    split
    · rename_i hplaces
      let whole := digits.length - (-k).toNat
      have hwhole : ∀ c ∈ digits.take whole, Text.isDigit c := fun c hc =>
        hdigits c (List.mem_of_mem_take hc)
      have hpart : ∀ c ∈ digits.drop whole, Text.isDigit c := fun c hc =>
        hdigits c (List.mem_of_mem_drop hc)
      have hsome : digits.take whole ≠ [] := by
        rw [Ne, List.take_eq_nil_iff, not_or]
        exact ⟨Nat.sub_ne_zero_of_lt hplaces, hne⟩
      have hread := unsigned?_parts negative hwhole hpart hsome
      refine ⟨_, _, hread, List.forall_mem_append.mpr ⟨hwhole, hpart⟩, ?_⟩
      rw [List.take_append_drop, List.length_drop]
      congr 2
      show -((digits.length - (digits.length - (-k).toNat) : Nat) : Int) = k
      omega
    · rename_i hplaces
      let part := List.replicate ((-k).toNat - digits.length) '0' ++ digits
      have hpart : ∀ c ∈ part, Text.isDigit c := List.forall_mem_append.mpr ⟨zeros _, hdigits⟩
      have hread := unsigned?_parts negative (zeros 1) hpart (List.cons_ne_nil _ _)
      refine ⟨_, _, hread, List.forall_mem_append.mpr ⟨zeros 1, hpart⟩, ?_⟩
      rw [ofDigits_zeros_append, ofDigits_zeros_append, List.length_append, List.length_replicate]
      congr 2
      omega

/-- A text that starts with a digit behind its sign is no name. -/
theorem number?_sign (negative : Bool) {c : Char} (hc : Text.isDigit c) (cs : List Char) :
    number? (sign negative ++ c :: cs) = unsigned? negative (c :: cs) := by
  have hlower : c.toLower = c := toLower_of_isPlainDigit (.inl hc)
  have hname {name : String} {d : Char} {ds : List Char} (hd : name.toList = d :: ds)
      (hdigit : ¬Text.isDigit d) : String.ofList ((c :: cs).map Char.toLower) ≠ name := by
    intro h
    have hlist := congrArg String.toList h
    rw [String.toList_ofList, hd, List.map_cons, hlower] at hlist
    exact hdigit ((List.cons.inj hlist).1 ▸ hc)
  have hread : ∀ b, (if String.ofList ((c :: cs).map Char.toLower) = "inf" ∨
      String.ofList ((c :: cs).map Char.toLower) = "infinity" then some (.infinite b)
      else if String.ofList ((c :: cs).map Char.toLower) = "nan" then some .nan
      else unsigned? b (c :: cs)) = unsigned? b (c :: cs) := by
    intro b
    rw [if_neg (not_or.mpr ⟨hname (d := 'i') rfl (by decide), hname (d := 'i') rfl (by decide)⟩),
      if_neg (hname (d := 'n') rfl (by decide))]
  cases negative with
  | true => exact hread true
  | false =>
    have hplain {b : Char} (hb : ¬Text.isDigit b) (ds : List Char) : c :: cs ≠ b :: ds :=
      fun h => hb ((List.cons.inj h).1 ▸ hc)
    show number? (c :: cs) = _
    rw [number?]
    · exact hread false
    · exact hplain (by decide)
    · exact hplain (by decide)

theorem exists_digit_of_positional (hdigits : ∀ c ∈ digits, Text.isDigit c) (hne : digits ≠ [])
    (k : Int) : ∃ c cs, positional digits k = c :: cs ∧ Text.isDigit c := by
  obtain ⟨d, ds, rfl⟩ := List.exists_cons_of_ne_nil hne
  have hd := hdigits d List.mem_cons_self
  unfold positional
  split
  · exact ⟨d, _, rfl, hd⟩
  · dsimp only
    split
    · rename_i hplaces
      obtain ⟨n, hn⟩ := Nat.exists_eq_succ_of_ne_zero (Nat.sub_ne_zero_of_lt hplaces)
      rw [hn]
      exact ⟨d, _, rfl, hd⟩
    · exact ⟨'0', _, rfl, rfl⟩

/-! ## Numbers -/

/-- A finite number is read from what it is written as. -/
theorem number?_render (negative : Bool) {m : Nat} {e : Int} (hc : IsCanonical m e) :
    number? (Binary64.finite negative m e).render.toList = some (.finite negative m e) := by
  rw [Binary64.render]
  split
  · rename_i hzero
    subst hzero
    have he : e = Binary64.minExponent := hc.full.resolve_left (by decide)
    subst he
    rw [String.toList_ofList, number?_sign negative rfl]
    exact unsigned?_whole negative (List.forall_mem_singleton.mpr rfl) (List.cons_ne_nil _ _)
  · rename_i hm
    have hm := Nat.pos_of_ne_zero hm
    have hrounds := roundsTo_shortest hm hc
    have hne : (shortest m e).1 ≠ [] := by
      intro hnil
      have := hrounds.pos hm
      rw [hnil, show ofDigits [] = 0 from rfl, Nat.cast_zero, zero_mul] at this
      exact lt_irrefl _ this
    have hdigits : ∀ c ∈ (shortest m e).1, Text.isDigit c := fun c => isDigit_of_mem_shortest
    obtain ⟨c, cs, hpositional, hfirst⟩ := exists_digit_of_positional hdigits hne (shortest m e).2
    obtain ⟨digits, scale, hread, hall, hvalue⟩ :=
      unsigned?_positional (k := (shortest m e).2) negative hdigits hne
    rw [String.toList_ofList, hpositional, number?_sign negative hfirst, ← hpositional, hread]
    exact congrArg some (round_eq negative hm hc hall (hvalue ▸ hrounds))

/-! ## Numbers that are read -/

theorem canonical_round (negative : Bool) (digits : List Char) (scale : Int) :
    (round negative digits scale).Canonical := by
  rw [round]
  split
  · exact Binary64.canonical_zero negative
  · split
    · exact trivial
    · exact Binary64.canonical_ofRatio negative _ (power_pos (by decide) _)

theorem canonical_of_number? {cs : List Char} {x : Binary64} (h : number? cs = some x) :
    x.Canonical := by
  have named : ∀ (name : String) (negative : Bool) (body : List Char),
      (if name = "inf" ∨ name = "infinity" then some (.infinite negative)
        else if name = "nan" then some .nan else unsigned? negative body) = some x →
      x.Canonical := by
    intro name negative body h
    split at h
    · cases h
      exact trivial
    · split at h
      · cases h
        exact trivial
      · obtain ⟨digits, scale, rfl⟩ := exists_round_of_unsigned? h
        exact canonical_round negative digits scale
  unfold number? at h
  exact named _ _ _ h

/-- A number that is read from a text, if it is finite, is read again from what it is written as. -/
theorem number?_render_of_number? {cs : List Char} {x : Binary64} (h : number? cs = some x)
    (hfinite : x.isFinite) : number? x.render.toList = some x := by
  have hc := canonical_of_number? h
  cases x with
  | nan => cases hfinite
  | infinite negative => cases hfinite
  | finite negative m e => exact number?_render negative hc

end PatchScript.Decimal
