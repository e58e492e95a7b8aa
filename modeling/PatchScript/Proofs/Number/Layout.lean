import PatchScript.Number.Decimal

/-!
# How a number that has no sign is written

A text of digits and points denotes no negative number and is not not-a-number.  If the number it
denotes is finite, that number is written with digits and points again.
-/

namespace PatchScript

theorem isDigit_iff {c : Char} : Text.isDigit c ↔ 48 ≤ c.toNat ∧ c.toNat ≤ 57 := by
  rw [Text.isDigit, Bool.and_eq_true, decide_eq_true_eq, decide_eq_true_eq]
  exact Iff.rfl

/-- Is the character one that numbers without a sign and an exponent are written with? -/
def IsPlainDigit (c : Char) : Prop := Text.isDigit c ∨ c = '.'

theorem mem_of_isPlainDigit {c : Char} (h : IsPlainDigit c) : c ∈ "0123456789.".toList := by
  rcases h with h | rfl
  · have every : ∀ n < 58, 48 ≤ n → Char.ofNat n ∈ "0123456789.".toList := by decide
    obtain ⟨hlow, hhigh⟩ := isDigit_iff.mp h
    have hc := every c.toNat (Nat.lt_succ_of_le hhigh) hlow
    rwa [Char.ofNat_toNat] at hc
  · decide

namespace Decimal

/-! ## Writing -/

theorem isDigit_of_mem_toDigits {n : Nat} {c : Char} (h : c ∈ Nat.toDigits 10 n) :
    Text.isDigit c := by
  have hdigit := Nat.isDigit_of_mem_toDigits (by decide) (by decide) h
  simpa [Char.isDigit, Text.isDigit, Char.le_def] using hdigit

theorem mem_of_mem_stripZeros {c : Char} : ∀ {ds : List Char} {k : Int},
    c ∈ (stripZeros ds k).1 → c ∈ ds := by
  intro ds
  induction ds with
  | nil => exact fun h => h
  | cons d ds ih =>
    intro k h
    unfold stripZeros at h
    split at h
    · rename_i heq
      cases heq
      exact List.mem_cons_of_mem _ (ih h)
    · exact List.mem_reverse.mp h

theorem isDigit_of_mem_shortest {m : Nat} {e : Int} {c : Char} (h : c ∈ (shortest m e).1) :
    Text.isDigit c :=
  isDigit_of_mem_toDigits (List.mem_reverse.mp (mem_of_mem_stripZeros h))

theorem isPlainDigit_of_mem_positional {digits : List Char} {k : Int} {c : Char}
    (hdigits : ∀ d ∈ digits, Text.isDigit d) (h : c ∈ positional digits k) : IsPlainDigit c := by
  have zero : IsPlainDigit '0' := .inl rfl
  unfold positional at h
  split at h
  · rcases List.mem_append.mp h with h | h
    · exact .inl (hdigits c h)
    · rwa [List.eq_of_mem_replicate h]
  · dsimp only at h
    split at h
    · rcases List.mem_append.mp h with h | h
      · exact .inl (hdigits c (List.mem_of_mem_take h))
      · rcases List.mem_cons.mp h with h | h
        · exact .inr h
        · exact .inl (hdigits c (List.mem_of_mem_drop h))
    · simp only [List.cons_append, List.mem_cons, List.mem_append] at h
      rcases h with rfl | h | h | h
      · exact zero
      · exact .inr h
      · rwa [List.eq_of_mem_replicate h]
      · exact .inl (hdigits c h)

theorem isPlainDigit_of_mem_render {m : Nat} {e : Int} {c : Char}
    (h : c ∈ (Binary64.finite false m e).render.toList) : IsPlainDigit c := by
  rw [Binary64.render] at h
  split at h
  · simp only [sign, Bool.false_eq_true, if_false, List.nil_append, String.toList_ofList,
      List.mem_singleton] at h
    rw [h]
    exact .inl rfl
  · rw [String.toList_ofList] at h
    exact isPlainDigit_of_mem_positional (fun d => isDigit_of_mem_shortest) h

end Decimal

/-! ## Reading -/

/-- A number that is not below zero. -/
inductive Binary64.Unsigned : Binary64 → Prop where
  | infinite : Unsigned (.infinite false)
  | finite {m : Nat} {e : Int} : Unsigned (.finite false m e)

namespace Decimal

theorem unsigned_pack (m : Nat) (e : Int) : (Binary64.pack false m e).Unsigned := by
  rw [Binary64.pack]
  split
  · exact .infinite
  · exact .finite

theorem unsigned_ofRatio (n d : Nat) : (Binary64.ofRatio false n d).Unsigned := by
  rw [Binary64.ofRatio]
  split
  · exact .finite
  · dsimp only
    split
    · exact unsigned_pack _ _
    · exact unsigned_pack _ _

theorem unsigned_round (digits : List Char) (scale : Int) :
    (round false digits scale).Unsigned := by
  rw [round]
  split
  · exact .finite
  · split
    · exact .infinite
    · exact unsigned_ofRatio _ _

/-- Digits with a point and an exponent are read by rounding. -/
theorem exists_round_of_unsigned? {negative : Bool} {cs : List Char} {x : Binary64}
    (h : unsigned? negative cs = some x) : ∃ digits scale, x = round negative digits scale := by
  let whole := cs.takeWhile Text.isDigit
  have rounded : ∀ part rest, (if whole = [] ∧ part = [] then none
      else (exponent? rest).map fun e => round negative (whole ++ part) (e - part.length)) =
        some x → ∃ digits scale, x = round negative digits scale := by
    intro part rest h
    split at h
    · cases h
    · obtain ⟨e, -, rfl⟩ := Option.map_eq_some_iff.mp h
      exact ⟨_, _, rfl⟩
  rw [unsigned?] at h
  dsimp only at h
  split at h
  · exact rounded _ _ h
  · exact rounded _ _ h

theorem toLower_of_isPlainDigit {c : Char} (h : IsPlainDigit c) : c.toLower = c := by
  have every : ("0123456789.".toList.all fun b => b.toLower == b) = true := by decide
  exact eq_of_beq (List.all_eq_true.mp every c (mem_of_isPlainDigit h))

/-- A text of digits and points has no sign and is no name. -/
theorem number?_of_isPlainDigit {cs : List Char} (hcs : ∀ c ∈ cs, IsPlainDigit c) :
    number? cs = unsigned? false cs := by
  have notPlain {c : Char} {ds : List Char} (hc : c ∉ "0123456789.".toList) : cs ≠ c :: ds := by
    rintro rfl
    exact hc (mem_of_isPlainDigit (hcs c List.mem_cons_self))
  have notName {name : String} {c : Char} {ds : List Char} (hname : name.toList = c :: ds)
      (hc : c ∉ "0123456789.".toList) : String.ofList cs ≠ name := by
    rintro rfl
    exact notPlain hc (String.toList_ofList.symm.trans hname)
  have hlower : cs.map Char.toLower = cs :=
    (List.map_congr_left fun c hc => toLower_of_isPlainDigit (hcs c hc)).trans cs.map_id
  rw [number?]
  · rw [hlower, if_neg (not_or.mpr ⟨notName (c := 'i') rfl (by decide),
      notName (c := 'i') rfl (by decide)⟩), if_neg (notName (c := 'n') rfl (by decide))]
  · exact fun ds => notPlain (by decide)
  · exact fun ds => notPlain (by decide)

/-- A text of digits and points denotes a number that is not below zero. -/
theorem unsigned_of_number? {cs : List Char} {x : Binary64} (hcs : ∀ c ∈ cs, IsPlainDigit c)
    (h : number? cs = some x) : x.Unsigned := by
  rw [number?_of_isPlainDigit hcs] at h
  obtain ⟨digits, scale, rfl⟩ := exists_round_of_unsigned? h
  exact unsigned_round digits scale

/-- What is left of digits and points where the digits end starts with a point. -/
theorem dropWhile_isDigit_cases {cs : List Char} (hcs : ∀ c ∈ cs, IsPlainDigit c) :
    cs.dropWhile Text.isDigit = [] ∨ ∃ ds, cs.dropWhile Text.isDigit = '.' :: ds := by
  cases hrest : cs.dropWhile Text.isDigit with
  | nil => exact .inl rfl
  | cons c ds =>
    have hhead := List.head?_dropWhile_not Text.isDigit cs
    have hmem : c ∈ cs.dropWhile Text.isDigit := hrest ▸ List.mem_cons_self
    rw [hrest] at hhead
    rcases hcs c ((List.dropWhile_suffix _).subset hmem) with hdigit | rfl
    · simp [hdigit] at hhead
    · exact .inr ⟨ds, rfl⟩

/-- Where there are only digits, there is none if there is nothing. -/
theorem no_digit_iff {ds : List Char} (h : ∀ c ∈ ds, Text.isDigit c) :
    (∀ c ∈ ds, Text.isDigit c = false) ↔ ds = [] := by
  cases ds with
  | nil => simp
  | cons d ds => simp [h d List.mem_cons_self]

/-- Digits and points denote no number if and only if there is no digit, or more than one point. -/
theorem number?_eq_none_iff {cs : List Char} (hcs : ∀ c ∈ cs, IsPlainDigit c) :
    number? cs = none ↔ (∀ c ∈ cs, Text.isDigit c = false) ∨ 1 < cs.count '.' := by
  have hdigits (ds : List Char) : ∀ c ∈ ds.takeWhile Text.isDigit, Text.isDigit c := fun c hc =>
    List.all_eq_true.mp List.all_takeWhile c hc
  have hcount (ds : List Char) : (ds.takeWhile Text.isDigit).count '.' = 0 :=
    List.count_eq_zero.mpr fun hmem => absurd (hdigits ds '.' hmem) (by decide)
  have split (ds : List Char) : ds = ds.takeWhile Text.isDigit ++ ds.dropWhile Text.isDigit :=
    List.takeWhile_append_dropWhile.symm
  rw [number?_of_isPlainDigit hcs, unsigned?]
  rcases dropWhile_isDigit_cases hcs with hrest | ⟨ds, hrest⟩
  · -- There is no point.
    have hall : cs = cs.takeWhile Text.isDigit := by simpa [hrest] using split cs
    rw [hrest, hall, no_digit_iff (hdigits cs), hcount cs]
    simp [exponent?, ← hall]
  · have hcs' : cs = cs.takeWhile Text.isDigit ++ '.' :: ds := hrest ▸ split cs
    have hds (c : Char) (hc : c ∈ ds) : IsPlainDigit c := hcs c (by rw [hcs']; simp [hc])
    rw [hrest]
    show (if cs.takeWhile Text.isDigit = [] ∧ ds.takeWhile Text.isDigit = [] then none else
      (exponent? (ds.dropWhile Text.isDigit)).map fun e => round false
        (cs.takeWhile Text.isDigit ++ ds.takeWhile Text.isDigit)
        (e - (ds.takeWhile Text.isDigit).length)) = none ↔ _
    rcases dropWhile_isDigit_cases hds with hend | ⟨ds', hend⟩
    · -- There is one point.
      have hall : ds = ds.takeWhile Text.isDigit := by simpa [hend] using split ds
      have hone : cs.count '.' = 1 := by
        rw [hcs', List.count_append, hcount cs, List.count_cons_self, hall, hcount ds]
      have hnone : (∀ c ∈ cs, Text.isDigit c = false) ↔
          cs.takeWhile Text.isDigit = [] ∧ ds.takeWhile Text.isDigit = [] := by
        have hmem : (∀ c ∈ cs, Text.isDigit c = false) ↔
            ∀ c ∈ cs.takeWhile Text.isDigit ++ '.' :: ds, Text.isDigit c = false := by
          rw [← hcs']
        rw [← no_digit_iff (hdigits cs), ← no_digit_iff (hdigits ds), ← hall, hmem]
        simp [or_imp, forall_and, show Text.isDigit '.' = false from rfl]
      rw [hend, hone, hnone]
      simp [exponent?]
    · -- There are two points.
      have htwo : 1 < cs.count '.' := by
        rw [hcs', List.count_append, List.count_cons_self, split ds, hend, List.count_append,
          List.count_cons_self]
        omega
      rw [hend]
      simp [exponent?, htwo]

end Decimal

end PatchScript
