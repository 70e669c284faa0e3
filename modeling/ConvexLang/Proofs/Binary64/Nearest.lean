import ConvexLang.Proofs.Binary64.Rounding

/-!
# The nearest number

A positive number `v` has a `roundingExponent`, the one that leaves 53 bits in front of the
point, and is rounded to a multiple of this power of two (`rounded`). Arithmetic does not have
`v` itself, but the whole part of a multiple of it and two more bits: whether at least half a
unit is left, and whether something else is (`Holds`). Shifts keep what these bits say, so
what is rounded by them is `v`, wherever it was cut off.

* `isRounded_roundWithAccuracy`, `isRounded_div`: what is rounded, and what is divided, is
  rounded to `rounded v`.
* `abs_rounded_sub_le`: no canonical number is nearer to `v`.
* `rounded_lt_iff`: what is rounded to a number beyond the finite ones.
-/

namespace ConvexLang.Binary64

open Float.Model (Format UnpackedFloat totalExponent)
open Float.Model.UnpackedFloat

/-! ## The nearest natural number -/

/-- The natural number nearest to `t`, the even one of two equally near ones. -/
def nearestEven (t : ℚ) : Nat :=
  if t - ⌊t⌋₊ < 1 / 2 then ⌊t⌋₊
  else if t - ⌊t⌋₊ = 1 / 2 then ⌊t⌋₊ + ⌊t⌋₊ % 2
  else ⌊t⌋₊ + 1

section NearestEven

variable {t : ℚ}

theorem nearestEven_bounds (t : ℚ) : ⌊t⌋₊ ≤ nearestEven t ∧ nearestEven t ≤ ⌊t⌋₊ + 1 := by
  rw [nearestEven]
  split_ifs <;> omega

theorem nearestEven_natCast (n : Nat) : nearestEven n = n := by
  simp [nearestEven]

theorem le_nearestEven {n : Nat} (h : (n : ℚ) ≤ t) : n ≤ nearestEven t :=
  (Nat.le_floor h).trans (nearestEven_bounds t).1

theorem nearestEven_le {n : Nat} (h : t ≤ n) : nearestEven t ≤ n := by
  rcases h.eq_or_lt with rfl | h
  · exact (nearestEven_natCast n).le
  · rcases lt_or_ge t 0 with ht | ht
    · simp [nearestEven, Nat.floor_of_nonpos ht.le, show t < 2⁻¹ by linarith]
    · exact (nearestEven_bounds t).2.trans ((Nat.floor_lt ht).2 h)

theorem nearestEven_le_of_lt {n : Nat} (h : t < n + 1 / 2) : nearestEven t ≤ n := by
  rcases le_or_gt t n with hle | hlt
  · exact nearestEven_le hle
  · have hfloor : ⌊t⌋₊ = n := (Nat.floor_eq_iff (n.cast_nonneg.trans hlt.le)).2
      ⟨hlt.le, by linarith⟩
    rw [nearestEven, hfloor, if_pos (by linarith)]

theorem lt_nearestEven {n : Nat} (hn : n % 2 = 1) (h : n + 1 / 2 ≤ t) : n < nearestEven t := by
  rcases le_or_gt (n + 1 : ℚ) t with hle | hlt
  · exact le_nearestEven (by exact_mod_cast hle)
  · have hfloor : ⌊t⌋₊ = n := (Nat.floor_eq_iff (by linarith [n.cast_nonneg (α := ℚ)])).2
      ⟨by linarith, hlt⟩
    rw [nearestEven, hfloor, if_neg (by linarith)]
    split_ifs <;> omega

/-- No natural number is nearer. -/
theorem abs_nearestEven_sub_le (ht : 0 ≤ t) (n : Nat) : |nearestEven t - t| ≤ |n - t| := by
  have hfloor := Nat.floor_le ht
  have hlt := Nat.lt_floor_add_one t
  -- `n` is not strictly between the whole part and the next number
  have hfar : min (t - ⌊t⌋₊) (⌊t⌋₊ + 1 - t) ≤ |n - t| := by
    rcases Nat.lt_or_ge ⌊t⌋₊ n with hn | hn
    · have hn : (⌊t⌋₊ : ℚ) + 1 ≤ n := by exact_mod_cast hn
      rw [abs_of_nonneg (by linarith)]
      exact (min_le_right _ _).trans (by linarith)
    · have hn : (n : ℚ) ≤ ⌊t⌋₊ := by exact_mod_cast hn
      rw [abs_sub_comm, abs_of_nonneg (by linarith)]
      exact (min_le_left _ _).trans (by linarith)
  refine le_trans (le_min ?_ ?_) hfar <;> rw [nearestEven, abs_le] <;> split_ifs with hless hhalf
  all_goals
    first
    | (constructor <;> push_cast <;> linarith)
    | (rcases Nat.mod_two_eq_zero_or_one ⌊t⌋₊ with h | h <;> rw [h] <;>
        constructor <;> push_cast <;> linarith)

end NearestEven

/-! ## Mantissas with two more bits -/

/-- The mantissa is the whole part of `t`, and the two bits tell how what is left compares
    with nothing and with one half. -/
def Holds : ExtendedMantissa → ℚ → Prop
  | ⟨m, false, false⟩, t => t = m
  | ⟨m, false, true⟩, t => m < t ∧ t < m + 1 / 2
  | ⟨m, true, false⟩, t => t = m + 1 / 2
  | ⟨m, true, true⟩, t => m + 1 / 2 < t ∧ t < m + 1

theorem Holds.shiftRightOne {em : ExtendedMantissa} {t : ℚ} (h : Holds em t) :
    Holds em.shiftRightOne (t / 2) := by
  obtain ⟨m, r, s⟩ := em
  -- the last bit of the mantissa becomes the first of the two bits
  obtain ⟨q, b, hb, rfl⟩ : ∃ q b, b < 2 ∧ m = 2 * q + b :=
    ⟨m / 2, m % 2, Nat.mod_lt _ two_pos, (Nat.div_add_mod m 2).symm⟩
  have hdiv : (2 * q + b) / 2 = q := by omega
  have hmod : (2 * q + b) % 2 = b := by omega
  rw [ExtendedMantissa.shiftRightOne, hdiv, hmod]
  interval_cases b <;> cases r <;> cases s <;>
    simp only [Holds, Nat.reduceBNe, bne_self_eq_false, Bool.or_self, Bool.or_false] at h ⊢ <;>
    push_cast at h <;> first | linarith | exact ⟨by linarith, by linarith⟩

theorem Holds.shiftRight {em : ExtendedMantissa} {t : ℚ} (h : Holds em t) (k : Nat) :
    Holds (em >>> k) (t / 2 ^ k) := by
  change Holds (k.repeat ExtendedMantissa.shiftRightOne em) _
  induction k with
  | zero => simpa [Nat.repeat] using h
  | succ k ih =>
    rw [Nat.repeat, pow_succ, ← div_div]
    exact ih.shiftRightOne

/-- The whole part of a number and what is left of it. -/
theorem Holds.floor {em : ExtendedMantissa} {t : ℚ} (h : Holds em t) : ⌊t⌋₊ = em.mantissa := by
  obtain ⟨m, r, s⟩ := em
  have hbounds : (m : ℚ) ≤ t ∧ t < m + 1 := by
    cases r <;> cases s <;> simp only [Holds] at h <;> exact ⟨by linarith, by linarith⟩
  exact (Nat.floor_eq_iff (m.cast_nonneg.trans hbounds.1)).2 hbounds

theorem Holds.roundedMantissa {em : ExtendedMantissa} {t : ℚ} (h : Holds em t) :
    em.roundedMantissa = nearestEven t := by
  rw [nearestEven, h.floor]
  obtain ⟨m, r, s⟩ := em
  cases r <;> cases s <;> simp only [Holds] at h <;>
    simp only [ExtendedMantissa.roundedMantissa, ExtendedMantissa.accuracy,
      Accuracy.roundToNearestEven]
  · rw [if_pos (by linarith)]
  · rw [if_pos (by linarith)]
  · rw [if_neg (by linarith), if_pos (by linarith)]
  · rw [if_neg (by linarith), if_neg (by linarith)]

/-- The quotient of two natural numbers, with the bits worked out from the remainder. -/
theorem holds_div (n : Nat) {d : Nat} (hd : 0 < d) :
    Holds (.ofMantissaAndAccuracy (n / d) (accuracyOfFraction (n % d) d)) (n / d : ℚ) := by
  have hpos : (0 : ℚ) < d := Nat.cast_pos.2 hd
  have hdiv : (n / d : ℚ) = (n / d : Nat) + ((n % d : Nat) : ℚ) / d := by
    have hn : (n : ℚ) = (n / d : Nat) * d + (n % d : Nat) := by
      exact_mod_cast (Nat.div_add_mod' n d).symm
    rw [div_eq_iff hpos.ne', add_mul, div_mul_cancel₀ _ hpos.ne']
    exact hn
  have hlt : n % d < d := Nat.mod_lt n hd
  rw [hdiv, accuracyOfFraction]
  generalize n / d = q
  generalize n % d = r at hlt ⊢
  split_ifs with hr
  · simp [Holds, ExtendedMantissa.ofMantissaAndAccuracy, hr]
  · have hrpos : (0 : ℚ) < r / d := div_pos (Nat.cast_pos.2 (Nat.pos_of_ne_zero hr)) hpos
    have hone : (r / d : ℚ) < 1 := (div_lt_one hpos).2 (Nat.cast_lt.2 hlt)
    have hhalf : (r / d : ℚ) < 1 / 2 ↔ 2 * r < d := by
      rw [div_lt_div_iff₀ hpos two_pos, one_mul, mul_comm]
      exact_mod_cast Iff.rfl
    cases hc : compare (2 * r) d with
    | lt =>
      have := hhalf.2 (Nat.compare_eq_lt.1 hc)
      exact ⟨by linarith, by linarith⟩
    | eq =>
      have heq : (r / d : ℚ) = 1 / 2 := by
        rw [div_eq_div_iff hpos.ne' two_ne_zero, one_mul, mul_comm]
        exact_mod_cast Nat.compare_eq_eq.1 hc
      change (q + r / d : ℚ) = q + 1 / 2
      rw [heq]
    | gt =>
      have hgt : (1 / 2 : ℚ) < r / d := by
        rw [div_lt_div_iff₀ two_pos hpos, one_mul, mul_comm]
        exact_mod_cast Nat.compare_eq_gt.1 hc
      exact ⟨by linarith, by linarith⟩

/-! ## The exponent of a number -/

theorem log_eq_iff {v : ℚ} (hv : 0 < v) {k : Int} :
    Int.log 2 v = k ↔ 2 ^ k ≤ v ∧ v < 2 ^ (k + 1) := by
  have hle := Int.zpow_le_iff_le_log one_lt_two (x := k) hv
  have hlt := Int.lt_zpow_iff_log_lt one_lt_two (x := k + 1) hv
  rw [Nat.cast_ofNat] at hle hlt
  rw [hle, hlt]
  omega

theorem log_bounds {v : ℚ} (hv : 0 < v) : 2 ^ Int.log 2 v ≤ v ∧ v < 2 ^ (Int.log 2 v + 1) :=
  (log_eq_iff hv).1 rfl

/-- The exponent a positive number is rounded at: 53 bits are left, or as many as there are
    above the least exponent. -/
def roundingExponent (v : ℚ) : Int :=
  max (Int.log 2 v - 52) (-1074)

/-- What a positive number is rounded to, if no number is too great. -/
def rounded (v : ℚ) : ℚ :=
  scale (nearestEven (v / 2 ^ roundingExponent v)) (roundingExponent v)

/-- A mantissa that is the whole part of a number aims at the exponent the number is
    rounded at, unless it has been cut off too early. -/
theorem target_floor {v : ℚ} (hv : 0 < v) {e : Int} (he : e ≤ roundingExponent v) :
    target ⌊v / 2 ^ e⌋₊ e = roundingExponent v := by
  obtain ⟨hlow, hhigh⟩ := log_bounds hv
  have hpow := two_zpow_pos e
  have hfloor := Nat.floor_le (div_nonneg hv.le hpow.le)
  have hlt := Nat.lt_floor_add_one (v / 2 ^ e)
  rw [roundingExponent] at he ⊢
  rw [target]
  rcases Nat.eq_zero_or_pos ⌊v / 2 ^ e⌋₊ with hzero | hpos
  · -- the number is less than one unit, so the exponent is the least one
    rw [hzero, Nat.cast_zero, zero_add, div_lt_one hpow] at hlt
    have hexp := (zpow_lt_zpow_iff_right₀ one_lt_two).1 (hlow.trans_lt hlt)
    rw [hzero, Nat.log2_zero]
    omega
  · have hlog : Int.log 2 v = ⌊v / 2 ^ e⌋₊.log2 + e := by
      refine (log_eq_iff hv).2 ⟨?_, ?_⟩
      · refine (two_zpow_le_scale hpos e).trans ?_
        rwa [scale, ← le_div_iff₀ hpow]
      · have hm : (⌊v / 2 ^ e⌋₊ : ℚ) + 1 ≤ 2 ^ (⌊v / 2 ^ e⌋₊.log2 + 1) := by
          exact_mod_cast (Nat.lt_log2_self : ⌊v / 2 ^ e⌋₊ < _)
        rw [add_right_comm, zpow_add₀ two_ne_zero, ← div_lt_iff₀ hpow]
        exact_mod_cast hlt.trans_le hm
    rw [hlog]

theorem log_scale {m : Nat} (hm : 0 < m) (e : Int) : Int.log 2 (scale m e) = m.log2 + e := by
  refine (log_eq_iff (scale_pos hm e)).2 ⟨two_zpow_le_scale hm e, ?_⟩
  rw [add_right_comm]
  exact scale_lt_two_zpow m e

theorem roundingExponent_canonical {m : Nat} {e : Int} (h : Canonical m e) :
    roundingExponent (scale m e) = e := by
  rw [roundingExponent, log_scale h.pos]
  exact h.target_eq

/-- A number has one canonical form. -/
theorem Canonical.eq_of_scale {m m' : Nat} {e e' : Int} (h : Canonical m e) (h' : Canonical m' e')
    (heq : scale m e = scale m' e') : m = m' ∧ e = e' := by
  have he := roundingExponent_canonical h
  rw [heq, roundingExponent_canonical h'] at he
  subst he
  exact ⟨scale_injective _ heq, rfl⟩

theorem rounded_canonical {m : Nat} {e : Int} (h : Canonical m e) :
    rounded (scale m e) = scale m e := by
  have hdiv : scale m e / 2 ^ e = m := mul_div_cancel_right₀ _ (two_zpow_pos e).ne'
  rw [rounded, roundingExponent_canonical h, hdiv, nearestEven_natCast]

theorem rounded_zero : rounded 0 = 0 := by
  simp [rounded, nearestEven, scale]

/-! ## Bounds -/

section Bounds

variable {v : ℚ}

theorem scale_add_natCast (n k : Nat) (e : Int) : scale n (e + k) = scale (n * 2 ^ k) e := by
  rw [← scale_mul_two_pow n k, add_sub_cancel_right]

/-- Rounding does not cross a multiple of the unit it rounds to. -/
theorem scale_le_rounded {n : Nat} {e : Int} (he : roundingExponent v ≤ e) (h : scale n e ≤ v) :
    scale n e ≤ rounded v := by
  obtain ⟨k, rfl⟩ : ∃ k : Nat, e = roundingExponent v + k :=
    ⟨(e - roundingExponent v).toNat, by omega⟩
  rw [scale_add_natCast] at h ⊢
  refine mul_le_mul_of_nonneg_right ?_ (two_zpow_pos _).le
  exact_mod_cast le_nearestEven ((le_div_iff₀ (two_zpow_pos _)).2 h)

theorem rounded_le_scale {n : Nat} {e : Int} (he : roundingExponent v ≤ e) (h : v ≤ scale n e) :
    rounded v ≤ scale n e := by
  obtain ⟨k, rfl⟩ : ∃ k : Nat, e = roundingExponent v + k :=
    ⟨(e - roundingExponent v).toNat, by omega⟩
  rw [scale_add_natCast] at h ⊢
  refine mul_le_mul_of_nonneg_right ?_ (two_zpow_pos _).le
  exact_mod_cast nearestEven_le ((div_le_iff₀ (two_zpow_pos _)).2 h)

/-- A natural number is rounded to a natural number. -/
theorem exists_rounded_natCast (n : Nat) : ∃ r : Nat, rounded n = r := by
  have hn : scale n 0 = n := by simp [scale]
  rcases le_or_gt (roundingExponent n) 0 with h | h
  · have hle := rounded_le_scale h hn.ge
    have hge := scale_le_rounded h hn.le
    rw [hn] at hle hge
    exact ⟨n, le_antisymm hle hge⟩
  · obtain ⟨k, hk⟩ := Int.eq_ofNat_of_zero_le h.le
    rw [rounded, hk]
    exact ⟨_, scale_ofNat _ k⟩

theorem rounded_eq_zero (h : v < 2 ^ (-1075 : Int)) (hv : 0 < v) : rounded v = 0 := by
  have hlog : Int.log 2 v < -1075 := (Int.lt_zpow_iff_log_lt one_lt_two hv).1 (by exact_mod_cast h)
  have ht : roundingExponent v = -1074 := by
    rw [roundingExponent]
    omega
  have hlt : v / 2 ^ (-1074 : Int) < (0 : Nat) + 1 / 2 := by
    rw [div_lt_iff₀ (two_zpow_pos _)]
    refine h.trans_eq ?_
    rw [show (-1075 : Int) = -1 + -1074 by decide, zpow_add₀ two_ne_zero]
    norm_num
  rw [rounded, ht, Nat.le_zero.1 (nearestEven_le_of_lt hlt), scale, Nat.cast_zero, zero_mul]

end Bounds

/-! ## The greatest numbers -/

/-- The middle between the greatest finite number and the next power of two. -/
def overflow : ℚ :=
  2 ^ (1024 : Int) - 2 ^ (970 : Int)

/-- A power of two in units of the greatest exponent. -/
theorem two_zpow_eq_scale (k : Nat) : (2 : ℚ) ^ (971 + k : Int) = scale (2 ^ k) 971 := by
  rw [scale, zpow_add₀ two_ne_zero, zpow_natCast, mul_comm, Nat.cast_pow, Nat.cast_ofNat]

theorem overflow_eq : overflow = ((2 ^ 53 - 1 : Nat) + 1 / 2) * 2 ^ (971 : Int) := by
  have htop : (2 : ℚ) ^ (1024 : Int) = (2 ^ 53 : Nat) * 2 ^ (971 : Int) := two_zpow_eq_scale 53
  have hhalf : (2 : ℚ) ^ (971 : Int) = 2 ^ (970 : Int) * 2 := zpow_add_one₀ two_ne_zero 970
  rw [overflow, htop, hhalf]
  generalize (2 : ℚ) ^ (970 : Int) = half
  push_cast
  ring

theorem overflow_lt : overflow < 2 ^ (1024 : Int) :=
  sub_lt_self _ (two_zpow_pos 970)

theorem two_zpow_lt_overflow : 2 ^ (1023 : Int) < overflow := by
  have hpower : (2 : ℚ) ^ (1023 : Int) = (2 ^ 52 : Nat) * 2 ^ (971 : Int) := two_zpow_eq_scale 52
  rw [overflow_eq, hpower]
  exact mul_lt_mul_of_pos_right (by norm_num) (two_zpow_pos _)

/-- From the middle on, numbers are rounded up to the next power of two, or further. -/
theorem rounded_lt_iff {v : ℚ} (hv : 0 ≤ v) : rounded v < 2 ^ (1024 : Int) ↔ v < overflow := by
  have hstep (a b : Int) (h : a ≤ b) : (2 : ℚ) ^ a ≤ 2 ^ b := zpow_le_zpow_right₀ one_le_two h
  rcases hv.eq_or_lt with rfl | hv
  · rw [rounded_zero]
    exact iff_of_true (two_zpow_pos _) ((two_zpow_pos _).trans two_zpow_lt_overflow)
  obtain ⟨hlow, hhigh⟩ := log_bounds hv
  rcases lt_trichotomy (Int.log 2 v) 1023 with hlog | hlog | hlog
  · -- far below: not even rounding up doubles a number
    have hv' : v < 2 ^ (1023 : Int) := hhigh.trans_le (hstep _ _ (by omega))
    have ht : roundingExponent v ≤ 1023 := by
      rw [roundingExponent]
      omega
    have hr : rounded v ≤ scale 1 1023 := rounded_le_scale ht (by simpa [scale] using hv'.le)
    rw [scale, Nat.cast_one, one_mul] at hr
    exact iff_of_true (hr.trans_lt (two_zpow_lt_overflow.trans overflow_lt))
      (hv'.trans two_zpow_lt_overflow)
  · -- the mantissa is rounded to 53 bits, or up to the first number that has one more
    have ht : roundingExponent v = 971 := by
      rw [roundingExponent, hlog]
      rfl
    have htop : (2 : ℚ) ^ (1024 : Int) = (2 ^ 53 : Nat) * 2 ^ (971 : Int) := two_zpow_eq_scale 53
    rw [rounded, ht, scale, htop, mul_lt_mul_iff_left₀ (two_zpow_pos _), Nat.cast_lt, overflow_eq,
      ← div_lt_iff₀ (two_zpow_pos _)]
    constructor
    · exact fun h => not_le.1 fun hle => absurd (lt_nearestEven (by decide) hle) (by omega)
    · exact fun h => Nat.lt_of_le_pred (by decide) (nearestEven_le_of_lt h)
  · -- at or above the power of two itself
    have hv' : 2 ^ (1024 : Int) ≤ v := (hstep _ _ (by omega)).trans hlow
    have ht : roundingExponent v ≤ Int.log 2 v := by
      rw [roundingExponent]
      omega
    have hr : scale 1 (Int.log 2 v) ≤ rounded v := scale_le_rounded ht (by simpa [scale] using hlow)
    rw [scale, Nat.cast_one, one_mul] at hr
    exact iff_of_false (not_lt.2 ((hstep _ _ (by omega)).trans hr))
      (not_lt.2 (overflow_lt.le.trans hv'))

/-! ## No number is nearer -/

section Distance

variable {v : ℚ}

/-- No multiple of the unit that is rounded to is nearer. -/
theorem abs_rounded_sub_le_multiple (hv : 0 ≤ v) (n : Nat) :
    |rounded v - v| ≤ |scale n (roundingExponent v) - v| := by
  have hunit := two_zpow_pos (roundingExponent v)
  have hdist (k : Nat) : |scale k (roundingExponent v) - v| =
      |k - v / 2 ^ roundingExponent v| * 2 ^ roundingExponent v := by
    rw [← abs_of_pos hunit, ← abs_mul, sub_mul, abs_of_pos hunit, div_mul_cancel₀ _ hunit.ne',
      scale]
  rw [rounded, hdist, hdist]
  exact mul_le_mul_of_nonneg_right (abs_nearestEven_sub_le (div_nonneg hv hunit.le) n) hunit.le

/-- No canonical number is nearer. -/
theorem abs_rounded_sub_le (hv : 0 < v) {m : Nat} {e : Int} (h : Canonical m e) :
    |rounded v - v| ≤ |scale m e - v| := by
  rcases le_or_gt (roundingExponent v) e with he | he
  · obtain ⟨k, rfl⟩ : ∃ k : Nat, e = roundingExponent v + k :=
      ⟨(e - roundingExponent v).toNat, by omega⟩
    rw [scale_add_natCast]
    exact abs_rounded_sub_le_multiple hv.le _
  · -- a number with a smaller exponent lies below the power of two below `v`
    have ht := h.target_eq
    rw [target] at ht
    have hlog : roundingExponent v = Int.log 2 v - 52 := by
      rw [roundingExponent] at he ⊢
      omega
    have hpower : scale (2 ^ 52) (roundingExponent v) = 2 ^ Int.log 2 v := by
      rw [hlog, scale, Nat.cast_pow, Nat.cast_ofNat, ← zpow_natCast, ← zpow_add₀ two_ne_zero]
      congr 1
      omega
    have hbelow : scale m e ≤ 2 ^ Int.log 2 v :=
      (scale_lt_two_zpow m e).le.trans (zpow_le_zpow_right₀ one_le_two (by omega))
    have hlow := (log_bounds hv).1
    refine (abs_rounded_sub_le_multiple hv.le (2 ^ 52)).trans ?_
    rw [hpower, abs_sub_comm, abs_sub_comm _ v, abs_of_nonneg (by linarith),
      abs_of_nonneg (by linarith)]
    linarith

end Distance

/-! ## Rounding -/

/-- The number that `v` is rounded to, where the exponents are not bounded above. -/
inductive IsRounded (v : ℚ) : UnpackedFloat → Prop
  | zero : rounded v = 0 → IsRounded v (.zero .positive)
  | finite {m : Nat} {e : Int} (h : Canonical m e) :
    scale m e = rounded v → IsRounded v (.finite .positive m e h.pos)

/-- What is rounded from a mantissa that was not cut off too early is the nearest number. -/
theorem isRounded_roundWithAccuracy {v : ℚ} (hv : 0 < v) {m : Nat} {e : Int} {acc : Accuracy}
    (h : Holds (.ofMantissaAndAccuracy m acc) (v / 2 ^ e)) (he : e ≤ roundingExponent v) :
    IsRounded v (roundWithAccuracy .binary64 .positive m e acc) := by
  have hm : m = ⌊v / 2 ^ e⌋₊ := by rw [h.floor, mantissa_ofMantissaAndAccuracy]
  have ht : target m e = roundingExponent v := hm ▸ target_floor hv he
  have hshift : v / 2 ^ e / 2 ^ (target m e - e).toNat = v / 2 ^ roundingExponent v := by
    rw [div_div, ← zpow_natCast, ← zpow_add₀ two_ne_zero, ht]
    congr 2
    omega
  have hr := (h.shiftRight (target m e - e).toNat).roundedMantissa
  rw [hshift] at hr
  rcases roundWithAccuracy_canonical (ht ▸ he) .positive acc hr with ⟨h0, h⟩ |
    ⟨m', e', hc, -, hscale, h⟩
  · rw [h]
    exact .zero (by rw [rounded, h0, scale, Nat.cast_zero, zero_mul])
  · rw [h]
    exact .finite hc (by rw [hscale, rounded, ht])

/-- A number with a mantissa of its own that was not cut off too early. -/
theorem isRounded_exact {m : Nat} (hm : 0 < m) {e : Int} (he : e ≤ target m e) :
    IsRounded (scale m e) (roundWithAccuracy .binary64 .positive m e .exact) := by
  have hdiv : scale m e / 2 ^ e = m := mul_div_cancel_right₀ _ (two_zpow_pos e).ne'
  refine isRounded_roundWithAccuracy (scale_pos hm e) hdiv ?_
  rwa [roundingExponent, log_scale hm]

/-- The exponent that a quotient is worked out with is not too great. -/
theorem targetExponent_le_roundingExponent {m₁ m₂ : Nat} (h₁ : 0 < m₁) (h₂ : 0 < m₂)
    (e₁ e₂ : Int) :
    Format.binary64.targetExponent (totalExponent m₁ e₁ - totalExponent m₂ e₂) ≤
      roundingExponent (scale m₁ e₁ / scale m₂ e₂) := by
  have hpos₁ := scale_pos h₁ e₁
  have hpos₂ := scale_pos h₂ e₂
  have hlow : (2 : ℚ) ^ (m₁.log2 + e₁ - (m₂.log2 + 1 + e₂)) ≤ scale m₁ e₁ / scale m₂ e₂ := by
    rw [zpow_sub₀ two_ne_zero]
    exact div_le_div₀ hpos₁.le (two_zpow_le_scale h₁ e₁) hpos₂ (scale_lt_two_zpow m₂ e₂).le
  have hlog := (Int.zpow_le_iff_le_log one_lt_two (div_pos hpos₁ hpos₂)).1 (by exact_mod_cast hlow)
  simp only [Format.targetExponent, Format.minExponent, Format.mantissaBits, totalExponent,
    roundingExponent]
  omega

/-- A quotient of two numbers is rounded to the nearest number. -/
theorem isRounded_div {m₁ m₂ : Nat} (h₁ : 0 < m₁) (h₂ : 0 < m₂) (e₁ e₂ : Int) :
    IsRounded (scale m₁ e₁ / scale m₂ e₂) (UnpackedFloat.div .binary64
      (.finite .positive m₁ e₁ h₁) (.finite .positive m₂ e₂ h₂)) := by
  have hle := targetExponent_le_roundingExponent h₁ h₂ e₁ e₂
  have hpos := div_pos (scale_pos h₁ e₁) (scale_pos h₂ e₂)
  simp only [UnpackedFloat.div, divCore]
  generalize Format.binary64.targetExponent _ = t at hle ⊢
  refine isRounded_roundWithAccuracy hpos ?_ ((min_le_right _ _).trans hle)
  -- the mantissa that is divided has as many zeros behind it as the exponent is lowered
  generalize hk : (e₁ - e₂ - min (e₁ - e₂) t).toNat = k
  have hmin : min (e₁ - e₂) t = e₁ - k - e₂ := by omega
  have hv : scale m₁ e₁ / scale m₂ e₂ / 2 ^ min (e₁ - e₂) t = (m₁ <<< k : Nat) / m₂ := by
    rw [hmin, ← scale_mul_two_pow m₁ k, Nat.shiftLeft_eq, scale, scale, zpow_sub₀ two_ne_zero _ e₂]
    have := (two_zpow_pos (e₁ - k)).ne'
    have := (two_zpow_pos e₂).ne'
    field_simp
  rw [hv]
  exact holds_div _ h₂

end ConvexLang.Binary64
