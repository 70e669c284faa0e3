import Mathlib

/-!
# Rounding to `binary64`

Floating-point arithmetic works on numbers `m * 2 ^ e`. It keeps a number with
the exponent that leaves 53 bits of mantissa, or the least exponent if there are
not so many: such a pair is `Canonical`. A result that is no canonical number is
shifted to the right and rounded, and shifted once more if the rounding made it
too long.

* `roundWithAccuracy_exact`: a canonical number comes out of the rounding as it
  is, however many zeros stand behind its mantissa.
* `roundWithAccuracy_canonical`: whatever is rounded comes out as zero or canonical, if
  it was not cut off too early.
-/

namespace ConvexLang.Binary64

open Float.Model (Format UnpackedFloat totalExponent)
open Float.Model.UnpackedFloat

/-! ## Canonical numbers -/

/-- The exponent a positive number `m * 2 ^ e` is to be written with. -/
def target (m : Nat) (e : Int) : Int :=
  max (m.log2 + e - 52) (-1074)

theorem targetExponent_totalExponent (m : Nat) (e : Int) :
    Format.binary64.targetExponent (totalExponent m e) = target m e := by
  simp only [Format.targetExponent, Format.minExponent, Format.mantissaBits, totalExponent, target]
  congr 1
  push_cast
  omega

/-- A mantissa and an exponent as `binary64` keeps them. -/
structure Canonical (m : Nat) (e : Int) : Prop where
  /-- The mantissa is not zero. -/
  pos : 0 < m
  /-- The exponent is the one that is aimed at. -/
  target_eq : target m e = e

/-! ## Shifts -/

theorem mantissa_shiftRight (em : ExtendedMantissa) (k : Nat) :
    (em >>> k).mantissa = em.mantissa / 2 ^ k := by
  change (k.repeat ExtendedMantissa.shiftRightOne em).mantissa = _
  induction k with
  | zero => simp [Nat.repeat]
  | succ k ih =>
    rw [Nat.repeat, ExtendedMantissa.shiftRightOne, ih, Nat.div_div_eq_div_mul, Nat.pow_succ]

theorem shiftRight_exact (m k : Nat) :
    (⟨m * 2 ^ k, false, false⟩ : ExtendedMantissa) >>> k = ⟨m, false, false⟩ := by
  change k.repeat ExtendedMantissa.shiftRightOne _ = _
  induction k generalizing m with
  | zero => simp [Nat.repeat]
  | succ k ih =>
    have h := ih (m * 2)
    rw [Nat.mul_assoc, ← Nat.pow_succ'] at h
    rw [Nat.repeat, h, ExtendedMantissa.shiftRightOne]
    simp

theorem log2_mul_two_pow {m : Nat} (h : 0 < m) (k : Nat) : (m * 2 ^ k).log2 = m.log2 + k := by
  have hne := Nat.pos_iff_ne_zero.1 h
  refine (Nat.log2_eq_iff (Nat.pos_iff_ne_zero.1 (Nat.mul_pos h (Nat.two_pow_pos k)))).2 ⟨?_, ?_⟩
  · rw [Nat.pow_add]
    exact Nat.mul_le_mul_right _ (Nat.log2_self_le hne)
  · rw [Nat.add_right_comm, Nat.pow_add]
    exact Nat.mul_lt_mul_of_pos_right Nat.lt_log2_self (Nat.two_pow_pos k)

theorem target_mul_two_pow {m : Nat} (hm : 0 < m) (k : Nat) (e : Int) :
    target (m * 2 ^ k) (e - k) = target m e := by
  simp only [target, log2_mul_two_pow hm]
  congr 1
  push_cast
  omega

theorem shiftToTargetExponent_exact {m : Nat} {e : Int} (h : Canonical m e) (k : Nat) :
    shiftToTargetExponent .binary64 (m * 2 ^ k) (e - k) .exact = (⟨m, false, false⟩, e) := by
  have ht : target (m * 2 ^ k) (e - k) = e := (target_mul_two_pow h.pos k e).trans h.target_eq
  have hk : (e - (e - k)).toNat = k := by omega
  simp only [shiftToTargetExponent, shiftToExponent, targetExponent_totalExponent, ht, hk,
    ExtendedMantissa.ofMantissaAndAccuracy, shiftRight_exact, Prod.mk.injEq, true_and]
  omega

/-- A canonical number with zeros behind its mantissa is rounded to itself. -/
theorem roundWithAccuracy_exact {m : Nat} {e : Int} (h : Canonical m e)
    (s : UnpackedFloat.Sign) (k : Nat) :
    roundWithAccuracy .binary64 s (m * 2 ^ k) (e - k) .exact = .finite s m e h.pos := by
  have h0 : shiftToTargetExponent .binary64 m e .exact = (⟨m, false, false⟩, e) := by
    simpa using shiftToTargetExponent_exact h 0
  simp only [roundWithAccuracy, shiftToTargetExponent_exact h k, ExtendedMantissa.roundedMantissa,
    ExtendedMantissa.accuracy, Accuracy.roundToNearestEven, h0]
  simp [Nat.pos_iff_ne_zero.1 h.pos]

/-! ## Values -/

/-- The number `m * 2 ^ e`. -/
def scale (m : Nat) (e : Int) : ℚ :=
  m * 2 ^ e

theorem two_zpow_pos (e : Int) : (0 : ℚ) < 2 ^ e :=
  zpow_pos (by norm_num) e

theorem scale_nonneg (m : Nat) (e : Int) : 0 ≤ scale m e :=
  mul_nonneg m.cast_nonneg (two_zpow_pos e).le

theorem scale_pos {m : Nat} (hm : 0 < m) (e : Int) : 0 < scale m e :=
  mul_pos (Nat.cast_pos.2 hm) (two_zpow_pos e)

theorem scale_mul_two_pow (m k : Nat) (e : Int) : scale (m * 2 ^ k) (e - k) = scale m e := by
  rw [scale, scale, zpow_sub₀ two_ne_zero]
  push_cast
  rw [zpow_natCast]
  field_simp

theorem two_zpow_le_scale {m : Nat} (hm : 0 < m) (e : Int) : 2 ^ (m.log2 + e) ≤ scale m e := by
  rw [scale, zpow_add₀ two_ne_zero, zpow_natCast]
  refine mul_le_mul_of_nonneg_right ?_ (two_zpow_pos e).le
  exact_mod_cast Nat.log2_self_le (Nat.pos_iff_ne_zero.1 hm)

theorem scale_lt_two_zpow (m : Nat) (e : Int) : scale m e < 2 ^ (m.log2 + 1 + e) := by
  rw [scale, zpow_add₀ two_ne_zero, ← Nat.cast_succ, zpow_natCast]
  refine mul_lt_mul_of_pos_right ?_ (two_zpow_pos e)
  exact_mod_cast (Nat.lt_log2_self : m < _)

theorem scale_mul_scale (m₁ m₂ : Nat) (e₁ e₂ : Int) :
    scale m₁ e₁ * scale m₂ e₂ = scale (m₁ * m₂) (e₁ + e₂) := by
  simp only [scale, zpow_add₀ (two_ne_zero : (2 : ℚ) ≠ 0)]
  push_cast
  ring

theorem scale_ofNat (m k : Nat) : scale m k = (m * 2 ^ k : Nat) := by
  simp [scale]

/-- Numbers with equal exponents have equal mantissas. -/
theorem scale_injective (e : Int) : Function.Injective (scale · e) := fun m n h => by
  have := mul_right_cancel₀ (two_zpow_pos e).ne' h
  exact_mod_cast this

/-! ## Rounding -/

theorem roundedMantissa_bounds (em : ExtendedMantissa) :
    em.mantissa ≤ em.roundedMantissa ∧ em.roundedMantissa ≤ em.mantissa + 1 := by
  rcases em with ⟨m, r, s⟩
  cases r <;> cases s <;>
    simp only [ExtendedMantissa.roundedMantissa, ExtendedMantissa.accuracy,
      Accuracy.roundToNearestEven] <;> omega

theorem mantissa_ofMantissaAndAccuracy (m : Nat) (acc : Accuracy) :
    (ExtendedMantissa.ofMantissaAndAccuracy m acc).mantissa = m := by
  rcases acc with _ | o
  · rfl
  · cases o <;> rfl

theorem shiftToTargetExponent_of_le {m : Nat} {e : Int} (h : e ≤ target m e) (acc : Accuracy) :
    shiftToTargetExponent .binary64 m e acc =
      (ExtendedMantissa.ofMantissaAndAccuracy m acc >>> (target m e - e).toNat,
        target m e) := by
  simp only [shiftToTargetExponent, shiftToExponent, targetExponent_totalExponent,
    Prod.mk.injEq, true_and]
  omega

theorem canonical_of_lt {m : Nat} {e : Int} (hm : 0 < m) (hlt : m < 2 ^ 53)
    (he : -1074 ≤ e) (h : e = -1074 ∨ 2 ^ 52 ≤ m) : Canonical m e := by
  have hne := Nat.pos_iff_ne_zero.1 hm
  have h53 : m.log2 < 53 := (Nat.log2_lt hne).2 hlt
  refine ⟨hm, ?_⟩
  rw [target]
  rcases h with rfl | h
  · omega
  · have h52 : 52 ≤ m.log2 := (Nat.le_log2 hne).2 h
    omega

/-- A mantissa shifted to its target has 53 bits at most, and all of them above the
    least exponent. -/
theorem div_two_pow_bounds {m : Nat} {e : Int} (h : e ≤ target m e) :
    m / 2 ^ (target m e - e).toNat < 2 ^ 53 ∧
      (target m e = -1074 ∨ 2 ^ 52 ≤ m / 2 ^ (target m e - e).toNat) := by
  have hlt : m < 2 ^ (m.log2 + 1) := Nat.lt_log2_self
  constructor
  · rw [Nat.div_lt_iff_lt_mul (Nat.two_pow_pos _), ← Nat.pow_add]
    refine hlt.trans_le (Nat.pow_le_pow_right (by decide) ?_)
    rw [target] at h ⊢
    omega
  · rcases eq_or_ne (target m e) (-1074) with ht | ht
    · exact .inl ht
    · right
      rw [target] at h ht ⊢
      have hm : m ≠ 0 := by
        rintro rfl
        rw [Nat.log2_zero] at h ht
        omega
      rw [Nat.le_div_iff_mul_le (Nat.two_pow_pos _), ← Nat.pow_add]
      exact (Nat.pow_le_pow_right (by decide) (by omega)).trans (Nat.log2_self_le hm)

/-- A mantissa that is not cut off too early is shifted to its target and rounded there.
    The result is zero or canonical. -/
theorem roundWithAccuracy_canonical {m : Nat} {e : Int} (h : e ≤ target m e)
    (s : UnpackedFloat.Sign) (acc : Accuracy) {r : Nat}
    (hr : (ExtendedMantissa.ofMantissaAndAccuracy m acc >>>
      (target m e - e).toNat).roundedMantissa = r) :
    r = 0 ∧ roundWithAccuracy .binary64 s m e acc = .zero s ∨
      ∃ m' e', ∃ hc : Canonical m' e', target m e ≤ e' ∧ scale m' e' = scale r (target m e) ∧
        roundWithAccuracy .binary64 s m e acc = .finite s m' e' hc.pos := by
  obtain ⟨hlt, hle⟩ := div_two_pow_bounds h
  rw [roundWithAccuracy, shiftToTargetExponent_of_le h acc]
  have hm := mantissa_shiftRight (.ofMantissaAndAccuracy m acc) (target m e - e).toNat
  rw [mantissa_ofMantissaAndAccuracy] at hm
  rw [← hm] at hlt hle
  generalize ExtendedMantissa.ofMantissaAndAccuracy m acc >>> (target m e - e).toNat = em at *
  obtain ⟨hlow, hhigh⟩ := roundedMantissa_bounds em
  dsimp only
  rw [hr] at hlow hhigh ⊢
  rcases Nat.eq_zero_or_pos r with h0 | hpos
  · -- all bits were shifted away
    left
    simp [h0, shiftToTargetExponent, shiftToExponent, mantissa_shiftRight,
      mantissa_ofMantissaAndAccuracy]
  · right
    have ht : -1074 ≤ target m e := le_max_right _ _
    rcases Nat.lt_or_ge r (2 ^ 53) with hfit | hover
    · -- the mantissa fits, so the second shift does nothing
      have hc : Canonical r (target m e) :=
        canonical_of_lt hpos hfit ht (hle.imp_right fun h => h.trans hlow)
      refine ⟨_, _, hc, le_rfl, rfl, ?_⟩
      have h0 := shiftToTargetExponent_exact hc 0
      simp only [Nat.pow_zero, Nat.mul_one, Nat.cast_zero, sub_zero] at h0
      simp [h0, Nat.pos_iff_ne_zero.1 hpos]
    · -- rounding up carried into a bit too many; the others are zero, so the second
      -- shift loses nothing
      have heq : r = 2 ^ 52 * 2 ^ 1 := by omega
      have hc : Canonical (2 ^ 52) (target m e + 1) :=
        canonical_of_lt (by decide) (by decide) (by omega) (.inr le_rfl)
      have h0 := shiftToTargetExponent_exact hc 1
      have hv := scale_mul_two_pow (2 ^ 52) 1 (target m e + 1)
      rw [← heq, Nat.cast_one, add_sub_cancel_right] at h0 hv
      exact ⟨_, _, hc, by omega, hv.symm, by simp [h0]⟩

end ConvexLang.Binary64
