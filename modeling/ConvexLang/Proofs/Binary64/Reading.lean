import ConvexLang.Proofs.Binary64.Nearest
import ConvexLang.Proofs.Binary64.Packing

/-!
# Reading a decimal fraction

A decimal fraction is read as one product or one quotient of two floating-point
numbers. Either is rounded once, so what is read is the number that the fraction is
rounded to (`isRead_toFloat`), and it depends on the value of the fraction alone.

* `unsigned_toFloat`: what is read has a clear sign bit.
* `toFloat_exact`: a fraction that is a floating-point number is read as it.
* `isWhole_of_toFloat`: a natural number is read as a natural number, if it is not too
  great.
* `isFinite_toFloat_iff`: how great a fraction may be.
* `abs_value_toFloat_sub_le`: no finite number is nearer to the fraction.
-/

namespace ConvexLang

/-- The value of a fraction. -/
def Decimal.toRat (d : Decimal) : ℚ :=
  d.coefficient * 10 ^ d.exponent

namespace Binary64

open Float.Model (Format UnpackedFloat)
open Float.Model.UnpackedFloat

/-! ## Small numbers -/

/-- A number of at most 53 bits, shifted so that it has 53. -/
def lift (n : Nat) : Nat :=
  n * 2 ^ (52 - n.log2)

theorem lift_bounds {n : Nat} (hpos : 0 < n) (hlt : n < 2 ^ 53) :
    2 ^ 52 ≤ lift n ∧ lift n < 2 ^ 53 := by
  have hne := Nat.pos_iff_ne_zero.1 hpos
  have hlog : n.log2 < 53 := (Nat.log2_lt hne).2 hlt
  have hlift : (lift n).log2 = 52 := by
    rw [lift, log2_mul_two_pow hpos]
    omega
  have hpos' : lift n ≠ 0 := Nat.pos_iff_ne_zero.1 (Nat.mul_pos hpos (Nat.two_pow_pos _))
  exact (Nat.log2_eq_iff hpos').1 hlift

/-- A number of at most 53 bits is canonical when shifted. -/
theorem canonical_lift {n : Nat} (hpos : 0 < n) (hlt : n < 2 ^ 53) {k : Int} (hk : -1000 ≤ k) :
    Canonical (lift n) (k - (52 - n.log2 : Nat)) := by
  obtain ⟨hle, hlt'⟩ := lift_bounds hpos hlt
  exact canonical_of_lt (by omega) hlt' (by omega) (.inr hle)

theorem scale_lift (n : Nat) (k : Int) : scale (lift n) (k - (52 - n.log2 : Nat)) = scale n k :=
  scale_mul_two_pow n _ k

/-- The value `v`, with a mantissa of 53 bits. -/
def IsLong (u : UnpackedFloat) (v : ℚ) : Prop :=
  ∃ m e, ∃ h : Canonical m e, 2 ^ 52 ≤ m ∧ scale m e = v ∧ u = .finite .positive m e h.pos

theorem isLong_lift {n : Nat} (hpos : 0 < n) (hlt : n < 2 ^ 53) {k : Int} (hk : -1000 ≤ k)
    (hk' : k < 900) :
    IsLong (unpack .binary64 (pack .binary64 (.finite .positive (lift n)
      (k - (52 - n.log2 : Nat)) (canonical_lift hpos hlt hk).pos))) (scale n k) := by
  have hc := canonical_lift hpos hlt hk
  refine ⟨_, _, hc, (lift_bounds hpos hlt).1, scale_lift n k, ?_⟩
  rw [unpack_pack hc, if_neg (by omega)]

theorem ofNat_eq_lift {n : Nat} (hpos : 0 < n) (hlt : n < 2 ^ 53) :
    ∃ h, ofNat .binary64 n = .finite .positive (lift n) (0 - (52 - n.log2 : Nat)) h := by
  have hc := canonical_lift hpos hlt (show -1000 ≤ (0 : Int) by decide)
  have hlog : n.log2 < 53 := (Nat.log2_lt (Nat.pos_iff_ne_zero.1 hpos)).2 hlt
  have hcompare : compare (n : Int) 0 = .gt := Int.compare_eq_gt.2 (by omega)
  have hshift : (0 - target n 0).toNat = 52 - n.log2 := by
    rw [target]
    omega
  have hr := roundWithAccuracy_exact hc .positive 0
  simp only [Nat.pow_zero, Nat.mul_one, Nat.cast_zero, sub_zero] at hr
  refine ⟨hc.pos, ?_⟩
  simp only [ofNat, ofInt, UnpackedFloat.normalize, hcompare, UnpackedFloat.round,
    Int.toNat_natCast, decreaseExponent, targetExponent_totalExponent, hshift, Nat.shiftLeft_eq]
  exact hr

/-- A natural number of at most 53 bits is converted without error. -/
theorem isLong_toFloat {n : Nat} (hpos : 0 < n) (hlt : n < 2 ^ 53) :
    IsLong n.toUInt64.toFloat.toModel.unpack n := by
  obtain ⟨h, hr⟩ := ofNat_eq_lift hpos hlt
  have hn : n.toUInt64.toNat = n := by
    simp
    omega
  change IsLong (unpack .binary64 (pack .binary64 (ofNat .binary64 n.toUInt64.toNat))) n
  rw [hn, hr, show (n : ℚ) = scale n 0 by simp [scale]]
  exact isLong_lift hpos hlt (by decide) (by decide)

theorem lift_pos {n : Nat} (h : 0 < n) : 0 < lift n :=
  Nat.mul_pos h (Nat.two_pow_pos _)

theorem powers_eq_lift (e : Fin Float.exactlyRepresentablePowersOfTen.size) :
    getElem Float.exactlyRepresentablePowersOfTen e.1 e.2 =
      .ofModel (.pack (.finite .positive (lift (5 ^ e.1)) (e.1 - (52 - (5 ^ e.1).log2 : Nat))
        (lift_pos (Nat.pow_pos (Nat.succ_pos 4))))) := by
  revert e
  decide +kernel

/-- The tabulated powers of ten are exact. -/
theorem isLong_powers {e : Nat} (h : e ≤ 22)
    {he : e < Float.exactlyRepresentablePowersOfTen.size} :
    IsLong (Float.exactlyRepresentablePowersOfTen[e]).toModel.unpack (10 ^ e : Nat) := by
  have hpow : 5 ^ e < 2 ^ 53 :=
    (Nat.pow_le_pow_right (by decide) h).trans_lt (by decide : 5 ^ 22 < 2 ^ 53)
  have hexp : -1000 ≤ (e : Int) ∧ (e : Int) < 900 := by omega
  rw [powers_eq_lift ⟨e, he⟩, show ((10 ^ e : Nat) : ℚ) = scale (5 ^ e) e by
    rw [scale_ofNat, ← Nat.mul_pow]]
  exact isLong_lift (Nat.pow_pos (by decide)) hpow hexp.1 hexp.2

/-! ## Fractions and whole numbers -/

/-- What is read of a fraction with places behind the point is one quotient, or
    zero if it is far too small. -/
theorem ofScientific_places {c k : Nat} (hc : 0 < c) (hk : 0 < k) :
    (2 ^ 11 + c.log2 < k ∧ Float.ofScientific c true k = .ofModel (.pack (.zero .positive))) ∨
      ∃ m₁ e₁ h₁ m₂ e₂ h₂, scale m₁ e₁ = c ∧ scale m₂ e₂ = (10 ^ k : Nat) ∧
        Float.ofScientific c true k = .ofModel (.pack (UnpackedFloat.div .binary64
          (.finite .positive m₁ e₁ h₁) (.finite .positive m₂ e₂ h₂))) := by
  rw [Float.ofScientific]
  split
  · -- both the coefficient and the power are floating-point numbers
    rename_i hfast
    right
    obtain ⟨m₁, e₁, h₁, -, hv₁, hu₁⟩ := isLong_toFloat hc hfast.1
    obtain ⟨m₂, e₂, h₂, -, hv₂, hu₂⟩ := isLong_powers hfast.2
    refine ⟨m₁, e₁, h₁.pos, m₂, e₂, h₂.pos, hv₁, hv₂, ?_⟩
    rw [← hu₁, ← hu₂]
    rfl
  · -- the quotient of the two natural numbers
    have hpow : 0 < 10 ^ k := Nat.pow_pos (by decide)
    have he : Int.negOfNat k = -k := Int.negOfNat_eq
    simp only [if_true, he, Float.Model.ofScientific, ofScientific, Nat.pos_iff_ne_zero.1 hc,
      dite_false]
    have hhuge : ¬(-(k : Int) > 2 ^ 11) := by omega
    rw [if_neg hhuge]
    split
    · left
      rename_i htiny
      exact ⟨by omega, rfl⟩
    · right
      refine ⟨c, 0, hc, 10 ^ k, 0, hpow, by simp [scale], by simp [scale], ?_⟩
      have hneg : ¬0 ≤ -(k : Int) := by omega
      simp only [hneg, if_false, neg_neg, Int.toNat_natCast]

/-- What is read of a natural number is one product, or infinity if it is far too
    great. -/
theorem ofScientific_whole {c : Nat} (hc : 0 < c) (k : Nat) :
    (2 ^ 11 < k ∧ Float.ofScientific c false k = .ofModel (.pack (.infinity .positive))) ∨
      ∃ m e, 2 ^ 52 ≤ m ∧ scale m e = (c * 10 ^ k : Nat) ∧
        Float.ofScientific c false k = .ofModel (.pack
          (roundWithAccuracy .binary64 .positive m e .exact)) := by
  rw [Float.ofScientific]
  split
  · -- the product of two floating-point numbers
    rename_i hfast
    right
    obtain ⟨m₁, e₁, h₁, hl₁, hv₁, hu₁⟩ := isLong_toFloat hc hfast.1
    obtain ⟨m₂, e₂, h₂, hl₂, hv₂, hu₂⟩ := isLong_powers hfast.2
    refine ⟨m₁ * m₂, e₁ + e₂, hl₁.trans (Nat.le_mul_of_pos_right _ h₂.pos), ?_, ?_⟩
    · rw [← scale_mul_scale, hv₁, hv₂, Nat.cast_mul]
    · change Float.ofModel (.pack (UnpackedFloat.mul .binary64 _ _)) = _
      rw [hu₁, hu₂]
      rfl
  · -- the product of the two natural numbers, with more bits than are kept
    simp only [Bool.false_eq_true, if_false, Float.Model.ofScientific, ofScientific,
      Nat.pos_iff_ne_zero.1 hc, dite_false]
    split
    · rename_i hhuge
      rw [Int.ofNat_eq_natCast] at hhuge
      exact .inl ⟨by omega, rfl⟩
    · right
      have htiny : ¬((k : Int) < -((2 ^ 11 : Int) + c.log2)) := by omega
      have hk : 0 ≤ (k : Int) := by omega
      simp only [Int.ofNat_eq_natCast, htiny, if_false, hk, if_true, Int.toNat_natCast]
      refine ⟨c <<< 53 * 10 ^ k, -53 + 0, ?_, ?_, rfl⟩
      · have hpow : 0 < 10 ^ k := Nat.pow_pos (by decide)
        calc 2 ^ 52 ≤ 2 ^ 53 := by decide
          _ ≤ c * 2 ^ 53 := Nat.le_mul_of_pos_left _ hc
          _ ≤ c * 2 ^ 53 * 10 ^ k := Nat.le_mul_of_pos_right _ hpow
          _ = c <<< 53 * 10 ^ k := by rw [Nat.shiftLeft_eq]
      · have hv := scale_mul_two_pow c 53 0
        rw [← scale_mul_scale, Nat.shiftLeft_eq, show (-53 : Int) = 0 - (53 : Nat) by decide, hv]
        simp [scale]

/-! ## Reading -/

theorem le_target {m : Nat} (h : 2 ^ 52 ≤ m) (e : Int) : e ≤ target m e := by
  have hlog : 52 ≤ m.log2 := (Nat.le_log2 (by omega)).2 h
  rw [target]
  omega

/-- What is read where `v` is written. -/
inductive IsRead (v : ℚ) : UnpackedFloat → Prop
  | zero : rounded v = 0 → IsRead v (.zero .positive)
  | finite {m : Nat} {e : Int} (h : Canonical m e) :
    e < 972 → scale m e = rounded v → IsRead v (.finite .positive m e h.pos)
  | infinity : 2 ^ (1024 : Int) ≤ rounded v → IsRead v (.infinity .positive)

/-- The finite numbers lie below `2 ^ 1024`, and their exponents below 972. -/
theorem scale_lt_iff {m : Nat} {e : Int} (h : Canonical m e) :
    scale m e < 2 ^ (1024 : Int) ↔ e < 972 := by
  have ht := h.target_eq
  rw [target] at ht
  constructor
  · intro hlt
    have hpow := (two_zpow_le_scale h.pos e).trans_lt hlt
    rw [zpow_lt_zpow_iff_right₀ one_lt_two] at hpow
    omega
  · intro he
    refine (scale_lt_two_zpow m e).trans_le ?_
    exact zpow_le_zpow_right₀ one_le_two (by omega)

/-- A rounded number is read as it is, or as infinity if its exponent is too great. -/
theorem IsRounded.isRead {v : ℚ} {u : UnpackedFloat} (h : IsRounded v u) :
    IsRead v (unpack .binary64 (pack .binary64 u)) := by
  cases h with
  | zero h =>
    rw [pack, packedZero, unpack_packComponents]
    exact .zero h
  | @finite m e hc h =>
    rw [unpack_pack hc]
    split
    · rename_i he
      exact .infinity (h ▸ not_lt.1 fun hlt => absurd ((scale_lt_iff hc).1 hlt) (not_lt.2 he))
    · rename_i he
      exact .finite hc (not_le.1 he) h

theorem unpack_infinity : Decimal.infinity.toModel.unpack = .infinity .positive := by
  rfl

theorem isRead_infinity {v : ℚ} (hv : 2 ^ (1024 : Int) ≤ v) : IsRead v (.infinity .positive) := by
  refine .infinity (not_lt.1 fun h => ?_)
  have hlt := (rounded_lt_iff ((two_zpow_pos _).le.trans hv)).1 h
  exact absurd hv (not_le.2 (hlt.trans overflow_lt))

theorem isRead_zero {v : ℚ} (hpos : 0 < v) (hv : v < 2 ^ (-1075 : Int)) :
    IsRead v (Float.toModel 0).unpack := by
  rw [unpack_zero]
  exact .zero (rounded_eq_zero hv hpos)

theorem digits_bounds {c : Nat} (hc : 0 < c) :
    (10 : ℚ) ^ ((Decimal.digits c).length - 1 : Int) ≤ c ∧
      (c : ℚ) < 10 ^ ((Decimal.digits c).length : Int) := by
  obtain ⟨n, hn⟩ : ∃ n, (Decimal.digits c).length = n + 1 :=
    Nat.exists_eq_add_one.2 (List.length_pos_iff.2 (Decimal.digits_ne_nil c))
  have hlt : c < 10 ^ (n + 1) :=
    hn ▸ (Nat.length_toDigits_le_iff (by decide) Nat.length_toDigits_pos).1 le_rfl
  have hle : 10 ^ n ≤ c := by
    refine Nat.le_of_not_lt fun h => ?_
    rcases Nat.eq_zero_or_pos n with rfl | hpos
    · exact absurd h (by omega)
    · have hlen : (Decimal.digits c).length ≤ n :=
        (Nat.length_toDigits_le_iff (by decide) hpos).2 h
      omega
  rw [hn, Nat.cast_succ, add_sub_cancel_right, ← Nat.cast_succ, zpow_natCast, zpow_natCast]
  exact ⟨by exact_mod_cast hle, by exact_mod_cast hlt⟩

theorem two_zpow_le_ten_zpow : (2 : ℚ) ^ (1024 : Int) ≤ 10 ^ (310 : Int) := by
  exact_mod_cast (by decide +kernel : 2 ^ 1024 ≤ 10 ^ 310)

theorem ten_zpow_le_two_zpow : (10 : ℚ) ^ (-330 : Int) ≤ 2 ^ (-1075 : Int) := by
  rw [zpow_neg, zpow_neg]
  refine inv_anti₀ (two_zpow_pos _) ?_
  exact_mod_cast (by decide +kernel : 2 ^ 1075 ≤ 10 ^ 330)

theorem isRead_ofScientific_whole {c : Nat} (hc : 0 < c) (k : Nat) :
    IsRead (c * 10 ^ k : Nat) (Float.ofScientific c false k).toModel.unpack := by
  rcases ofScientific_whole hc k with ⟨hk, h⟩ | ⟨m, e, hm, hv, h⟩
  · have hpow : (2 : ℚ) ^ 1024 ≤ (c * 10 ^ k : Nat) := by
      exact_mod_cast ((Nat.pow_le_pow_right (by decide) (by omega)).trans
        (Nat.pow_le_pow_left (by decide) k)).trans (Nat.le_mul_of_pos_left (10 ^ k) hc)
    rw [h]
    change IsRead _ (unpack .binary64 (pack .binary64 (.infinity .positive)))
    rw [pack, packedInfinity, unpack_packComponents]
    exact isRead_infinity (by exact_mod_cast hpow)
  · rw [h, ← hv]
    exact (isRounded_exact (by omega) (le_target hm e)).isRead

theorem isRead_ofScientific_places {c k : Nat} (hc : 0 < c) (hk : 0 < k) :
    IsRead (c / (10 ^ k : Nat)) (Float.ofScientific c true k).toModel.unpack := by
  rcases ofScientific_places hc hk with ⟨hfar, h⟩ | ⟨m₁, e₁, h₁, m₂, e₂, h₂, hv₁, hv₂, h⟩
  · have hten : (0 : ℚ) < (10 ^ k : Nat) := by positivity
    have hexp : (c.log2 + 1 : Int) ≤ -1075 + k := by omega
    have hsmall : (c : ℚ) < 2 ^ (-1075 : Int) * (10 ^ k : Nat) := by
      calc (c : ℚ) < 2 ^ (c.log2 + 1 : Int) := by exact_mod_cast (Nat.lt_log2_self : c < _)
        _ ≤ 2 ^ (-1075 + k : Int) := zpow_le_zpow_right₀ one_le_two hexp
        _ = 2 ^ (-1075 : Int) * 2 ^ k := by rw [zpow_add₀ two_ne_zero, zpow_natCast]
        _ ≤ 2 ^ (-1075 : Int) * (10 ^ k : Nat) := by
          refine mul_le_mul_of_nonneg_left ?_ (two_zpow_pos _).le
          exact_mod_cast Nat.pow_le_pow_left (by decide : 2 ≤ 10) k
    rw [h]
    change IsRead _ (unpack .binary64 (pack .binary64 (.zero .positive)))
    rw [pack, packedZero, unpack_packComponents]
    exact isRead_zero (div_pos (Nat.cast_pos.2 hc) hten) ((div_lt_iff₀ hten).2 hsmall)
  · rw [h, ← hv₁, ← hv₂]
    exact (isRounded_div h₁ h₂ e₁ e₂).isRead

/-- What is read of a fraction is the number it is rounded to. -/
theorem isRead_toFloat (d : Decimal) : IsRead d.toRat d.toFloat.toModel.unpack := by
  obtain ⟨c, e⟩ := d
  rcases Nat.eq_zero_or_pos c with rfl | hc
  · have hzero : Decimal.toRat ⟨0, e⟩ = 0 := by simp [Decimal.toRat]
    rw [hzero, Decimal.toFloat, if_pos rfl, unpack_zero]
    exact .zero rounded_zero
  · have hten (k : Int) : (0 : ℚ) < 10 ^ k := zpow_pos (by norm_num) k
    obtain ⟨hlow, hhigh⟩ := digits_bounds hc
    simp only [Decimal.toFloat, Nat.pos_iff_ne_zero.1 hc, if_false]
    split_ifs with hhuge htiny
    · -- too great, whatever the digits are
      rw [unpack_infinity]
      refine isRead_infinity ?_
      calc (2 : ℚ) ^ (1024 : Int) ≤ 10 ^ (310 : Int) := two_zpow_le_ten_zpow
        _ ≤ 10 ^ ((Decimal.digits c).length - 1 + e : Int) :=
          zpow_le_zpow_right₀ (by norm_num) (by omega)
        _ = 10 ^ ((Decimal.digits c).length - 1 : Int) * 10 ^ e := zpow_add₀ (by norm_num) _ _
        _ ≤ c * 10 ^ e := mul_le_mul_of_nonneg_right hlow (hten e).le
    · -- too small
      refine isRead_zero (mul_pos (Nat.cast_pos.2 hc) (hten e)) ?_
      calc (c : ℚ) * 10 ^ e < 10 ^ ((Decimal.digits c).length : Int) * 10 ^ e :=
          mul_lt_mul_of_pos_right hhigh (hten e)
        _ = 10 ^ ((Decimal.digits c).length + e : Int) := (zpow_add₀ (by norm_num) _ _).symm
        _ ≤ 10 ^ (-330 : Int) := zpow_le_zpow_right₀ (by norm_num) (by omega)
        _ ≤ 2 ^ (-1075 : Int) := ten_zpow_le_two_zpow
    · cases e with
      | ofNat k =>
        have hval : Decimal.toRat ⟨c, .ofNat k⟩ = (c * 10 ^ k : Nat) := by simp [Decimal.toRat]
        rw [hval]
        exact isRead_ofScientific_whole hc k
      | negSucc k =>
        have hval : Decimal.toRat ⟨c, .negSucc k⟩ = c / (10 ^ (k + 1) : Nat) := by
          simp [Decimal.toRat, div_eq_mul_inv]
        rw [hval]
        exact isRead_ofScientific_places hc k.succ_pos

theorem IsRead.unsigned {v : ℚ} {u : UnpackedFloat} (h : IsRead v u) : Unsigned u := by
  cases h with
  | zero => exact .zero
  | finite => exact .finite
  | infinity => exact .infinity

/-- What is read has a clear sign bit. -/
theorem unsigned_toFloat (d : Decimal) : Unsigned d.toFloat.toModel.unpack :=
  (isRead_toFloat d).unsigned

/-- What is read where a number is written is one number. -/
theorem IsRead.unique {v : ℚ} {u w : UnpackedFloat} (hu : IsRead v u) (hw : IsRead v w) :
    u = w := by
  have hnot {m : Nat} {e : Int} (h : Canonical m e) (he : e < 972) :
      ¬2 ^ (1024 : Int) ≤ scale m e := not_le.2 ((scale_lt_iff h).2 he)
  have hpos {m : Nat} {e : Int} (h : Canonical m e) : scale m e ≠ 0 := (scale_pos h.pos e).ne'
  cases hu with
  | zero h =>
    cases hw with
    | zero => rfl
    | finite hc _ h' => exact absurd (h'.trans h) (hpos hc)
    | infinity h' => exact absurd h' (h ▸ not_le.2 (two_zpow_pos _))
  | finite hc he h =>
    cases hw with
    | zero h' => exact absurd (h.trans h') (hpos hc)
    | finite hc' _ h' =>
      obtain ⟨rfl, rfl⟩ := hc.eq_of_scale hc' (h.trans h'.symm)
      rfl
    | infinity h' => exact absurd (h ▸ h') (hnot hc he)
  | infinity h =>
    cases hw with
    | zero h' => exact absurd h (h' ▸ not_le.2 (two_zpow_pos _))
    | finite hc he h' => exact absurd (h' ▸ h) (hnot hc he)
    | infinity => rfl

theorem eq_of_unpack {x y : Float} (h : x.toModel.unpack = y.toModel.unpack) : x = y := by
  rw [eq_ofModel_pack h, ofModel_pack_unpack]

theorem isInf_of_isFinite {x : Float} (h : x.isFinite = true) : x.isInf = false := by
  change x.toModel.unpack.isFinite = true at h
  change x.toModel.unpack.isInf = false
  cases hu : x.toModel.unpack with
  | infinity =>
    rw [hu] at h
    cases h
  | _ => rfl

theorem eq_infinity_of_isFinite {x : Float} (hu : Unsigned x.toModel.unpack)
    (h : x.isFinite = false) : x = Decimal.infinity := by
  change x.toModel.unpack.isFinite = false at h
  refine eq_of_unpack ?_
  rw [unpack_infinity]
  cases hu' : x.toModel.unpack with
  | infinity =>
    rw [hu'] at hu
    cases hu
    rfl
  | notANumber =>
    rw [hu'] at hu
    cases hu
  | _ =>
    rw [hu'] at h
    cases h

/-- Fractions of one value are read as one number. -/
theorem toFloat_congr {d d' : Decimal} (h : d.toRat = d'.toRat) : d.toFloat = d'.toFloat :=
  eq_of_unpack ((isRead_toFloat d).unique (h ▸ isRead_toFloat d'))

/-- The number is a natural number. -/
def IsWhole (m : Nat) (e : Int) : Prop :=
  ∃ n : Nat, scale m e = n

section Finite

variable {x : Float} {m : Nat} {e : Int} {hm : 0 < m}
  (hx : x.toModel.unpack = .finite .positive m e hm)
include hx

/-- A fraction that is a floating-point number is read as this number. -/
theorem toFloat_exact {d : Decimal} (hd : d.toRat = scale m e) : d.toFloat = x := by
  obtain ⟨hc, he⟩ := canonical_of_unpack hx
  refine eq_of_unpack ((isRead_toFloat d).unique ?_)
  rw [hd, hx]
  exact .finite hc he (rounded_canonical hc).symm

/-- What a natural number is read as is a natural number, if it is finite. -/
theorem isWhole_of_toFloat {c k : Nat} (h : (⟨c, k⟩ : Decimal).toFloat = x) : IsWhole m e := by
  have hread := isRead_toFloat ⟨c, k⟩
  have hval : Decimal.toRat ⟨c, k⟩ = (c * 10 ^ k : Nat) := by simp [Decimal.toRat]
  rw [h, hx, hval] at hread
  cases hread with
  | finite _ _ h =>
    obtain ⟨r, hr⟩ := exists_rounded_natCast (c * 10 ^ k)
    exact ⟨r, h.trans hr⟩

end Finite

/-! ## The nearest number -/

/-- The value of what is unpacked, if it is finite. -/
def unpackedValue : UnpackedFloat → ℚ
  | .finite .positive m e _ => scale m e
  | .finite .negative m e _ => -scale m e
  | _ => 0

/-- The value of a finite number. -/
def value (x : Float) : ℚ :=
  unpackedValue x.toModel.unpack

theorem toRat_nonneg (d : Decimal) : 0 ≤ d.toRat :=
  mul_nonneg d.coefficient.cast_nonneg (zpow_pos (by norm_num) _).le

theorem IsRead.isFinite_iff {v : ℚ} {u : UnpackedFloat} (h : IsRead v u) :
    u.isFinite = true ↔ rounded v < 2 ^ (1024 : Int) := by
  cases h with
  | zero h => exact iff_of_true rfl (h ▸ two_zpow_pos _)
  | finite hc he h => exact iff_of_true rfl (h ▸ (scale_lt_iff hc).2 he)
  | infinity h => exact iff_of_false (by simp [UnpackedFloat.isFinite]) (not_lt.2 h)

theorem IsRead.value_eq {v : ℚ} {u : UnpackedFloat} (h : IsRead v u) (hu : u.isFinite = true) :
    unpackedValue u = rounded v := by
  cases h with
  | zero h => exact h.symm
  | finite hc he h => exact h
  | infinity h => cases hu

/-- A fraction is read as a finite number if it is not too great. -/
theorem isFinite_toFloat_iff (d : Decimal) : d.toFloat.isFinite = true ↔ d.toRat < overflow :=
  (isRead_toFloat d).isFinite_iff.trans (rounded_lt_iff (toRat_nonneg d))

/-- No finite number is nearer than the one that is read. -/
theorem abs_value_toFloat_sub_le {d : Decimal} (hd : d.toFloat.isFinite = true) (y : Float) :
    |value d.toFloat - d.toRat| ≤ |value y - d.toRat| := by
  have hv := toRat_nonneg d
  rw [value, (isRead_toFloat d).value_eq hd]
  generalize d.toRat = v at hv
  rcases hv.eq_or_lt with rfl | hpos
  · rw [rounded_zero, sub_self, abs_zero]
    exact abs_nonneg _
  · have hzero : |rounded v - v| ≤ v := by
      simpa [scale, abs_of_pos hpos] using abs_rounded_sub_le_multiple hv 0
    rw [value]
    cases hy : y.toModel.unpack with
    | finite s m e hm =>
      have hc := (canonical_of_unpack hy).1
      cases s with
      | positive => exact abs_rounded_sub_le hpos hc
      | negative =>
        refine hzero.trans ?_
        rw [unpackedValue, ← neg_add', abs_neg, abs_of_pos (add_pos (scale_pos hm e) hpos)]
        exact le_add_of_nonneg_left (scale_nonneg m e)
    | _ => simpa [unpackedValue, abs_of_pos hpos] using hzero

end Binary64

end ConvexLang
