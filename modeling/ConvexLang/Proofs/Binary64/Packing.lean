import ConvexLang.Decimal.Layout
import ConvexLang.Proofs.Binary64.Rounding

/-!
# Bits of a floating-point number

The 64 bits of a floating-point number are a sign, 11 bits of exponent and 52
bits of mantissa. Arithmetic unpacks them, works on a sign, a mantissa and an
exponent, and packs the result.

* `pack_unpack`: unpacking and packing gives the same bits back.
* `unpack_pack`: packing and unpacking gives a canonical number back, as long as
  its exponent fits.
* `canonical_of_unpack`: what is unpacked is canonical.
* `Unsigned`: the numbers with a clear sign bit.
* `ofFloat_eq_of_finite`: the magnitude of a number, which is read off its bits, is
  the value of its mantissa and its exponent.
-/

namespace ConvexLang.Binary64

open Float.Model (Format UnpackedFloat)
open Float.Model.UnpackedFloat

/-! ## Components -/

theorem exponentBias_eq : Format.binary64.exponentBias = 1023 := by
  decide

theorem mantissaBits_eq : Format.binary64.mantissaBits = 53 := by
  decide

theorem toNat_unpackMantissa (b : BitVec Format.binary64.numBits) :
    (unpackMantissa b).toNat = b.toNat % 2 ^ 52 := by
  simp [unpackMantissa]

theorem toNat_unpackExponent (b : BitVec Format.binary64.numBits) :
    (unpackExponent b).toNat = b.toNat / 2 ^ 52 % 2 ^ 11 := by
  simp [unpackExponent, Nat.shiftRight_eq_div_pow]

theorem toNat_unpackSign (b : BitVec Format.binary64.numBits) :
    (unpackSign b).toNat = b.toNat / 2 ^ 63 := by
  have : b.toNat < 2 ^ 64 := b.isLt
  simp only [unpackSign, BitVec.toNat_cast, BitVec.extractLsb_toNat, Nat.shiftRight_eq_div_pow]
  norm_num
  omega

theorem toNat_packComponents (s : UnpackedFloat.Sign) (e : BitVec Format.binary64.exponentBits)
    (m : BitVec Format.binary64.mantissaBitsWithoutImplicit) :
    (packComponents .binary64 s e m).toNat =
      s.toBitVec.toNat * 2 ^ 63 + e.toNat * 2 ^ 52 + m.toNat := by
  have he := e.isLt
  have hm := m.isLt
  simp only [packComponents, BitVec.toNat_append]
  rw [← Nat.shiftLeft_add_eq_or_of_lt hm, ← Nat.shiftLeft_add_eq_or_of_lt he]
  simp only [Nat.shiftLeft_eq]
  omega

theorem toNat_implicit (m : BitVec 52) : (1#1 ++ m).toNat = 2 ^ 52 + m.toNat := by
  rw [BitVec.toNat_append, ← Nat.shiftLeft_add_eq_or_of_lt m.isLt]
  simp

theorem toBitVec_ofBitVec (b : BitVec 1) : (UnpackedFloat.Sign.ofBitVec b).toBitVec = b := by
  revert b
  decide

theorem ofBitVec_toBitVec (s : UnpackedFloat.Sign) :
    UnpackedFloat.Sign.ofBitVec s.toBitVec = s := by
  cases s <;> rfl

theorem unpackSign_packComponents (s : UnpackedFloat.Sign)
    (e : BitVec Format.binary64.exponentBits)
    (m : BitVec Format.binary64.mantissaBitsWithoutImplicit) :
    unpackSign (packComponents .binary64 s e m) = s.toBitVec := by
  apply BitVec.eq_of_toNat_eq
  rw [toNat_unpackSign, toNat_packComponents]
  have he : e.toNat < 2 ^ 11 := e.isLt
  have hm : m.toNat < 2 ^ 52 := m.isLt
  omega

/-- Any bits are made of a sign, an exponent and a mantissa. -/
theorem exists_packComponents (b : BitVec Format.binary64.numBits) :
    ∃ s e m, b = packComponents .binary64 s e m := by
  refine ⟨.ofBitVec (unpackSign b), unpackExponent b, unpackMantissa b, ?_⟩
  apply BitVec.eq_of_toNat_eq
  rw [toNat_packComponents, toBitVec_ofBitVec, toNat_unpackSign, toNat_unpackExponent,
    toNat_unpackMantissa]
  have : b.toNat < 2 ^ 64 := b.isLt
  omega

/-- Components, unpacked: the greatest exponent marks what is not finite, and the
    least one leaves out the implicit bit. -/
theorem unpack_packComponents (s : UnpackedFloat.Sign)
    (e : BitVec Format.binary64.exponentBits)
    (m : BitVec Format.binary64.mantissaBitsWithoutImplicit) :
    unpack .binary64 (packComponents .binary64 s e m) =
      if e.toNat = 2047 then if m.toNat = 0 then .infinity s else .notANumber
      else if e.toNat = 0 then
        if h : m.toNat = 0 then .zero s else .finite s m.toNat (-1074) (Nat.pos_of_ne_zero h)
      else .finite s (2 ^ 52 + m.toNat) (e.toNat - 1075)
        (Nat.add_pos_left (Nat.two_pow_pos 52) m.toNat) := by
  have hm : m = 0#_ ↔ m.toNat = 0 := BitVec.toNat_eq.trans (by simp)
  have he0 : e = 0#_ ↔ e.toNat = 0 := BitVec.toNat_eq.trans (by simp)
  have he1 : e = -1#_ ↔ e.toNat = 2047 := BitVec.toNat_eq.trans (by simp)
  simp only [unpack, unpackMantissa_packComponents, unpackExponent_packComponents,
    unpackSign_packComponents, ofBitVec_toBitVec, he1, he0, hm, toNat_implicit, exponentBias_eq]
  split
  · rfl
  · split
    · rename_i h
      split
      · rfl
      · rw [h]
        rfl
    · rfl

/-! ## Packing -/

theorem two_pow_lt_log2 {m : Nat} (h : m < 2 ^ 52) : m.log2 + 1 ≠ 53 := fun hm => by
  rcases Nat.eq_zero_or_pos m with rfl | hpos
  · simp at hm
  · have := (Nat.log2_lt (Nat.pos_iff_ne_zero.1 hpos)).2 h
    omega

theorem log2_of_bounds {m : Nat} (h : m < 2 ^ 52) : (2 ^ 52 + m).log2 + 1 = 53 := by
  rw [(Nat.log2_eq_iff (by omega)).2 ⟨Nat.le_add_right _ m, by omega⟩]

/-- What is unpacked and packed again is what it was. -/
theorem pack_unpack {b : BitVec Format.binary64.numBits} (h : Format.binary64.Valid b) :
    pack .binary64 (unpack .binary64 b) = b := by
  obtain ⟨s, e, m, rfl⟩ := exists_packComponents b
  have hm : m.toNat < 2 ^ 52 := m.isLt
  have he : e.toNat < 2 ^ 11 := e.isLt
  rw [unpack_packComponents]
  split
  · -- an infinity, or the only value that is not a number
    rename_i he1
    have he1 : e = -1#_ := BitVec.toNat_eq.2 (by simp [he1])
    split
    · rename_i hm0
      have hm0 : m = 0#_ := BitVec.toNat_eq.2 (by simp [hm0])
      rw [pack, packedInfinity, he1, hm0]
      rfl
    · rename_i hm0
      refine (h.eq_packedNaN ?_ ?_).symm
      · rw [unpackExponent_packComponents, he1]
      · rw [unpackMantissa_packComponents]
        exact fun hm => hm0 (by simp [hm])
  · split
    · -- zero, or a mantissa without the implicit bit
      rename_i he0
      have he0 : e = 0#_ := BitVec.toNat_eq.2 (by simp [he0])
      split
      · rename_i hm0
        have hm0 : m = 0#_ := BitVec.toNat_eq.2 (by simp [hm0])
        rw [pack, packedZero, he0, hm0]
        rfl
      · simp only [pack, exponentBias_eq, mantissaBits_eq, two_pow_lt_log2 hm, if_false, he0]
        simp
    · -- a mantissa with the implicit bit
      rename_i he1 he0
      have hexp : ((e.toNat : Int) - 1075 + (1023 : Nat) + (52 : Nat)).toNat = e.toNat := by omega
      have hover : ¬2 ^ 11 ≤ e.toNat + 1 := by omega
      simp only [pack, exponentBias_eq, mantissaBits_eq, log2_of_bounds hm, if_true, hexp, hover,
        if_false]
      congr 1
      · exact BitVec.eq_of_toNat_eq (by rw [BitVec.toNat_ofNat, Nat.mod_eq_of_lt e.isLt])
      · apply BitVec.eq_of_toNat_eq
        rw [BitVec.toNat_ofNat, Nat.add_mod_left, Nat.mod_eq_of_lt hm]

/-- A canonical number is packed without loss, or as an infinity where its
    exponent is too great. -/
theorem unpack_pack {m : Nat} {e : Int} (h : Canonical m e) (s : UnpackedFloat.Sign) :
    unpack .binary64 (pack .binary64 (.finite s m e h.pos)) =
      if 972 ≤ e then .infinity s else .finite s m e h.pos := by
  have ht := h.target_eq
  rw [target] at ht
  have hne := Nat.pos_iff_ne_zero.1 h.pos
  rcases lt_or_ge e 972 with hfit | hover
  · rw [if_neg (not_le.2 hfit)]
    have hexp : ¬2 ^ 11 ≤ (e + (1023 : Nat) + (52 : Nat)).toNat + 1 := by omega
    simp only [pack, exponentBias_eq, mantissaBits_eq, hexp, if_false]
    split
    · -- the leading bit of the mantissa is left out
      rename_i hnormal
      have hlow : 2 ^ 52 ≤ m := (Nat.le_log2 hne).1 (by omega)
      have hhigh : m < 2 ^ 53 := (Nat.log2_lt hne).1 (by omega)
      have he : (BitVec.ofNat 11 (e + (1023 : Nat) + (52 : Nat)).toNat).toNat = e + 1075 := by
        rw [BitVec.toNat_ofNat]
        omega
      have hm : (BitVec.ofNat 52 m).toNat = m - 2 ^ 52 := by
        rw [BitVec.toNat_ofNat]
        omega
      rw [unpack_packComponents, if_neg (by omega), if_neg (by omega)]
      congr 1 <;> omega
    · -- the mantissa is too short, so the exponent is the least one
      rename_i hsubnormal
      have hhigh : m < 2 ^ 52 := (Nat.log2_lt hne).1 (by omega)
      have hm : (BitVec.ofNat 52 m).toNat = m := by
        rw [BitVec.toNat_ofNat]
        omega
      have he : e = -1074 := by omega
      rw [unpack_packComponents]
      simp [hm, hne, he]
  · rw [if_pos hover]
    have hexp : 2 ^ 11 ≤ (e + (1023 : Nat) + (52 : Nat)).toNat + 1 := by omega
    simp only [pack, exponentBias_eq, mantissaBits_eq, hexp, if_true, packedInfinity,
      unpack_packComponents]
    rfl

/-- What is unpacked is canonical, and its exponent fits. -/
theorem canonical_of_unpack {b : BitVec Format.binary64.numBits} {s : UnpackedFloat.Sign}
    {m : Nat} {e : Int} {h : 0 < m} (hb : unpack .binary64 b = .finite s m e h) :
    Canonical m e ∧ e < 972 := by
  obtain ⟨t, x, f, rfl⟩ := exists_packComponents b
  have hx : x.toNat < 2 ^ 11 := x.isLt
  have hf : f.toNat < 2 ^ 52 := f.isLt
  rw [unpack_packComponents] at hb
  split at hb
  · split at hb <;> cases hb
  · split at hb
    · split at hb
      · cases hb
      · cases hb
        exact ⟨canonical_of_lt h (by omega) (by omega) (.inl rfl), by omega⟩
    · cases hb
      exact ⟨canonical_of_lt h (by omega) (by omega) (.inr (by omega)), by omega⟩

theorem ofModel_pack_unpack (x : Float) : Float.ofModel (.pack x.toModel.unpack) = x := by
  obtain ⟨⟨bits, hvalid⟩⟩ := x
  have h := pack_unpack hvalid
  simp only [Float.Model.pack, Float.Model.unpack, h]

/-- A number is the one that its unpacked form is packed to. -/
theorem eq_ofModel_pack {x : Float} {u : UnpackedFloat} (h : x.toModel.unpack = u) :
    x = .ofModel (.pack u) := by
  rw [← h, ofModel_pack_unpack]

/-! ## Numbers with a clear sign bit -/

/-- The number is not negative, not negative zero and not the value that is not a
    number. -/
inductive Unsigned : UnpackedFloat → Prop
  | zero : Unsigned (.zero .positive)
  | infinity : Unsigned (.infinity .positive)
  | finite {m : Nat} {e : Int} {h : 0 < m} : Unsigned (.finite .positive m e h)

/-- Packing keeps the sign bit clear. -/
theorem Unsigned.unpack_pack {u : UnpackedFloat} (h : Unsigned u) :
    Unsigned (unpack .binary64 (pack .binary64 u)) := by
  cases h with
  | zero =>
    rw [pack, packedZero, unpack_packComponents]
    exact .zero
  | infinity =>
    rw [pack, packedInfinity, unpack_packComponents]
    exact .infinity
  | @finite m e h =>
    have hinf : Unsigned (unpack .binary64 (packedInfinity .binary64 .positive)) := by
      rw [packedInfinity, unpack_packComponents]
      exact .infinity
    -- a finite number is packed with an exponent that does not mark an infinity
    have hfin {x : BitVec Format.binary64.exponentBits} (f) (hx : x.toNat ≠ 2047) :
        Unsigned (unpack .binary64 (packComponents .binary64 .positive x f)) := by
      rw [unpack_packComponents, if_neg hx]
      split
      · split
        · exact .zero
        · exact .finite
      · exact .finite
    rw [pack]
    split
    · exact hinf
    · rename_i hfit
      change ¬2 ^ 11 ≤ _ at hfit
      split
      · refine hfin _ ?_
        rw [BitVec.toNat_ofNat]
        exact ((Nat.mod_le _ _).trans_lt (by omega)).ne
      · exact hfin _ (by decide)

theorem Unsigned.isNaN {u : UnpackedFloat} (h : Unsigned u) : u.isNaN = false := by
  cases h <;> rfl

theorem Unsigned.zero_le {u : UnpackedFloat} (h : Unsigned u) :
    UnpackedFloat.le (.zero .positive) u = true := by
  cases h <;> rfl

theorem Unsigned.abs {u : UnpackedFloat} (h : Unsigned u) : u.abs = u := by
  cases h <;> rfl

theorem unpack_zero : (Float.toModel 0).unpack = .zero .positive := by
  rfl

theorem nonneg_of_unsigned {x : Float} (h : Unsigned x.toModel.unpack) : 0 ≤ x := by
  refine decide_eq_true (?_ : UnpackedFloat.le (Float.toModel 0).unpack x.toModel.unpack = true)
  rw [unpack_zero]
  exact h.zero_le

theorem abs_of_unsigned {x : Float} (h : Unsigned x.toModel.unpack) : x.abs = x := by
  change Float.ofModel (.pack x.toModel.unpack.abs) = x
  rw [h.abs, ofModel_pack_unpack]

theorem Unsigned.beq_iff {u v : UnpackedFloat} (hu : Unsigned u) (hv : Unsigned v) :
    UnpackedFloat.beq u v = true ↔ u = v := by
  cases hu with
  | zero => cases hv <;> simp [UnpackedFloat.beq, UnpackedFloat.compare]
  | infinity =>
    cases hv with
    | infinity => exact ⟨fun _ => rfl, fun _ => rfl⟩
    | _ => simp [UnpackedFloat.beq, UnpackedFloat.compare]
  | finite =>
    -- the exponents are compared first, then the mantissas
    cases hv <;> simp [UnpackedFloat.beq, UnpackedFloat.compare, and_comm]

/-- Numbers with a clear sign bit compare equal if they are the same number. -/
theorem beq_iff_of_unsigned {x y : Float} (hx : Unsigned x.toModel.unpack)
    (hy : Unsigned y.toModel.unpack) : (x == y) = true ↔ x = y := by
  refine (hx.beq_iff hy).trans ⟨fun h => ?_, fun h => congrArg (fun z => z.toModel.unpack) h⟩
  rw [eq_ofModel_pack h, ofModel_pack_unpack]

/-- The bits of a number with a clear sign bit are its exponent and its mantissa. -/
theorem exists_fields {x : Float} (h : Unsigned x.toModel.unpack) :
    ∃ (e : BitVec 11) (m : BitVec 52),
      x.toBits.toNat = e.toNat * 2 ^ 52 + m.toNat ∧
        x.toModel.unpack = unpack .binary64 (packComponents .binary64 .positive e m) := by
  obtain ⟨s, e, m, hb⟩ := exists_packComponents x.toModel.toBits.toBitVec
  have hu : x.toModel.unpack = unpack .binary64 (packComponents .binary64 s e m) := by
    rw [← hb]
    rfl
  have hs : s = .positive := by
    rw [hu, unpack_packComponents] at h
    split at h
    · split at h <;> cases h
      rfl
    · split at h
      · split at h <;> cases h <;> rfl
      · cases h
        rfl
  subst hs
  refine ⟨e, m, ?_, hu⟩
  change x.toModel.toBits.toBitVec.toNat = _
  rw [hb, toNat_packComponents]
  simp [UnpackedFloat.Sign.toBitVec]

theorem isNegative_of_unsigned {x : Float} (h : Unsigned x.toModel.unpack) :
    Decimal.isNegative x = false := by
  obtain ⟨e, m, hbits, -⟩ := exists_fields h
  have he : e.toNat < 2 ^ 11 := e.isLt
  have hm : m.toNat < 2 ^ 52 := m.isLt
  rw [Decimal.isNegative, decide_eq_false_iff_not, ge_iff_le, UInt64.le_iff_toNat_le, hbits]
  have h63 : (0x8000000000000000 : UInt64).toNat = 2 ^ 63 := by decide
  omega

/-! ## Magnitudes -/

/-- The magnitude read off the bits is that of the mantissa and the exponent. -/
theorem ofFloat_eq_of_finite {x : Float} {m : Nat} {e : Int} {hm : 0 < m}
    (h : x.toModel.unpack = .finite .positive m e hm) :
    Magnitude.ofFloat x = ⟨m <<< e.toNat, 1 <<< (-e).toNat⟩ := by
  have hx : Unsigned x.toModel.unpack := h ▸ .finite
  obtain ⟨b, f, hbits, hu⟩ := exists_fields hx
  have hf : f.toNat < 2 ^ 52 := f.isLt
  have hb : b.toNat < 2 ^ 11 := b.isLt
  have hfraction : x.toBits.toNat % 1 <<< 52 = f.toNat := by
    rw [hbits, Nat.one_shiftLeft]
    omega
  have hbiased : x.toBits.toNat / 1 <<< 52 % 2048 = b.toNat := by
    rw [hbits, Nat.one_shiftLeft]
    omega
  rw [h, unpack_packComponents] at hu
  simp only [Magnitude.ofFloat, hfraction, hbiased]
  split at hu
  · split at hu <;> cases hu
  · split at hu
    · split at hu
      · cases hu
      · rename_i hb0 _
        cases hu
        rw [if_pos hb0]
        rfl
    · rename_i hb0
      cases hu
      rw [if_neg hb0, Nat.add_comm f.toNat, Nat.one_shiftLeft]
      split
      · have he : ((b.toNat : Int) - 1075).toNat = b.toNat - 1075 := by omega
        have hneg : (-((b.toNat : Int) - 1075)).toNat = 0 := by omega
        rw [he, hneg, Nat.shiftLeft_zero]
      · have he : ((b.toNat : Int) - 1075).toNat = 0 := by omega
        have hneg : (-((b.toNat : Int) - 1075)).toNat = 1075 - b.toNat := by omega
        rw [he, hneg, Nat.shiftLeft_zero]

end ConvexLang.Binary64
