import ConvexLang.Proofs.Binary64.Reading

/-!
# The plain text of a floating-point number

A finite number with a clear sign bit is shown as digits, a point and digits,
and this text is read as the number itself (`plainText_reads`). A whole number
is shown in all its digits, and as a fraction with one place it is read without
error. Any other number is shown with the digits that were found to read back,
or with all its digits. A fraction without places behind the point never stands
for a number that is not whole, so no such fraction is found.
-/

namespace ConvexLang.Binary64

open Float.Model (Format UnpackedFloat)
open Float.Model.UnpackedFloat

/-! ## Positional texts -/

/-- A text is digits, a point and digits, of which some stand behind the point,
    and is read as the fraction. -/
def Shows (cs : List Char) (d : Decimal) : Prop :=
  ∃ whole fraction, cs = whole ++ '.' :: fraction ∧ whole ≠ [] ∧ fraction ≠ [] ∧
    (∀ c ∈ whole ++ fraction, c.isDigit = true) ∧ Decimal.ofParts whole fraction = d

theorem value_replicate_append (n : Nat) (ds : List Char) :
    Decimal.value (List.replicate n '0' ++ ds) = Decimal.value ds := by
  simp [Decimal.value, Nat.ofDigitChars_append]

/-- Digits around a point. In front of it stands one digit, or the first digits of the
    number. -/
theorem exists_withPoint (c : Nat) {k : Nat} (hk : 0 < k) :
    ∃ whole fraction, Decimal.withPoint (Decimal.digits c) k = whole ++ '.' :: fraction ∧
      whole ≠ [] ∧ fraction ≠ [] ∧ (∀ c ∈ whole ++ fraction, c.isDigit = true) ∧
      Decimal.ofParts whole fraction = ⟨c, -k⟩ ∧
      (whole.length = 1 ∨ whole <+: Decimal.digits c) := by
  rw [Decimal.withPoint]
  -- zeros in front of the digits do not matter, so they are digits like the others
  generalize hn : k + 1 - (Decimal.digits c).length = n
  have hlen : (List.replicate n '0' ++ Decimal.digits c).length =
      max (k + 1) (Decimal.digits c).length := by
    rw [List.length_append, List.length_replicate]
    omega
  have hdigits : ∀ x ∈ List.replicate n '0' ++ Decimal.digits c, x.isDigit = true := by
    intro x hx
    rcases List.mem_append.1 hx with hx | hx
    · rw [List.eq_of_mem_replicate hx]
      rfl
    · exact Decimal.isDigit_of_mem_digits hx
  have hvalue := value_replicate_append n (Decimal.digits c)
  rw [Decimal.value_digits] at hvalue
  have hfirst : (List.replicate n '0' ++ Decimal.digits c).length = k + 1 ∨
      List.replicate n '0' ++ Decimal.digits c = Decimal.digits c := by
    rcases Nat.eq_zero_or_pos n with rfl | hpos
    · exact .inr rfl
    · exact .inl (by omega)
  generalize List.replicate n '0' ++ Decimal.digits c = filled at *
  refine ⟨_, _, rfl, ?_, ?_, ?_, ?_, ?_⟩
  · refine List.ne_nil_of_length_pos ?_
    rw [List.length_take]
    omega
  · refine List.ne_nil_of_length_pos ?_
    rw [List.length_drop]
    omega
  · rwa [List.take_append_drop]
  · rw [Decimal.ofParts, List.take_append_drop, hvalue, List.length_drop]
    congr 2
    omega
  · rcases hfirst with h | h
    · left
      rw [List.length_take]
      omega
    · right
      rw [← h]
      exact List.take_prefix _ _

theorem shows_withPoint (c : Nat) {k : Nat} (hk : 0 < k) :
    Shows (Decimal.withPoint (Decimal.digits c) k) ⟨c, -k⟩ := by
  obtain ⟨whole, fraction, h, hwhole, hfraction, hdigits, hvalue, -⟩ := exists_withPoint c hk
  exact ⟨whole, fraction, h, hwhole, hfraction, hdigits, hvalue⟩

theorem shows_positional {d : Decimal} (h : d.exponent < 0) : Shows (Decimal.positional d) d := by
  obtain ⟨c, e⟩ := d
  cases e with
  | ofNat k => exact absurd h (by simp)
  | negSucc k => exact shows_withPoint c k.succ_pos

theorem shows_whole (n : Nat) : Shows (Decimal.digits n ++ ['.', '0']) ⟨10 * n, -1⟩ := by
  refine ⟨Decimal.digits n, ['0'], rfl, Decimal.digits_ne_nil n, by simp, ?_, ?_⟩
  · intro c hc
    rcases List.mem_append.1 hc with hc | hc
    · exact Decimal.isDigit_of_mem_digits hc
    · rw [List.mem_singleton.1 hc]
      rfl
  · have hvalue : Decimal.value (Decimal.digits n ++ ['0']) = 10 * n := by
      have h := Decimal.value_digits n
      rw [Decimal.value] at h ⊢
      rw [Nat.ofDigitChars_append, h]
      simp [Nat.ofDigitChars_cons]
    rw [Decimal.ofParts, hvalue]
    rfl

/-! ## Finite numbers -/

section Finite

variable {x : Float} {m : Nat} {e : Int} {hm : 0 < m}
  (hx : x.toModel.unpack = .finite .positive m e hm)
include hx

theorem scale_mul_denominator :
    scale m e * (Magnitude.ofFloat x).denominator = (Magnitude.ofFloat x).numerator := by
  rw [ofFloat_eq_of_finite hx]
  dsimp only
  rw [Nat.one_shiftLeft, Nat.shiftLeft_eq, scale]
  rcases le_or_gt 0 e with he | he
  · obtain ⟨k, rfl⟩ := Int.eq_ofNat_of_zero_le he
    simp
  · obtain ⟨k, rfl⟩ : ∃ k : Nat, e = -k := ⟨(-e).toNat, by omega⟩
    simp

theorem denominator_pos : 0 < (Magnitude.ofFloat x).denominator := by
  rw [ofFloat_eq_of_finite hx, Nat.one_shiftLeft]
  exact Nat.two_pow_pos _

/-- A whole number is the whole part of its magnitude. -/
theorem scale_eq_floor (hw : (Magnitude.ofFloat x).isWhole = true) :
    scale m e = (Magnitude.ofFloat x).floor := by
  have hpos := denominator_pos hx
  have hmul := scale_mul_denominator hx
  have hdvd := Nat.div_mul_cancel (Nat.dvd_of_mod_eq_zero (of_decide_eq_true hw))
  refine mul_right_cancel₀ (Nat.cast_pos.2 hpos).ne' (hmul.trans ?_)
  rw [← Nat.cast_mul, Magnitude.floor, hdvd]

theorem not_isWhole (hw : (Magnitude.ofFloat x).isWhole = false) : ¬IsWhole m e := by
  rintro ⟨n, hn⟩
  have hmod : (Magnitude.ofFloat x).numerator % (Magnitude.ofFloat x).denominator ≠ 0 :=
    of_decide_eq_false hw
  have hmul := scale_mul_denominator hx
  rw [hn, ← Nat.cast_mul, Nat.cast_inj] at hmul
  exact hmod (hmul ▸ Nat.mul_mod_left _ _)

theorem ofMagnitude_ofFloat :
    Decimal.ofMagnitude (Magnitude.ofFloat x) =
      ⟨(Magnitude.ofFloat x).numerator * 5 ^ (-e).toNat, -(-e).toNat⟩ := by
  rw [ofFloat_eq_of_finite hx, Decimal.ofMagnitude]
  simp [Nat.one_shiftLeft]

/-- All digits of a number are read as the number. -/
theorem toFloat_ofMagnitude : (Decimal.ofMagnitude (Magnitude.ofFloat x)).toFloat = x := by
  have hmul := scale_mul_denominator hx
  have hdenominator : (Magnitude.ofFloat x).denominator = 2 ^ (-e).toNat := by
    rw [ofFloat_eq_of_finite hx, Nat.one_shiftLeft]
  rw [hdenominator] at hmul
  rw [ofMagnitude_ofFloat hx]
  generalize (Magnitude.ofFloat x).numerator = n at hmul
  generalize (-e).toNat = k at hmul
  refine toFloat_exact hx ?_
  -- `n / 2 ^ k` is `n * 5 ^ k` with `k` places
  have hten : (10 : ℚ) ^ k = 2 ^ k * 5 ^ k := by
    rw [← mul_pow]
    norm_num
  push_cast at hmul
  rw [Decimal.toRat, zpow_neg, zpow_natCast, hten]
  push_cast
  rw [← hmul]
  field_simp

/-- The shortest fraction of a number is read as the number. -/
theorem toFloat_shortest (tie : Tie) : (Decimal.shortest tie x).toFloat = x := by
  rw [Decimal.shortest]
  cases h : Decimal.shortest? tie x with
  | none => exact toFloat_ofMagnitude hx
  | some d => exact Decimal.toFloat_of_shortest? h

/-- The shortest fraction of a number that is not whole has places behind the point. -/
theorem exponent_shortest_neg (tie : Tie) (hw : (Magnitude.ofFloat x).isWhole = false) :
    (Decimal.shortest tie x).exponent < 0 := by
  -- without places behind the point it would be read as a natural number
  refine not_le.1 fun hnonneg => not_isWhole hx hw ?_
  have hd := toFloat_shortest hx tie
  generalize Decimal.shortest tie x = d at hnonneg hd
  obtain ⟨c, k⟩ := d
  obtain ⟨k, rfl⟩ := Int.eq_ofNat_of_zero_le hnonneg
  exact isWhole_of_toFloat hx hd

end Finite

/-! ## The plain text -/

/-- The plain text of a finite number with a clear sign bit is read as the number. -/
theorem plainText_reads {x : Float} (hu : Unsigned x.toModel.unpack) (hfin : x.isInf = false) :
    ∃ d, Shows (Decimal.plainText x) d ∧ d.toFloat = x := by
  have hnan : x.isNaN = false := hu.isNaN
  simp only [Decimal.plainText, hnan, hfin, isNegative_of_unsigned hu, Decimal.signText,
    Bool.false_eq_true, if_false, List.nil_append, abs_of_unsigned hu]
  generalize hv : x.toModel.unpack = u at hu
  cases hu with
  | zero =>
    have hzero : x = 0 := (eq_ofModel_pack hv).trans (eq_ofModel_pack unpack_zero).symm
    subst hzero
    exact ⟨_, shows_whole 0, rfl⟩
  | infinity =>
    change x.toModel.unpack.isInf = false at hfin
    rw [hv] at hfin
    cases hfin
  | finite =>
    split
    · -- a whole number is shown in all its digits, with a zero behind the point
      rename_i hw
      refine ⟨_, shows_whole _, toFloat_exact hv ?_⟩
      rw [scale_eq_floor hv hw, Decimal.toRat]
      push_cast
      ring
    · rename_i hw
      have hneg := exponent_shortest_neg hv .up (Bool.eq_false_iff.2 hw)
      exact ⟨_, shows_positional hneg, toFloat_shortest hv .up⟩

end ConvexLang.Binary64
