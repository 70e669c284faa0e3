import ConvexLang.Json
import ConvexLang.Proofs.Munching

/-!
# The record text of a floating-point number

In a record a number stands as digits, with places behind a point and an exponent where it
has them, and without leading zeros (`Json.IsNumber`). A finite number with a clear sign bit
is written so, and what is written is read as the number itself (`recordText?_reads`). All
digits of a fraction are kept: in front of the point and behind it, with zeros where the point
lies outside of them, or behind the first digit with the place of this digit as the exponent.
-/

namespace ConvexLang

/-! ## The notation -/

namespace Json

/-- Digits, and at least one. -/
def IsDigits (cs : List Char) : Prop :=
  cs ≠ [] ∧ ∀ c ∈ cs, c.isDigit = true

/-- Digits without leading zeros. -/
structure IsWholePart (cs : List Char) : Prop where
  digits : IsDigits cs
  /-- Only zero begins with a zero. -/
  zero : cs.head? = some '0' → cs = ['0']

/-- An exponent with its sign, or nothing. -/
def IsExponent (cs : List Char) : Prop :=
  cs = [] ∨ ∃ sign ds, cs = 'e' :: sign :: ds ∧ (sign = '+' ∨ sign = '-') ∧ IsDigits ds

/-- A text is a number without a sign: digits without leading zeros, behind them digits
    behind a point if there are any, and an exponent if there is one. -/
def IsNumber (cs : List Char) : Prop :=
  ∃ whole places exponent, cs = whole ++ (places ++ exponent) ∧ IsWholePart whole ∧
    (places = [] ∨ ∃ ds, places = '.' :: ds ∧ IsDigits ds) ∧
    IsExponent exponent

theorem IsWholePart.isNumber {cs : List Char} (h : IsWholePart cs) : IsNumber cs :=
  ⟨cs, [], [], by simp, h, .inl rfl, .inl rfl⟩

theorem IsWholePart.isNumber_point {cs ds : List Char} (h : IsWholePart cs) (hds : IsDigits ds) :
    IsNumber (cs ++ '.' :: ds) :=
  ⟨cs, '.' :: ds, [], by simp, h, .inr ⟨ds, rfl, hds⟩, .inl rfl⟩

theorem isWholePart_singleton {c : Char} (hc : c.isDigit = true) : IsWholePart [c] where
  digits := ⟨List.cons_ne_nil _ _, by simpa using hc⟩
  zero h := by simpa using h

/-- A number begins with a digit. -/
theorem IsNumber.exists_cons {cs : List Char} (h : IsNumber cs) :
    ∃ c ds, c.isDigit = true ∧ cs = c :: ds := by
  obtain ⟨whole, places, exponent, rfl, hwhole, -, -⟩ := h
  obtain ⟨c, ds, rfl⟩ := List.exists_cons_of_ne_nil hwhole.digits.1
  exact ⟨c, _, hwhole.digits.2 c List.mem_cons_self, rfl⟩

theorem isDigits_digits (n : Nat) : IsDigits (Decimal.digits n) :=
  ⟨Decimal.digits_ne_nil n, fun _ hc => Decimal.isDigit_of_mem_digits hc⟩

/-- The digits of a positive number do not begin with a zero. -/
theorem head?_digits_ne {n : Nat} (hn : 0 < n) : (Decimal.digits n).head? ≠ some '0' := by
  induction n using Nat.strongRecOn with
  | ind n ih =>
    rw [Decimal.digits]
    rcases Nat.lt_or_ge n 10 with h | h
    · rw [Nat.toDigits_of_lt_base h]
      interval_cases n <;> decide
    · rw [Nat.toDigits_of_base_le (by decide) h]
      have hne : Nat.toDigits 10 (n / 10) ≠ [] := Decimal.digits_ne_nil _
      rw [List.head?_append_of_ne_nil _ hne]
      exact ih (n / 10) (by omega) (by omega)

theorem isWholePart_digits (n : Nat) : IsWholePart (Decimal.digits n) where
  digits := isDigits_digits n
  zero h := by
    rcases Nat.eq_zero_or_pos n with rfl | hn
    · rfl
    · exact absurd h (head?_digits_ne hn)

end Json

/-! ## Layouts -/

namespace Decimal

open Json (IsNumber IsWholePart IsDigits)

theorem value_append_replicate (ds : List Char) (k : Nat) :
    value (ds ++ List.replicate k '0') = value ds * 10 ^ k := by
  rw [value, Nat.ofDigitChars_append, Nat.ofDigitChars_replicate_zero, Nat.mul_comm, value]

/-- The positional text of a fraction is a number of the same value. -/
theorem exists_positional {d : Decimal} (hd : 0 < d.coefficient) :
    ∃ whole fraction, positional d = whole ++ '.' :: fraction ∧ IsWholePart whole ∧
      IsDigits fraction ∧ (ofParts whole fraction).toRat = d.toRat := by
  obtain ⟨c, e⟩ := d
  have hhead := Json.head?_digits_ne hd
  cases e with
  | ofNat k =>
    -- zeros between the digits and the point
    refine ⟨digits c ++ List.replicate k '0', ['0'], by simp [positional], ⟨⟨?_, ?_⟩, ?_⟩, ?_, ?_⟩
    · simp [digits_ne_nil]
    · intro x hx
      rcases List.mem_append.1 hx with hx | hx
      · exact isDigit_of_mem_digits hx
      · rw [List.eq_of_mem_replicate hx]
        rfl
    · intro h
      rw [List.head?_append_of_ne_nil _ (digits_ne_nil c)] at h
      exact absurd h hhead
    · exact ⟨List.cons_ne_nil _ _, by simp⟩
    · have hvalue : value (digits c ++ List.replicate k '0' ++ ['0']) = c * 10 ^ (k + 1) := by
        rw [List.append_assoc, ← List.replicate_succ', value_append_replicate, value_digits]
      rw [ofParts, hvalue, toRat, toRat]
      push_cast
      simp only [List.length_singleton, Int.ofNat_eq_natCast]
      rw [pow_succ, zpow_natCast, Nat.cast_one, zpow_neg_one]
      ring
  | negSucc k =>
    obtain ⟨whole, fraction, h, hwhole, hfraction, hdigits, hvalue, hfirst⟩ :=
      Binary64.exists_withPoint c k.succ_pos
    refine ⟨whole, fraction, h, ⟨⟨hwhole, fun x hx => hdigits x (List.mem_append_left _ hx)⟩, ?_⟩,
      ⟨hfraction, fun x hx => hdigits x (List.mem_append_right _ hx)⟩, ?_⟩
    · intro hzero
      rcases hfirst with hone | hfront
      · obtain ⟨x, rfl⟩ := List.length_eq_one_iff.1 hone
        simpa using hzero
      · obtain ⟨rest, hrest⟩ := hfront
        rw [← hrest, List.head?_append_of_ne_nil _ hwhole] at hhead
        exact absurd hzero hhead
    · rw [hvalue]
      rfl

theorem readNat?_digits (n : Nat) : readNat? (digits n) = some n := by
  rw [readNat?, if_pos ⟨digits_ne_nil n, List.all_eq_true.2 fun _ hc => isDigit_of_mem_digits hc⟩,
    value_digits]

theorem readExponent?_place (place : Int) :
    readExponent? ('e' :: (if place < 0 then '-' else '+') :: digits place.natAbs) = some place := by
  rcases lt_or_ge place 0 with h | h
  · simp [h, readExponent?, splitSign, readNat?_digits, abs_of_neg h]
  · simp [not_lt.2 h, readExponent?, splitSign, readNat?_digits, abs_of_nonneg h]

/-- The text with an exponent is a number, and is read as the fraction. -/
theorem scientific_reads (d : Decimal) :
    IsNumber (scientific d) ∧ readNumeral? (scientific d) = some d := by
  obtain ⟨c, e⟩ := d
  obtain ⟨x, cs, hcs⟩ := List.exists_cons_of_ne_nil (digits_ne_nil c)
  have hall : ∀ y ∈ x :: cs, y.isDigit = true := hcs ▸ fun y hy => isDigit_of_mem_digits hy
  have hx : x.isDigit = true := hall x List.mem_cons_self
  have hvalue : value (x :: cs) = c := hcs ▸ value_digits c
  have hplace : firstPlace ⟨c, e⟩ = e + cs.length := by
    rw [firstPlace, hcs, List.length_cons]
    push_cast
    omega
  have hexponent := readExponent?_place (e + cs.length)
  rw [scientific, hplace, hcs]
  generalize hsign : (if e + (cs.length : Int) < 0 then '-' else '+') = sign at hexponent ⊢
  have hsign' : sign = '+' ∨ sign = '-' := by
    rw [← hsign]
    split
    · exact .inr rfl
    · exact .inl rfl
  have hdigits := Json.isDigits_digits (e + cs.length : Int).natAbs
  generalize digits (e + cs.length : Int).natAbs = places at hexponent hdigits ⊢
  have htail : Json.IsExponent ('e' :: sign :: places) := .inr ⟨sign, places, rfl, hsign', hdigits⟩
  cases cs with
  | nil =>
    refine ⟨⟨[x], [], _, rfl, Json.isWholePart_singleton hx, .inl rfl, htail⟩, ?_⟩
    simp [readNumeral?, hx, hexponent, ofParts, hvalue]
  | cons y cs =>
    have hcs' : ∀ z ∈ y :: cs, z.isDigit = true := fun z hz => hall z (List.mem_cons_of_mem _ hz)
    obtain ⟨htake, hdrop⟩ : _ ∧ _ := takeWhile_append hcs' (fun c hc => Option.some.inj hc ▸ rfl :
      ∀ c, ('e' :: sign :: places).head? = some c → _)
    refine ⟨⟨[x], '.' :: y :: cs, _, rfl, Json.isWholePart_singleton hx,
      .inr ⟨_, rfl, List.cons_ne_nil _ _, hcs'⟩, htail⟩, ?_⟩
    simp only [List.cons_append] at htake hdrop ⊢
    simp [readNumeral?, hx, htake, hdrop, hexponent, ofParts, hvalue]
    omega

end Decimal

/-! ## The record text -/

namespace Binary64

open Float.Model (UnpackedFloat)

/-- The record text of a finite number with a clear sign bit is a number, and is read as the
    number that is written. -/
theorem recordText?_reads {x : Float} (hu : Unsigned x.toModel.unpack) (hfin : x.isFinite = true) :
    ∃ cs, Decimal.recordText? x = some cs ∧ Json.IsNumber cs ∧
      Decimal.readFloat? (String.ofList cs) = some x := by
  simp only [Decimal.recordText?, hfin, if_true, isNegative_of_unsigned hu, Decimal.signText,
    Bool.false_eq_true, if_false, List.nil_append, abs_of_unsigned hu]
  have hzero := beq_iff_of_unsigned hu (unpack_zero ▸ .zero : Unsigned (Float.toModel 0).unpack)
  split
  · rename_i h0
    have hdigit : ('0' : Char).isDigit = true := by decide
    have hwhole := Json.isWholePart_singleton hdigit
    have hread := Decimal.readFloat?_fraction hwhole.digits.2 hwhole.digits.1 hwhole.digits.2
    have hvalue : (Decimal.ofParts ['0'] ['0']).toFloat = x := by
      rw [hzero.1 h0, Decimal.toFloat, if_pos (by decide)]
    exact ⟨_, rfl, hwhole.isNumber_point hwhole.digits, hvalue ▸ hread⟩
  · rename_i h0
    generalize hv : x.toModel.unpack = u at hu
    cases hu with
    | zero => exact absurd (hzero.2 (eq_of_unpack (hv.trans unpack_zero.symm))) h0
    | infinity =>
      change x.toModel.unpack.isFinite = true at hfin
      rw [hv] at hfin
      cases hfin
    | @finite m e hm =>
      have hread := toFloat_shortest hv .even
      generalize Decimal.shortest .even x = d at hread
      split
      · have hd : 0 < d.coefficient := by
          refine Nat.pos_of_ne_zero fun hd => h0 (hzero.2 ?_)
          rw [← hread, Decimal.toFloat, if_pos hd]
        obtain ⟨whole, fraction, htext, hwhole, hfraction, hvalue⟩ := Decimal.exists_positional hd
        refine ⟨_, rfl, htext ▸ hwhole.isNumber_point hfraction, ?_⟩
        rw [htext, Decimal.readFloat?_fraction hwhole.digits.2 hfraction.1 hfraction.2,
          toFloat_congr hvalue, hread]
      · obtain ⟨hnumber, hnumeral⟩ := Decimal.scientific_reads d
        obtain ⟨c, cs, hc, htext⟩ := hnumber.exists_cons
        rw [htext] at hnumeral
        refine ⟨_, rfl, hnumber, ?_⟩
        rw [htext, Decimal.readFloat?_of_readNumeral? (.inl hc) hnumeral, hread]

end Binary64

end ConvexLang
