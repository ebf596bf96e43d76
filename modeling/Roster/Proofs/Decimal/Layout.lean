import Roster.Proofs.Decimal.Numeral
import Roster.Proofs.Decimal.Shortest

/-!
# Layouts of a decimal

A style decides where the point goes and whether there is an exponent, but not which number it is:
`magnitude_ofFloat`. So a double in writing, in whatever style, rounds to the double
(`takes_ofFloat`).
-/

namespace Roster.Decimal

variable {ds es : List Char} {style : Style} {point : ℤ} {x : Float}

/-! ## Digits -/

/-- Digits are read from the left. -/
theorem natOfDigits_append :
    natOfDigits (ds ++ es) = natOfDigits ds * 10 ^ es.length + natOfDigits es := by
  rw [natOfDigits, Nat.ofDigitChars_append, Nat.ofDigitChars_eq_ofDigitChars_zero, Nat.mul_comm]
  rfl

theorem natOfDigits_zeros (k : ℕ) : natOfDigits (List.replicate k '0') = 0 := by
  rw [natOfDigits, Nat.ofDigitChars_replicate_zero, Nat.mul_zero]

theorem natOfDigits_zero : natOfDigits ['0'] = 0 :=
  natOfDigits_zeros 1

/-- The digits of a number are read as that number. -/
theorem natOfDigits_toDigits (n : ℕ) : natOfDigits (Nat.toDigits 10 n) = n :=
  Nat.ofDigitChars_ten_toDigits

/-! ## Numerals -/

namespace Numeral

/-- The exponent that a numeral is written with, nought where it has none. -/
def power (n : Numeral) : ℤ :=
  match n.exponent with
  | none => 0
  | some (negative, ds) => if negative then -natOfDigits ds else natOfDigits ds

/-- The number that a numeral stands for, without its sign. -/
def magnitude (n : Numeral) : ℚ :=
  natOfDigits (n.whole ++ n.fraction.getD []) * 10 ^ (n.power - (n.fraction.getD []).length)

end Numeral

/-- Where the point is set in digits does not matter to what they stand for. -/
theorem magnitude_placePoint (style : Style) (ds : List Char) (point : ℤ) :
    ({ whole := (placePoint style ds point).1
       fraction := (placePoint style ds point).2 } : Numeral).magnitude =
      natOfDigits ds * 10 ^ (point - ds.length) := by
  simp only [placePoint, Numeral.magnitude, Numeral.power, zero_sub]
  split
  -- Zeros in front are counted in the exponent and nowhere else.
  · have hdigits : natOfDigits (['0'] ++ (List.replicate (-point).toNat '0' ++ ds)) =
        natOfDigits ds := by
      rw [natOfDigits_append, natOfDigits_append, natOfDigits_zeros, natOfDigits_zero]
      simp
    simp only [Option.getD_some, hdigits]
    congr 2
    simp
    omega
  · split
    · have hscale : (10 : ℚ) ^ (point - ds.length) = 10 ^ (point.toNat - ds.length) := by
        rw [← zpow_natCast]
        congr 1
        omega
      cases style.pointZero
      · simp [natOfDigits_append, natOfDigits_zeros, hscale]
      · simp only [if_true, Option.getD_some, natOfDigits_append, natOfDigits_zeros,
          natOfDigits_zero, hscale, List.length_replicate, List.length_singleton]
        push_cast
        ring
    · simp only [Option.getD_some, List.take_append_drop]
      congr 2
      simp
      omega

theorem power_scientific (ds : List Char) (point : ℤ) :
    (scientific ds point).power = point - 1 := by
  simp only [Numeral.power, scientific, natOfDigits_toDigits]
  split
  · next hneg =>
    have hlt : point - 1 < 0 := of_decide_eq_true hneg
    omega
  · next hneg =>
    have hge : ¬ point - 1 < 0 := fun hlt => hneg (decide_eq_true hlt)
    omega

/-- A numeral in the scientific form stands for its digits at its point. -/
theorem magnitude_scientific (hne : ds ≠ []) :
    (scientific ds point).magnitude = natOfDigits ds * 10 ^ (point - ds.length) := by
  have hlength : 0 < ds.length := List.length_pos_iff.mpr hne
  rw [Numeral.magnitude, power_scientific]
  simp only [scientific]
  split
  · next hshort =>
    have hone : ds.length = 1 := by omega
    rw [List.take_of_length_le hshort, hone]
    simp
  · simp only [Option.getD_some, List.take_append_drop]
    congr 2
    simp
    omega

/-- **However a double is laid out, it is its shortest decimal.** -/
theorem magnitude_ofFloat (style : Style) (hm : (Binary.ofFloat x).m ≠ 0) :
    (Numeral.ofFloat style x).magnitude = ((Binary.ofFloat x).shortest style.tie).value := by
  have hdigits := Binary.digits_shortest style.tie hm
  have hscale (e : ℤ) (k : ℕ) : e + (k : ℤ) - k = e := by omega
  rw [Dec.value]
  simp only [Numeral.ofFloat, if_neg hdigits]
  split
  · refine (magnitude_placePoint style _ _).trans ?_
    rw [natOfDigits_toDigits, hscale]
  · refine (magnitude_scientific Nat.toDigits_ne_nil).trans ?_
    rw [natOfDigits_toDigits, hscale]

/-- What a double is written as is taken for that double. -/
theorem takes_ofFloat (style : Style) (x : Float) :
    (Binary.ofFloat x).Takes (Numeral.ofFloat style x).magnitude := by
  by_cases hm : (Binary.ofFloat x).m = 0
  · have hzero : (Numeral.ofFloat style x).magnitude = 0 := by
      have hdigits : ((Binary.ofFloat x).shortest style.tie).digits = 0 := by
        rw [Binary.shortest, if_pos hm]
      have hzeros : natOfDigits ['0', '0'] = 0 := natOfDigits_zeros 2
      simp only [Numeral.ofFloat, if_pos hdigits, Numeral.magnitude]
      cases style.pointZero <;> simp [natOfDigits_zero, hzeros]
    have htakes := (Binary.ofFloat x).takes_value
    rwa [Binary.value, hm, Nat.cast_zero, zero_mul, ← hzero] at htakes
  · rw [magnitude_ofFloat style hm]
    exact Binary.takes_shortest style.tie hm

end Roster.Decimal
