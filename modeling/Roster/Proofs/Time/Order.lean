import Roster.Proofs.Decimal.Monotone
import Roster.Proofs.Time.Saturation

/-!
# Longer and later

A larger number of seconds is never a shorter duration, and after a longer duration it is never
earlier. Both are about what is cut: rounding to whole nanoseconds keeps the order because a half
goes to the even neighbour on whichever side it lies (`near_roundHalfEven`), and what is beyond the
end, of durations or of instants, is the last one.
-/

namespace Roster

open Decimal
open Float.Model.UnpackedFloat (ExtendedMantissa accuracyOfFraction)

namespace Decimal

variable {k l : ℕ} {v w : ℚ}

/-- Of two numbers in order the nearest whole ones are in order. -/
theorem Near.mono (hk : Near k v) (hl : Near l w) (h : v ≤ w) : k ≤ l := by
  by_contra hlt
  have hsucc : (l : ℚ) + 1 ≤ k := by exact_mod_cast not_le.mp hlt
  rcases hk.low with hlow | ⟨hkeven, hlow⟩
  · rcases hl.high with hhigh | ⟨-, hhigh⟩
    · linarith
    · linarith
  · rcases hl.high with hhigh | ⟨hleven, hhigh⟩
    · linarith
    -- Both lie half way between neighbours, and of these one is odd.
    · have hnext : (k : ℚ) = (l + 1 : ℕ) := by
        push_cast
        linarith
      have : k = l + 1 := by exact_mod_cast hnext
      omega

end Decimal

namespace Duration

variable {b c : Binary} {x y : Float} {m n : ℕ}

/-- What is rounded is a quotient with its remainder, and the nearest whole number is
    what its two bits say. -/
theorem roundHalfEven_eq (m : ℕ) (hn : 0 < n) : roundHalfEven m n =
    (ExtendedMantissa.ofMantissaAndAccuracy (m / n)
      (accuracyOfFraction (m % n) n)).roundedMantissa := by
  unfold roundHalfEven accuracyOfFraction
  dsimp only
  by_cases hzero : m % n = 0
  · rw [if_pos hzero, hzero, Nat.mul_zero, compare_lt_iff_lt.mpr hn]
    rfl
  · rw [if_neg hzero]
    cases compare (2 * (m % n)) n with
    | lt => rfl
    | gt => rfl
    | eq =>
      -- the bit for the half is set and nothing is below it
      change (if m / n % 2 = 0 then m / n else m / n + 1) = m / n + m / n % 2
      split
      · omega
      · omega

theorem near_roundHalfEven (m : ℕ) (hn : 0 < n) : Near (roundHalfEven m n) (m / n : ℚ) := by
  rw [roundHalfEven_eq m hn]
  exact (describes_quotient m hn).near.1

/-- The nanoseconds are nearest to the number of seconds a billion times. -/
theorem near_nanosOf (b : Binary) : Near (nanosOf b) (b.value * nanosPerSecond) := by
  have hvalue : ((b.m * nanosPerSecond * Nat.pow 2 b.q.toNat : ℕ) : ℚ) /
      (Nat.pow 2 (-b.q).toNat : ℕ) =
      b.value * nanosPerSecond := by
    rw [Binary.value, zpow_eq_div two_ne_zero]
    push_cast [Nat.pow_eq]
    ring
  rw [← hvalue]
  exact near_roundHalfEven _ (Nat.pow_pos two_pos)

/-- A longer time in seconds has no fewer nanoseconds. -/
theorem nanosOf_mono (h : b.value ≤ c.value) : nanosOf b ≤ nanosOf c :=
  (near_nanosOf b).mono (near_nanosOf c) (mul_le_mul_of_nonneg_right h (Nat.cast_nonneg _))

theorem nanos_le_longest (d : Duration) : d.nanos ≤ longest.nanos :=
  Nat.le_pred_of_lt d.le_longest

/-- A larger count of nanoseconds makes no shorter duration. -/
theorem nanos_ofNanos_mono (h : m ≤ n) : (ofNanos m).nanos ≤ (ofNanos n).nanos := by
  unfold ofNanos
  split
  · split
    · exact h
    · next hm _ => exact Nat.le_pred_of_lt hm
  · next hm =>
    rw [dif_neg fun hn => hm (h.trans_lt hn)]

/-- A positive number of seconds before the end is a magnitude. -/
theorem exists_seconds (hpos : 0.0 < x) (hsmall : x < 18446744073709551616.0) :
    ∃ a : Binary, a.Finite ∧ x = double .positive a := by
  have hend : x ≤ double .positive endOfSeconds := le_of_lt_double hsmall
  obtain ⟨s, a, ha, -, rfl⟩ := exists_amount (le_of_lt_double hpos)
    (isFinite_of_le (le_of_lt_double hpos) hend (isFinite_double finite_endOfSeconds .positive))
  exact ⟨a, ha, by rw [((zero_lt_double_iff ha).mp hpos).1]⟩

/-- **More seconds are never a shorter duration.** -/
theorem nanos_ofFloat_mono (h : x ≤ y) : (ofFloat x).nanos ≤ (ofFloat y).nanos := by
  by_cases hx : 0.0 < x
  · have hy : 0.0 < y := lt_of_lt_le hx h
    rw [ofFloat, ofFloat, if_pos hx, if_pos hy]
    by_cases hsmall : y < 18446744073709551616.0
    · rw [if_pos hsmall, if_pos (lt_of_le_lt h hsmall)]
      obtain ⟨a, ha, rfl⟩ := exists_seconds hx (lt_of_le_lt h hsmall)
      obtain ⟨c, hc, rfl⟩ := exists_seconds hy hsmall
      rw [(ofFloat_double ha .positive).1, (ofFloat_double hc .positive).1]
      exact nanos_ofNanos_mono (nanosOf_mono ((double_le_iff ha hc).mp h))
    · rw [if_neg hsmall]
      exact nanos_le_longest _
  · rw [ofFloat, if_neg hx]
    exact Nat.zero_le _

/-- What is not positive is no time at all. -/
theorem nanos_ofFloat_of_not_pos (h : ¬ 0.0 < x) : (ofFloat x).nanos = 0 := by
  rw [ofFloat, if_neg h]
  rfl

end Duration

namespace Instant

/-- **After a longer duration it is never earlier.** -/
theorem saturatingAdd_mono (t : Instant) {d e : Duration} (h : d.nanos ≤ e.nanos) :
    (t.saturatingAdd d).nanos ≤ (t.saturatingAdd e).nanos := by
  unfold saturatingAdd
  split
  · next hd => rw [if_pos (hd.trans_le h)]
  · split
    · split
      · exact le_rfl
      · next hlast _ => rw [if_pos (by omega)]
    · next hlast =>
      split
      · exact not_lt.mp hlast
      · split
        · exact not_lt.mp hlast
        · exact Int.add_le_add_left (by exact_mod_cast h) _

end Instant

end Roster
