import Roster.Proofs.Decimal.Range
import Roster.Time.Instant

/-!
# Durations and instants that are cut

Neither durations nor instants go beyond a last one, so adding never fails and never goes back. What
it can lose is progress: something is added, and the instant stays the last one. That is the only
case (`lt_saturatingAdd`), and it is excluded wherever what is added is bounded
(`saturatingAdd_lt_last`).

A number of seconds is bounded by a whole number if the double is, as nanoseconds are rounded to the
nearest and a whole number of seconds has none to round.
-/

namespace Roster

open Decimal

namespace Duration

variable {b : Binary} {x : Float} {k m n : ℕ}

theorem roundHalfEven_le (hn : 0 < n) (h : m ≤ k * n) : roundHalfEven m n ≤ k := by
  have hdiv : m / n ≤ k := Nat.div_le_of_le_mul (by rwa [Nat.mul_comm])
  rcases hdiv.lt_or_eq with hlt | heq
  · unfold roundHalfEven
    dsimp only
    split
    · exact hdiv
    · exact hlt
    · split
      · exact hdiv
      · exact hlt
  · -- nothing is left to be rounded
    have hrest : m % n = 0 := by
      have hsplit := Nat.div_add_mod m n
      rw [heq, Nat.mul_comm] at hsplit
      omega
    rw [roundHalfEven, hrest, Nat.mul_zero, compare_lt_iff_lt.mpr hn]
    exact hdiv

/-- A time of at most so many seconds has no more nanoseconds than they have. -/
theorem nanosOf_le (h : b.value ≤ n) : nanosOf b ≤ n * nanosPerSecond := by
  apply roundHalfEven_le (Nat.pow_pos two_pos)
  have hvalue : b.m * 2 ^ b.q.toNat ≤ n * 2 ^ (-b.q).toNat := Binary.value_le_iff.mp h
  calc
    b.m * nanosPerSecond * 2 ^ b.q.toNat
    _ = b.m * 2 ^ b.q.toNat * nanosPerSecond := Nat.mul_right_comm _ _ _
    _ ≤ n * 2 ^ (-b.q).toNat * nanosPerSecond := Nat.mul_le_mul_right _ hvalue
    _ = n * nanosPerSecond * 2 ^ (-b.q).toNat := Nat.mul_right_comm _ _ _

theorem nanos_ofNanos_le (n : ℕ) : (ofNanos n).nanos ≤ n := by
  unfold ofNanos
  split
  · exact le_rfl
  · next h =>
    have hlongest : longest.nanos < UInt64.size * nanosPerSecond := longest.le_longest
    exact hlongest.le.trans (Nat.not_lt.mp h)

/-- A duration of whole seconds is as long as it says. -/
theorem nanos_ofSeconds (h : n < UInt64.size) : (ofSeconds n).nanos = n * nanosPerSecond := by
  rw [ofSeconds, ofNanos, dif_pos (Nat.mul_lt_mul_of_pos_right h (by decide))]

/-- Where durations end, in seconds. -/
def endOfSeconds : Binary :=
  .ofParts (2 ^ 52) 12

theorem finite_endOfSeconds : endOfSeconds.Finite :=
  ⟨Binary.canonical_ofParts (by norm_num) (by norm_num) (.inl le_rfl),
    by simp [endOfSeconds, Binary.ofParts]⟩

theorem double_endOfSeconds : double .positive endOfSeconds = 18446744073709551616.0 :=
  rfl

theorem value_endOfSeconds : endOfSeconds.value = 2 ^ 64 := by
  norm_num [Binary.value, endOfSeconds, Binary.ofParts]

/-- **A bounded number of seconds is a bounded duration.** What is not positive is none at all. -/
theorem nanos_ofFloat_le (hn : n < 2 ^ 53) (h : 0.0 < x → Within n x) :
    (ofFloat x).nanos ≤ n * nanosPerSecond := by
  unfold ofFloat
  split
  · next hpos =>
    obtain ⟨s, b, hb, -, hle, rfl⟩ := h hpos
    rw [gt_iff_lt, zero_lt_double_iff hb] at hpos
    rw [hpos.1]
    have hend : double .positive b < 18446744073709551616.0 := by
      rw [← double_endOfSeconds, double_lt_iff hb finite_endOfSeconds, value_endOfSeconds]
      refine hle.trans_lt ?_
      exact_mod_cast hn.trans (by norm_num)
    rw [if_pos hend, (ofFloat_double hb .positive).1]
    exact (nanos_ofNanos_le _).trans (nanosOf_le hle)
  · exact Nat.zero_le _

end Duration

namespace Instant

variable {t : Instant} {d : Duration}

/-- A saturating sum is not after the last instant. -/
theorem saturatingAdd_le_last (t : Instant) (d : Duration) :
    (t.saturatingAdd d).nanos ≤ last.nanos := by
  unfold saturatingAdd
  split
  · exact le_rfl
  · split
    · exact le_rfl
    · next h => exact not_lt.mp h

/-- A saturating sum is not before where it starts. -/
theorem le_saturatingAdd (h : t.nanos ≤ last.nanos) : t.nanos ≤ (t.saturatingAdd d).nanos := by
  unfold saturatingAdd
  split
  · exact h
  · split
    · exact h
    · exact Int.le_add_of_nonneg_right (Int.natCast_nonneg d.nanos)

/-- **Time goes on until the last instant.** -/
theorem lt_saturatingAdd (h : t.nanos < last.nanos) (hd : 0 < d.nanos) :
    t.nanos < (t.saturatingAdd d).nanos := by
  unfold saturatingAdd
  split
  · exact h
  · split
    · exact h
    · exact Int.lt_add_of_pos_right t.nanos (Int.natCast_pos.mpr hd)

/-- Nothing can be added to the last instant. -/
theorem last_saturatingAdd (d : Duration) : last.saturatingAdd d = last :=
  congrArg Instant.mk (le_antisymm (saturatingAdd_le_last last d) (le_saturatingAdd le_rfl))

/-- Where there is room nothing is cut. -/
theorem nanos_saturatingAdd (h : t.nanos + d.nanos ≤ last.nanos) (hd : d.nanos ≤ longestStep) :
    (t.saturatingAdd d).nanos = t.nanos + d.nanos := by
  rw [saturatingAdd, if_neg (Nat.not_lt.mpr hd), if_neg h.not_gt]

theorem saturatingAdd_lt_last (h : t.nanos + d.nanos < last.nanos) (hd : d.nanos ≤ longestStep) :
    (t.saturatingAdd d).nanos < last.nanos :=
  (nanos_saturatingAdd h.le hd).trans_lt h

end Instant

end Roster
