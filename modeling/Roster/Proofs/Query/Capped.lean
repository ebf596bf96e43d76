import Roster.Proofs.Query.Window

/-!
# Settings with a longest wait

A longest wait is kept to the nanosecond, whatever the calculation before it comes to. A mean that
is too large for a double, multiplied by the logarithm of one, is no number at all, and what is no
number does not count beside the longest wait; one that is infinite is cut like any other. So
nothing has to be known about the logarithm, and nothing about the utilization.

As valid settings bound the longest wait and the window by ten years each, adding them to an instant
is exact as long as there is room for both (`window_of_maxWait`). The window then has its full
length, which in general it has not.
-/

namespace Roster.Scheduler

variable {s : Scheduler} {max : ℕ}

theorem nanos_draw_le (valid : s.pacing.fault? = none) (hmax : s.pacing.maxWaitSeconds = some max)
    (c : Priority) (u : Float) (d : Dice) :
    (s.pacing.draw s.math c u d).1.nanos ≤ max * nanosPerSecond :=
  Pacing.nanos_wait_le_of_maxWait (Pacing.fits_of_valid valid) hmax c u _

/-- Neither the longest wait nor the window is too long to be added in one piece. -/
theorem steps_of_valid (valid : s.pacing.fault? = none)
    (hmax : s.pacing.maxWaitSeconds = some max) :
    max * nanosPerSecond ≤ Instant.longestStep ∧
      (Duration.ofSeconds s.pacing.validitySeconds).nanos =
        s.pacing.validitySeconds * nanosPerSecond ∧
      s.pacing.validitySeconds * nanosPerSecond ≤ Instant.longestStep := by
  have hfits := Pacing.fits_of_valid valid
  have hstep {n : ℕ} (hn : n ≤ longestSetting) : n * nanosPerSecond ≤ Instant.longestStep :=
    (Nat.mul_le_mul_right nanosPerSecond hn).trans (by decide)
  have hvalidity := hfits.validity.2
  exact ⟨hstep (hfits.maxWait max hmax).2,
    Duration.nanos_ofSeconds (hvalidity.trans_lt (by decide)), hstep hvalidity⟩

/-- **A longest wait bounds every wait**, and where there is room for it and for the
    window, a client is told to come between the present and the end of that wait, and has
    the whole window for it. -/
theorem window_of_maxWait (valid : s.pacing.fault? = none)
    (hmax : s.pacing.maxWaitSeconds = some max) :
    (∀ c u d, (s.pacing.draw s.math c u d).1.nanos ≤ max * nanosPerSecond) ∧
      ∀ (c : Priority) (now : Instant) (load : LoadSignal) (service : String)
        (apiKey : Option String) (d : Dice),
        now.nanos + (max * nanosPerSecond : ℕ) + (s.pacing.validitySeconds * nanosPerSecond : ℕ) ≤
            Instant.last.nanos →
          let next := (s.schedule c now load service apiKey d).1.next
          now.nanos ≤ next.notBefore.nanos ∧
            next.notBefore.nanos ≤ now.nanos + (max * nanosPerSecond : ℕ) ∧
            next.expires.nanos =
              next.notBefore.nanos + (s.pacing.validitySeconds * nanosPerSecond : ℕ) := by
  obtain ⟨hlongest, hwindow, hvalidity⟩ := steps_of_valid valid hmax
  refine ⟨nanos_draw_le valid hmax, fun c now load service apiKey d hroom => ?_⟩
  have hwait : (s.waitOf c load d).nanos ≤ max * nanosPerSecond := nanos_draw_le valid hmax c _ d
  have hbegin : (now.saturatingAdd (s.waitOf c load d)).nanos =
      now.nanos + (s.waitOf c load d).nanos :=
    Instant.nanos_saturatingAdd (by omega) (hwait.trans hlongest)
  have hend : (now.saturatingAdd (s.waitOf c load d)).nanos +
      (Duration.ofSeconds s.pacing.validitySeconds).nanos ≤ Instant.last.nanos := by
    rw [hbegin, hwindow]
    omega
  dsimp only
  rw [notBefore_schedule, expires_schedule,
    Instant.nanos_saturatingAdd hend (hwindow.trans_le hvalidity), hwindow, hbegin]
  exact ⟨by omega, by omega, rfl⟩

/-- The scheduler whose windows are empty without a longest wait, with one of a minute. -/
def sampleCapped : Scheduler :=
  { sampleScaled 1e290 with pacing := { loadScaling := 1e290, maxWaitSeconds := some 60 } }

/-- A client for which the calculation ends far beyond the last instant waits just a minute. -/
theorem window_of_maxWait_sample :
    let next :=
      (sampleCapped.schedule .global ⟨1700000000 * nanosPerSecond⟩ ⟨1.0, false, false⟩ "ndt" none
        (.ofWords #[0x8000000000000000])).1.next
    sampleCapped.pacing.fault? = none ∧ sampleCapped.pacing.maxWaitSeconds = some 60 ∧
      next.notBefore = ⟨1700000060 * nanosPerSecond⟩ ∧
      next.expires.nanos = next.notBefore.nanos + (600 * nanosPerSecond : ℕ) := by
  have hvalid : sampleCapped.pacing.fault? = none := by decide +kernel
  have hbegin :
      (sampleCapped.schedule .global ⟨1700000000 * nanosPerSecond⟩ ⟨1.0, false, false⟩ "ndt" none
        (.ofWords #[0x8000000000000000])).1.next.notBefore = ⟨1700000060 * nanosPerSecond⟩ := by
    decide +kernel
  obtain ⟨-, hwindow⟩ :=
    window_of_maxWait hvalid (show sampleCapped.pacing.maxWaitSeconds = some 60 from rfl)
  exact ⟨hvalid, rfl, hbegin, (hwindow _ _ _ _ _ _ (by decide)).2.2⟩

end Roster.Scheduler
