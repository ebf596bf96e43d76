import Roster.Proofs.Query.Dice
import Roster.Proofs.Time.Saturation
import Roster.Query.Schedule

/-!
# The window of the next request

A client is told from when on it is expected and until when. The first instant is never before the
present, nor the second one before the first. Whether there is any time between them is another
matter, as both are cut at the last instant that there is: the window is empty exactly if the wait
reaches it (`window_of_valid`).

Valid settings do not exclude that. They bound the means, the length of the window and the longest
wait by ten years each, but not by how much a load makes the wait longer. So what is proved besides
is when the window cannot be empty: if there is a longest wait, or if the load scaling is bounded as
well. The bound is `moderateScaling`, far above what anybody would set, and the greatest whole
number for which the longest mean, made longer by it and multiplied by the longest draw, ends before
the last instant. `window_empty` shows what happens far beyond it.
-/

namespace Roster

open Decimal

/-- What is used of a logarithm: that of a number between the least one that is drawn and one. -/
def Elementary.LnFits (m : Elementary) : Prop :=
  ∀ x, Float.ofBits 0x3CA0000000000000 ≤ x → x ≤ 1.0 → -37.0 ≤ m.ln x ∧ m.ln x ≤ 0.0

/-- A load scaling up to which no wait reaches the last instant. -/
def moderateScaling : ℕ := 680

/-- The first instant beyond the calendar of four digits. -/
def yearTenThousand : Instant :=
  ⟨253402300800 * nanosPerSecond⟩

namespace Pacing

variable {p : Pacing} {m : Elementary} {n : ℕ}

/-- What valid settings are bounded by. -/
structure Fits (p : Pacing) : Prop where
  mean : ∀ c, 0.0 < p.baseMean c ∧ p.baseMean c ≤ longestSetting.toUInt64.toFloat
  scaling : 0.0 ≤ p.loadScaling
  validity : 0 < p.validitySeconds ∧ p.validitySeconds ≤ longestSetting
  maxWait : ∀ max, p.maxWaitSeconds = some max → 0 < max ∧ max ≤ longestSetting

theorem secondsFit_iff : secondsFit n ↔ 0 < n ∧ n ≤ longestSetting := by
  rw [secondsFit, Bool.and_eq_true, decide_eq_true_iff, decide_eq_true_iff]

theorem meanFits_of_fault? (h : p.fault? = none) (c : Priority) : meanFits (p.baseMean c) := by
  unfold fault? at h
  split at h
  · cases h
  · next hmeans =>
    have hfits := List.find?_eq_none.mp hmeans c (by cases c <;> decide)
    rwa [Bool.not_eq_true', Bool.not_eq_false] at hfits

theorem fits_of_valid (h : p.fault? = none) : p.Fits := by
  have hmeans := meanFits_of_fault? h
  unfold fault? at h
  split at h
  · cases h
  · simp only [ite_eq_iff, reduceCtorEq, and_false, false_or, and_true, Bool.not_eq_true',
      Bool.not_eq_false, Bool.and_eq_true, decide_eq_true_iff, secondsFit_iff] at h
    obtain ⟨-, hscaling, hvalidity, hmax⟩ := h
    refine ⟨fun c => ?_, hscaling.2, hvalidity, fun max hsome => ?_⟩
    · have hfits := hmeans c
      rw [meanFits, Bool.and_eq_true, Bool.and_eq_true, decide_eq_true_iff,
        decide_eq_true_iff] at hfits
      exact ⟨hfits.1.2, hfits.2⟩
    · rw [hsome] at hmax
      exact secondsFit_iff.mp hmax

/-! ## Bounds of the wait -/

theorem within_baseMean (h : p.Fits) (c : Priority) : Within longestSetting (p.baseMean c) := by
  obtain ⟨hpos, hle⟩ := h.mean c
  exact within_of_le (by decide) (le_of_lt_double hpos) hle

theorem within_clampUtilization (u : Float) : Within 1 (clampUtilization u) := by
  have hone : (1 : ℕ).toUInt64.toFloat = 1.0 := rfl
  unfold clampUtilization
  split
  · next hfinite =>
    split
    · exact within_of_le (by norm_num) (by decide) (by decide)
    · next hlow =>
      split
      · exact within_of_le (by norm_num) (by decide) (by decide)
      · next hhigh => exact within_of_isFinite hfinite (by norm_num) hlow (by rwa [hone])
  · exact within_of_le (by norm_num) (by decide) (by decide)

/-- A mean wait is bounded where the scaling of the load is moderate. -/
theorem within_meanSeconds (h : p.Fits)
    (hscaling : p.loadScaling ≤ moderateScaling.toUInt64.toFloat) (c : Priority) (u : Float) :
    Within (longestSetting * (moderateScaling * 1 + 1)) (p.meanSeconds c u) := by
  have hfactor :=
    (within_of_le (by decide) h.scaling hscaling).mul (within_clampUtilization u) (by decide)
  exact (within_baseMean h c).mul (hfactor.one_add (by decide)) (by decide)

/-- A wait without a bound is bounded by those of the mean and of the logarithm. -/
theorem nanos_wait_le_of_scaling (h : p.Fits) (hln : m.LnFits)
    (hscaling : p.loadScaling ≤ moderateScaling.toUInt64.toFloat) (hnone : p.maxWaitSeconds = none)
    (c : Priority) (u : Float) (w : UInt64) :
    (p.wait m c u (Dice.unit w)).nanos ≤
      longestSetting * (moderateScaling * 1 + 1) * 37 * nanosPerSecond := by
  obtain ⟨hlow, hhigh⟩ := Dice.one_sub_unit w
  obtain ⟨hleast, hmost⟩ := hln _ hlow hhigh
  have hseconds :=
    (within_meanSeconds h hscaling c u).neg_mul (n := 37) (by norm_num) hleast hmost (by decide)
  apply Duration.nanos_ofFloat_le (by decide)
  intro _
  rw [waitSeconds, hnone]
  exact hseconds

theorem not_lt_smaller (hn : n < 2 ^ 53) (x : Float) :
    ¬ n.toUInt64.toFloat < smaller x n.toUInt64.toFloat := by
  obtain ⟨b, hb, -, hfloat⟩ := exists_toFloat_eq hn
  have hself : ¬ n.toUInt64.toFloat < n.toUInt64.toFloat := by
    rw [hfloat, double_lt_iff hb hb]
    exact lt_irrefl _
  unfold smaller
  split
  · exact hself
  · split
    · next hnan =>
      rw [hfloat, isNaN_double hb] at hnan
      cases hnan
    · split
      · exact hself
      · next hlt => exact hlt

/-- A wait with a bound keeps to it. -/
theorem nanos_wait_le_of_maxWait (h : p.Fits) {max : ℕ} (hsome : p.maxWaitSeconds = some max)
    (c : Priority) (u x : Float) : (p.wait m c u x).nanos ≤ max * nanosPerSecond := by
  have hbits : max < 2 ^ 53 := (h.maxWait max hsome).2.trans_lt (by decide)
  apply Duration.nanos_ofFloat_le hbits
  intro hpos
  rw [waitSeconds, hsome] at hpos ⊢
  exact within_of_pos hbits hpos (not_lt_smaller hbits _)

end Pacing

namespace Scheduler

variable (s : Scheduler) (c : Priority) (now : Instant) (load : LoadSignal) (service : String)
  (apiKey : Option String) (d : Dice)

/-- How long the client has to wait. -/
def waitOf : Duration :=
  s.pacing.wait s.math c (effectiveUtilization load) (Dice.unit (d.word d.drawn))

theorem notBefore_schedule : (s.schedule c now load service apiKey d).1.next.notBefore =
    now.saturatingAdd (s.waitOf c load d) :=
  rfl

theorem expires_schedule : (s.schedule c now load service apiKey d).1.next.expires =
    (now.saturatingAdd (s.waitOf c load d)).saturatingAdd (.ofSeconds s.pacing.validitySeconds) :=
  rfl

variable {s c now load d}

/-- A wait is bounded if there is a longest wait, or if the scaling of the load is moderate. -/
theorem nanos_waitOf_le (h : s.pacing.Fits)
    (hbounded : s.pacing.maxWaitSeconds.isSome ∨
      s.pacing.loadScaling ≤ moderateScaling.toUInt64.toFloat ∧ s.math.LnFits) :
    (s.waitOf c load d).nanos ≤
      longestSetting * (moderateScaling * 1 + 1) * 37 * nanosPerSecond := by
  cases hmax : s.pacing.maxWaitSeconds with
  | some max =>
    have hlongest := Nat.mul_le_mul_right nanosPerSecond (h.maxWait max hmax).2
    exact ((Pacing.nanos_wait_le_of_maxWait h hmax c _ _).trans hlongest).trans (by decide)
  | none =>
    rw [hmax] at hbounded
    obtain ⟨hscaling, hln⟩ := hbounded.resolve_left (by simp)
    exact Pacing.nanos_wait_le_of_scaling h hln hscaling hmax c _ _

/-- **The window of a client that comes before the year 10000.** -/
theorem window_of_valid (valid : s.pacing.fault? = none)
    (hnow : now.nanos < yearTenThousand.nanos) :
    now.nanos ≤ (s.schedule c now load service apiKey d).1.next.notBefore.nanos ∧
      (s.schedule c now load service apiKey d).1.next.notBefore.nanos ≤
        (s.schedule c now load service apiKey d).1.next.expires.nanos ∧
      ((s.schedule c now load service apiKey d).1.next.notBefore.nanos <
          (s.schedule c now load service apiKey d).1.next.expires.nanos ↔
        (s.schedule c now load service apiKey d).1.next.notBefore ≠ .last) ∧
      (s.pacing.maxWaitSeconds.isSome ∨
          s.pacing.loadScaling ≤ moderateScaling.toUInt64.toFloat ∧ s.math.LnFits →
        (s.schedule c now load service apiKey d).1.next.notBefore.nanos <
          (s.schedule c now load service apiKey d).1.next.expires.nanos) := by
  have hfits := Pacing.fits_of_valid valid
  obtain ⟨hsome, hlongest⟩ := hfits.validity
  have hvalidity : 0 < (Duration.ofSeconds s.pacing.validitySeconds).nanos := by
    rw [Duration.nanos_ofSeconds (hlongest.trans_lt (by decide))]
    exact Nat.mul_pos hsome (by decide)
  have hlast : now.nanos ≤ Instant.last.nanos := hnow.le.trans (by decide)
  rw [notBefore_schedule, expires_schedule]
  have hend := Instant.saturatingAdd_le_last now (s.waitOf c load d)
  refine ⟨Instant.le_saturatingAdd hlast, Instant.le_saturatingAdd hend,
    ⟨fun hlt heq => ?_, fun hne => ?_⟩, fun hbounded => ?_⟩
  · rw [heq, Instant.last_saturatingAdd] at hlt
    exact lt_irrefl _ hlt
  · have hbefore := hend.lt_of_ne fun heq => hne (congrArg Instant.mk heq)
    exact Instant.lt_saturatingAdd hbefore hvalidity
  · have hwait := @nanos_waitOf_le s c load d hfits hbounded
    refine Instant.lt_saturatingAdd
      (Instant.saturatingAdd_lt_last ?_ (hwait.trans (by decide))) hvalidity
    have hroom : yearTenThousand.nanos +
        (longestSetting * (moderateScaling * 1 + 1) * 37 * nanosPerSecond : ℕ) ≤
        Instant.last.nanos := by decide
    omega

/-! ## Empty and not empty -/

/-- A scheduler with standard settings but for the load scaling, and with the
    logarithm of one half. -/
def sampleScaled (loadScaling : Float) : Scheduler where
  pacing := { loadScaling }
  signer := ⟨Token.octets "secret"⟩
  base := { scheme := "https", host := some "locate.example.net", path := .segments [""] }
  math := ⟨id, id, id, fun _ => -0.6931471805599453⟩

/-- The window of an anonymous client in November 2023 that draws one half while
    the server is full. -/
def sampleWindow (loadScaling : Float) : NextRequest :=
  ((sampleScaled loadScaling).schedule .global ⟨1700000000 * nanosPerSecond⟩
    ⟨1.0, false, false⟩ "ndt" none
    (.ofWords #[0x8000000000000000])).1.next

/-- With standard settings there is time between the instants. -/
theorem window_of_valid_standard :
    (sampleScaled 4.0).pacing.fault? = none ∧ (sampleScaled 4.0).math.LnFits ∧
    (sampleWindow 4.0).notBefore.nanos < (sampleWindow 4.0).expires.nanos := by
  have hvalid : (sampleScaled 4.0).pacing.fault? = none := by decide +kernel
  have hhalf : -37.0 ≤ (-0.6931471805599453 : Float) ∧ (-0.6931471805599453 : Float) ≤ 0.0 := by
    decide +kernel
  have hln : (sampleScaled 4.0).math.LnFits := fun _ _ _ => hhalf
  have hscaling : (sampleScaled 4.0).pacing.loadScaling ≤ moderateScaling.toUInt64.toFloat := by
    decide +kernel
  exact ⟨hvalid, hln, (window_of_valid "ndt" none hvalid (by decide)).2.2.2 (.inr ⟨hscaling, hln⟩)⟩

/-- With a load scaling that is valid all the same, there is none. -/
theorem window_empty : (sampleScaled 1e290).pacing.fault? = none ∧
    (sampleWindow 1e290).notBefore = .last ∧ (sampleWindow 1e290).expires = .last := by
  decide +kernel

end Scheduler

end Roster
