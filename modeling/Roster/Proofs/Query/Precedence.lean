import Roster.Proofs.Query.Window
import Roster.Proofs.Time.Order

/-!
# Who waits longer

For one random word a client of higher priority, or one that comes under a lower load, never waits
longer. Every step of the calculation keeps the order, but for one product: a mean that has become
infinite, times the logarithm of one, is no number at all, and neither less nor greater than
anything. There the order is kept because such a product is taken for no time, or for the longest
wait if there is one, and a mean that is smaller gives no time for the same word if it is finite,
and the same product if it is not (`product_cases`).

That only finite utilizations are compared is needed: one that is no finite number counts as full,
minus infinity included.
-/

namespace Roster

open Decimal

/-- What is used of a logarithm: of a positive number up to one it is not positive. -/
def Elementary.LnNonpos (m : Elementary) : Prop :=
  ∀ x, 0.0 < x → x ≤ 1.0 → m.ln x ≤ 0.0

namespace Pacing

variable {p : Pacing} {m : Elementary} {c c' : Priority} {u u' x : Float}

/-! ## Means -/

/-- A higher priority has no larger mean. -/
theorem baseMean_mono (valid : p.fault? = none) (hrank : c.rank ≤ c'.rank) :
    p.baseMean c ≤ p.baseMean c' := by
  have hmean (c : Priority) : 0.0 ≤ p.baseMean c := le_of_lt_double ((fits_of_valid valid).mean c).1
  have hordered : ¬ p.bestEffortMean < p.highAvailabilityMean ∧
      ¬ p.globalMean < p.bestEffortMean := by
    unfold fault? at valid
    split at valid
    · cases valid
    · split at valid
      · cases valid
      · next hmeans => simpa using hmeans
  have hhigh : p.highAvailabilityMean ≤ p.bestEffortMean :=
    le_of_not_lt hordered.1
      (le_or_le (le_refl_right (hmean .highAvailability)) (le_refl_right (hmean .bestEffort)))
  have hbest : p.bestEffortMean ≤ p.globalMean :=
    le_of_not_lt hordered.2
      (le_or_le (le_refl_right (hmean .bestEffort)) (le_refl_right (hmean .global)))
  cases c with
  | highAvailability => cases c' with
    | highAvailability => exact le_refl_right (hmean _)
    | bestEffort => exact hhigh
    | global => exact le_of_le_le hhigh hbest
  | bestEffort => cases c' with
    | highAvailability => cases hrank
    | bestEffort => exact le_refl_right (hmean _)
    | global => exact hbest
  | global => cases c' with
    | highAvailability => exact absurd hrank (by decide)
    | bestEffort => exact absurd hrank (by decide)
    | global => exact le_refl_right (hmean _)

/-- What stands for a utilization is a number from zero to one, whatever the utilization is. -/
theorem clampUtilization_fits (u : Float) :
    0.0 ≤ clampUtilization u ∧ clampUtilization u ≤ 1.0 ∧ (clampUtilization u).isFinite := by
  have hunit : (0.0 : Float) ≤ 1.0 := le_of_lt_double zero_lt_one
  have hzero := le_refl_left hunit
  have hone := le_refl_right hunit
  unfold clampUtilization
  split
  · next hu =>
    have hu' := le_refl_of_isFinite hu
    split
    · exact ⟨hzero, hunit, isFinite_zero⟩
    · next hlow =>
      split
      · exact ⟨hunit, hone, isFinite_one⟩
      · next hhigh =>
          exact ⟨le_of_not_lt hlow (le_or_le hzero hu'), le_of_not_lt hhigh (le_or_le hu' hone), hu⟩
  · exact ⟨hunit, hone, isFinite_one⟩

theorem clampUtilization_one : clampUtilization 1.0 = 1.0 := by
  have hlow := not_lt_of_le (le_of_lt_double zero_lt_one)
  have hhigh := not_lt_of_le (le_refl_of_isFinite isFinite_one)
  rw [clampUtilization, if_pos isFinite_one, if_neg hlow, if_neg hhigh]

/-- A lower utilization stands for a lower one. -/
theorem clampUtilization_mono (hu : u.isFinite) (hu' : u'.isFinite) (h : u ≤ u') :
    clampUtilization u ≤ clampUtilization u' := by
  by_cases hlow : u < 0.0
  · rw [clampUtilization, if_pos hu, if_pos hlow]
    exact (clampUtilization_fits u').1
  · by_cases hhigh : 1.0 < u'
    · have hpos : ¬ u' < 0.0 := fun hneg => hlow (lt_of_le_lt h hneg)
      rw [clampUtilization.eq_def u', if_pos hu', if_neg hpos, if_pos hhigh]
      exact (clampUtilization_fits u).2.1
    · have hlow' : ¬ u' < 0.0 := fun hneg => hlow (lt_of_le_lt h hneg)
      have hhigh' : ¬ 1.0 < u := fun hgt => hhigh (lt_of_lt_le hgt h)
      rw [clampUtilization, clampUtilization, if_pos hu, if_pos hu', if_neg hlow, if_neg hlow',
        if_neg hhigh, if_neg hhigh']
      exact h

/-- What a load makes of the mean: it multiplies it by one at least. -/
theorem one_le_factor (h : p.Fits) (hscaling : p.loadScaling.isFinite) (u : Float) :
    0.0 ≤ p.loadScaling * clampUtilization u ∧ 0.0 < 1.0 + p.loadScaling * clampUtilization u := by
  obtain ⟨hclamp, -, hfinite⟩ := clampUtilization_fits u
  obtain ⟨s, a, ha, hs, hscale⟩ := exists_amount h.scaling hscaling
  obtain ⟨t, b, hb, ht, hfactor⟩ := exists_amount hclamp hfinite
  have hproduct : 0.0 ≤ p.loadScaling * clampUtilization u := by
    rw [hscale, hfactor]
    exact (gives_mul ha hb hs ht).nonneg
  exact ⟨hproduct, lt_of_lt_le zero_lt_one (one_le_one_add hproduct)⟩

theorem scaling_isFinite (valid : p.fault? = none) : p.loadScaling.isFinite := by
  unfold fault? at valid
  split at valid
  · cases valid
  · simp only [ite_eq_iff, reduceCtorEq, and_false, false_or, Bool.not_eq_true', Bool.not_eq_false,
      Bool.and_eq_true] at valid
    exact valid.2.1.1

/-- The mean wait is ordered by the class and by the load. -/
theorem meanSeconds_mono (valid : p.fault? = none) (hrank : c.rank ≤ c'.rank)
    (h : clampUtilization u ≤ clampUtilization u') : p.meanSeconds c u ≤ p.meanSeconds c' u' := by
  have hfits := fits_of_valid valid
  have hscaling := scaling_isFinite valid
  obtain ⟨hproduct, hfactor⟩ := one_le_factor hfits hscaling u
  have hload : p.loadScaling * clampUtilization u ≤ p.loadScaling * clampUtilization u' :=
    mul_le_mul_of_isFinite hfits.scaling (clampUtilization_fits u).1
      (le_refl_of_isFinite hscaling) h hscaling
      (clampUtilization_fits u').2.2
  exact mul_le_mul_of_pos (hfits.mean c).1 hfactor (baseMean_mono valid hrank)
    (one_add_le_one_add hproduct hload)

/-- A mean wait is positive. -/
theorem meanSeconds_pos (valid : p.fault? = none) (c : Priority) (u : Float) :
    0.0 < p.meanSeconds c u := by
  have hfits := fits_of_valid valid
  obtain ⟨hpos, hle⟩ := hfits.mean c
  obtain ⟨hproduct, -⟩ := one_le_factor hfits (scaling_isFinite valid) u
  obtain ⟨s, b, hb, -, -, hmean⟩ := within_baseMean hfits c
  have hgrown :=
    mul_le_mul_of_pos hpos zero_lt_one (le_refl_right (le_of_lt_double hpos))
      (one_le_one_add hproduct)
  rw [hmean, double_mul_one hb, ← hmean] at hgrown
  exact lt_of_lt_le hpos hgrown

/-! ## Waits -/

/-- Of two means and one logarithm the products are in order, or the first one is no time, or
    they are the same. -/
theorem product_cases {mean mean' ln : Float} (hmean : 0.0 < mean) (hle : mean ≤ mean')
    (hln : ln ≤ 0.0) :
    -mean * ln ≤ -mean' * ln ∨ -mean * ln ≤ 0.0 ∨ -mean * ln = -mean' * ln := by
  rw [mul_neg_comm, mul_neg_comm]
  have hnonneg := nonneg_neg hln
  generalize -ln = amount at hnonneg
  by_cases hpos : 0.0 < amount
  · exact .inl (mul_le_mul_of_pos hmean hpos hle (le_refl_right hnonneg))
  right
  have hzero : amount ≤ 0.0 := le_of_not_lt hpos (.inr hnonneg)
  obtain ⟨s, a, ha, hs, rfl⟩ | hendless := amount_or_endless (le_of_lt_double hmean)
  · -- A finite mean times nothing is nothing.
    left
    obtain ⟨t, b, hb, ht, rfl⟩ := exists_amount hnonneg (isFinite_of_le hnonneg hzero isFinite_zero)
    rw [← double_zero, amount_le_iff hb finite_zero ht (.inl rfl)] at hzero
    have hnone : a.value * b.value ≤ Binary.zero.value := by
      rw [Binary.value_zero] at hzero ⊢
      exact mul_nonpos_of_nonneg_of_nonpos a.value_nonneg hzero
    exact (gives_mul ha hb hs ht).mono (gives_value finite_zero (.inl rfl)) hnone
  · -- If the smaller mean is infinite, so is the larger one.
    right
    obtain ⟨s, a, ha, -, rfl⟩ | hendless' :=
      amount_or_endless (le_of_le_le (le_of_lt_double hmean) hle)
    · exact absurd (isFinite_of_le (le_of_lt_double hmean) hle (isFinite_double ha s))
        hendless.not_isFinite
    · rw [unpack_injective (hendless.trans hendless'.symm)]

theorem smaller_of_le {x y k : Float} (hx : x ≤ y) (hk : k ≤ k) :
    smaller x k = if k < x then k else x := by
  rw [smaller, isNaN_eq_false_of_le hx, isNaN_eq_false_of_le hk, if_neg Bool.false_ne_true,
    if_neg Bool.false_ne_true]

theorem smaller_mono {x y k : Float} (h : x ≤ y) (hk : k ≤ k) : smaller x k ≤ smaller y k := by
  rw [smaller_of_le h hk, smaller_of_le (le_refl_right h) hk]
  by_cases hy : k < y
  · rw [if_pos hy]
    split
    · exact hk
    · next hx => exact le_of_not_lt hx (le_or_le (le_refl_left h) hk)
  · rw [if_neg hy, if_neg fun hx => hy (lt_of_lt_le hx h)]
    exact h

/-- What is no time is not cut. -/
theorem smaller_of_nonpos {x k : Float} (hx : x ≤ 0.0) (hk : 0.0 < k) : smaller x k = x := by
  rw [smaller_of_le hx (le_refl_right (le_of_lt_double hk)),
    if_neg fun hlt => not_lt_of_le hx (lt_of_lt_lt hk hlt)]

theorem maxWait_pos (valid : p.fault? = none) {max : ℕ} (hmax : p.maxWaitSeconds = some max) :
    0.0 < max.toUInt64.toFloat := by
  obtain ⟨hpos, hle⟩ := (fits_of_valid valid).maxWait max hmax
  obtain ⟨b, hb, hvalue, hfloat⟩ :=
    exists_toFloat_eq (hle.trans_lt (by decide : longestSetting < 2 ^ 53))
  rw [hfloat, zero_lt_double_iff hb, ne_eq, ← Binary.value_eq_zero_iff, hvalue]
  exact ⟨rfl, by exact_mod_cast hpos.ne'⟩

/-- **Whoever has at least the priority and at most the load waits no longer**, for one random
    word. -/
theorem nanos_wait_mono (valid : p.fault? = none) (hln : m.LnNonpos) (hrank : c.rank ≤ c'.rank)
    (h : clampUtilization u ≤ clampUtilization u') (w : UInt64) :
    (p.wait m c u (Dice.unit w)).nanos ≤ (p.wait m c' u' (Dice.unit w)).nanos := by
  have hleast : (0.0 : Float) < Float.ofBits 0x3CA0000000000000 := by decide
  obtain ⟨hlow, hhigh⟩ := Dice.one_sub_unit w
  have hproducts := product_cases (meanSeconds_pos valid c u) (meanSeconds_mono valid hrank h)
    (hln _ (lt_of_lt_le hleast hlow) hhigh)
  unfold wait waitSeconds
  cases hmax : p.maxWaitSeconds with
  | none =>
    rcases hproducts with hle | hnone | hsame
    · exact Duration.nanos_ofFloat_mono hle
    · rw [Duration.nanos_ofFloat_of_not_pos (not_lt_of_le hnone)]
      exact Nat.zero_le _
    · exact (congrArg (fun x => (Duration.ofFloat x).nanos) hsame).le
  | some max =>
    have hpos := maxWait_pos valid hmax
    rcases hproducts with hle | hnone | hsame
    · exact Duration.nanos_ofFloat_mono (smaller_mono hle (le_refl_right (le_of_lt_double hpos)))
    · dsimp only
      rw [smaller_of_nonpos hnone hpos, Duration.nanos_ofFloat_of_not_pos (not_lt_of_le hnone)]
      exact Nat.zero_le _
    · exact (congrArg (fun x => (Duration.ofFloat (smaller x max.toUInt64.toFloat)).nanos) hsame).le

end Pacing

namespace Scheduler

variable {s : Scheduler}

/-- A client that is turned away waits as if the server were full. -/
theorem effectiveUtilization_le {load load' : LoadSignal} (h : (throttleOf load').isSome) :
    Pacing.clampUtilization (effectiveUtilization load) ≤
      Pacing.clampUtilization (effectiveUtilization load') := by
  rw [effectiveUtilization.eq_def load', if_pos h, Pacing.clampUtilization_one]
  exact (Pacing.clampUtilization_fits _).2.1

/-- **Higher priority and lower load never wait longer.** -/
theorem waits_in_order (valid : s.pacing.fault? = none) (hln : s.math.LnNonpos) :
    (∀ c c' : Priority, c.rank ≤ c'.rank → ∀ u u' : Float, u.isFinite → u'.isFinite → u ≤ u' →
      (s.pacing.mean c u).nanos ≤ (s.pacing.mean c' u').nanos ∧
        ∀ d d' : Dice, d.word d.drawn = d'.word d'.drawn →
          (s.pacing.draw s.math c u d).1.nanos ≤ (s.pacing.draw s.math c' u' d').1.nanos) ∧
      ∀ (c : Priority) (now : Instant) (load load' : LoadSignal) (service service' : String)
        (apiKey apiKey' : Option String) (d d' : Dice), d.word d.drawn = d'.word d'.drawn →
        let admitted := (s.schedule c now load service apiKey d).1
        let throttled := (s.schedule c now load' service' apiKey' d').1
        admitted.throttle = none → throttled.throttle.isSome →
          admitted.next.notBefore.nanos ≤ throttled.next.notBefore.nanos := by
  constructor
  · intro c c' hrank u u' hu hu' hle
    have hclamp := Pacing.clampUtilization_mono hu hu' hle
    refine ⟨Duration.nanos_ofFloat_mono (Pacing.meanSeconds_mono valid hrank hclamp),
      fun d d' hword => ?_⟩
    change (s.pacing.wait s.math c u (Dice.unit (d.word d.drawn))).nanos ≤
      (s.pacing.wait s.math c' u' (Dice.unit (d'.word d'.drawn))).nanos
    rw [hword]
    exact Pacing.nanos_wait_mono valid hln hrank hclamp _
  · intro c now load load' service service' apiKey apiKey' d d' hword admitted
      throttled _ hthrottled
    apply Instant.saturatingAdd_mono
    rw [hword]
    exact Pacing.nanos_wait_mono valid hln le_rfl (effectiveUtilization_le hthrottled) _

/-- A scheduler whose means become infinite under some loads, and of whose waits none is
    longer than a minute. -/
def sampleSteep : Scheduler where
  pacing := { loadScaling := Float.ofBits 0x7FEFFFFFFFFFFFFF, maxWaitSeconds := some 60 }
  signer := ⟨Token.octets "secret"⟩
  base := { scheme := "https", host := some "locate.example.net", path := .segments [""] }
  math := ⟨id, id, id, fun x => if x < 1.0 then -0.6931471805599453 else 0.0⟩

/-- For the word zero, of which the logarithm is nothing, a finite mean gives no wait and an
    infinite one the longest. -/
theorem waits_in_order_steep :
    let idle := sampleSteep.pacing.draw sampleSteep.math .highAvailability 0.0 (.ofWords #[0])
    let full := sampleSteep.pacing.draw sampleSteep.math .global 1.0 (.ofWords #[0])
    let schedule (load : LoadSignal) :=
      (sampleSteep.schedule .global ⟨0⟩ load "ndt" none (.ofWords #[0])).1
    sampleSteep.pacing.fault? = none ∧ sampleSteep.math.LnNonpos ∧ idle.1.nanos = 0 ∧
      full.1.nanos = 60 * nanosPerSecond ∧ idle.1.nanos ≤ full.1.nanos ∧
      (schedule ⟨0.0, false, false⟩).next.notBefore.nanos ≤
      (schedule ⟨0.0, false, true⟩).next.notBefore.nanos := by
  have hvalid : sampleSteep.pacing.fault? = none := by decide
  have hln : sampleSteep.math.LnNonpos := by
    intro x _ _
    change (if x < 1.0 then (-0.6931471805599453 : Float) else 0.0) ≤ 0.0
    split
    · decide
    · decide
  have hordered := waits_in_order hvalid hln
  refine ⟨hvalid, hln, by decide, by decide +kernel, ?_, ?_⟩
  · exact (hordered.1 .highAvailability .global (by decide) 0.0 1.0 isFinite_zero isFinite_one
      (le_of_lt_double zero_lt_one)).2 _ _ rfl
  · exact hordered.2 .global ⟨0⟩ ⟨0.0, false, false⟩ ⟨0.0, false, true⟩ "ndt" "ndt" none none _
      _ rfl rfl rfl

end Scheduler

end Roster
