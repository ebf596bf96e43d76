import Roster.Proofs.Time.Saturation

/-!
# The instants of the calendar

A clock shows only instants between the first and the last one, and a duration added to such an
instant is cut at two limits: a step is no longer than `2^63 - 1` milliseconds, and nothing is later
than the last instant. Only the second limit shows. The calendar is shorter than the longest step
(`last_lt_add_longestStep`), so a longer one would have left it from wherever it started, and what
is answered without adding anything is what adding would have given.

This is the one place where it matters that the calendar begins somewhere. From early enough before
it the longest step would not reach the end, and a step that is too long would skip instants that
the exact sum still has.
-/

namespace Roster.Instant

variable {t u : Instant} {d e : Duration}

/-- The first instant, with which the year 262144 before the common era begins. -/
def first : Instant :=
  ⟨-8334601228800 * nanosPerSecond⟩

/-- The instants that the calendar has, the only ones that a clock shows and a schedule holds. -/
def InCalendar (t : Instant) : Prop :=
  first.nanos ≤ t.nanos ∧ t.nanos ≤ last.nanos

instance (t : Instant) : Decidable t.InCalendar :=
  inferInstanceAs (Decidable (_ ∧ _))

theorem last_lt_add_longestStep : last.nanos < first.nanos + longestStep := by
  decide

/-- A saturating sum is an instant of the calendar. -/
theorem InCalendar.saturatingAdd {t : Instant} (h : t.InCalendar) (d : Duration) :
    (t.saturatingAdd d).InCalendar :=
  ⟨h.1.trans (le_saturatingAdd h.2), saturatingAdd_le_last t d⟩

/-- In the calendar a sum is cut where the calendar ends, and nowhere else. -/
theorem InCalendar.nanos_saturatingAdd_eq_min (h : t.InCalendar) (d : Duration) :
    (t.saturatingAdd d).nanos = min (t.nanos + d.nanos) last.nanos := by
  have hshort := last_lt_add_longestStep
  have hfirst := h.1
  unfold Instant.saturatingAdd
  split
  · next hlong =>
    -- too long for one step, so past the end from any instant of the calendar
    have hpast : last.nanos ≤ t.nanos + d.nanos := by omega
    exact (min_eq_right hpast).symm
  · split
    · next hpast => exact (min_eq_right hpast.le).symm
    · next hwithin => exact (min_eq_left (not_lt.mp hwithin)).symm

/-- Later and longer is never earlier. -/
theorem InCalendar.saturatingAdd_le_saturatingAdd (ht : t.InCalendar) (hu : u.InCalendar)
    (h : t.nanos ≤ u.nanos) (hd : d.nanos ≤ e.nanos) :
    (t.saturatingAdd d).nanos ≤ (u.saturatingAdd e).nanos := by
  rw [ht.nanos_saturatingAdd_eq_min, hu.nanos_saturatingAdd_eq_min]
  have hsum : t.nanos + d.nanos ≤ u.nanos + e.nanos := add_le_add h (by exact_mod_cast hd)
  exact min_le_min_right _ hsum

/-- **A sum is exact, or it is the last instant because the exact one would be later.** So it
    stays in the calendar, is never earlier than where it starts, and is monotone in the instant
    and in the duration. -/
theorem saturatingAdd_exact (h : t.InCalendar) (d : Duration) :
    (t.nanos + d.nanos ≤ last.nanos → t.saturatingAdd d = ⟨t.nanos + d.nanos⟩) ∧
      (last.nanos < t.nanos + d.nanos → t.saturatingAdd d = last) ∧
      (t.saturatingAdd d).InCalendar ∧
      t.nanos ≤ (t.saturatingAdd d).nanos ∧
      ∀ (u : Instant) (e : Duration), u.InCalendar → t.nanos ≤ u.nanos → d.nanos ≤ e.nanos →
        (t.saturatingAdd d).nanos ≤ (u.saturatingAdd e).nanos := by
  have hsum := h.nanos_saturatingAdd_eq_min d
  refine ⟨fun hwithin => ?_, fun hpast => ?_, h.saturatingAdd d, le_saturatingAdd h.2,
    fun u e hu htu hde => h.saturatingAdd_le_saturatingAdd hu htu hde⟩
  · rw [min_eq_left hwithin] at hsum
    exact congrArg Instant.mk hsum
  · rw [min_eq_right hpast.le] at hsum
    exact congrArg Instant.mk hsum

/-- All of the calendar added to its first instant leads to its last one, a nanosecond less to the
    one before it, and the longest duration, which no step has room for, to the last one again. -/
theorem saturatingAdd_exact_first :
    let whole := (last.nanos - first.nanos).toNat
    first.InCalendar ∧ longestStep < Duration.longest.nanos ∧
      first.saturatingAdd (.ofNanos (whole - 1)) = ⟨last.nanos - 1⟩ ∧
      first.saturatingAdd (.ofNanos whole) = last ∧
      first.saturatingAdd .longest = last := by
  intro whole
  have hfirst : first.InCalendar := by decide
  refine ⟨hfirst, by decide, ?_, ?_, ?_⟩
  · exact ((saturatingAdd_exact hfirst (.ofNanos (whole - 1))).1 (by decide)).trans (by decide)
  · exact ((saturatingAdd_exact hfirst (.ofNanos whole)).1 (by decide)).trans (by decide)
  · exact (saturatingAdd_exact hfirst .longest).2.1 (by decide)

end Roster.Instant
