import Roster.Elementary
import Roster.Proofs.Decimal.Proportion
import Roster.Query.Load

/-!
# What is known of the load

Requests come and go as they like, so the number of those in flight is kept by guards: each
request has one from its beginning to its end, whatever its end is. `Guards` are a monitor with
all the guards that were ever begun. A move begins another one, drops one that is still held, or
takes a signal, and a list of moves is an interleaving. To take a signal is to read the number in
flight and then to count the client. Guards do not look at the clients, so nothing is lost by
taking the two for one move.

The invariant is that the monitor counts the guards that are held (`Guards.Counted`). What a signal
says of such a number is a matter of doubles (`tells_signal`). The number and the capacity are
rounded before they are divided, but rounding is monotone, so that a full server is told to be full.
-/

namespace Roster

open Decimal

/-! ## Signals -/

namespace LoadMonitor

variable (m : LoadMonitor) (clock : Instant) (client : Option String)

/-- The requests of a client in its current window, one more included. -/
def requestsOf (address : String) : UInt32 :=
  ((m.countOf clock address).map ClientCount.count).getD 0 + 1

theorem count_countRequest (address : String) :
    (m.countRequest clock address).1 = m.requestsOf clock address := by
  unfold countRequest requestsOf
  cases m.countOf clock address with
  | none => rfl
  | some c => rfl

@[simp] theorem inFlight_signal : (m.signal clock client).2.inFlight = m.inFlight := by
  cases client with
  | none => rfl
  | some address => rfl

@[simp] theorem limits_signal : (m.signal clock client).2.limits = m.limits := by
  cases client with
  | none => rfl
  | some address => rfl

/-- The capacity is exhausted if more are in flight than it says. -/
theorem capacityExhausted_signal_iff :
    (m.signal clock client).1.capacityExhausted ↔ m.capacity < m.inFlight := by
  cases client with
  | none => exact decide_eq_true_iff
  | some address => exact decide_eq_true_iff

theorem utilization_signal :
    (m.signal clock client).1.utilization = (m.signalWith false).utilization := by
  cases client with
  | none => rfl
  | some address => rfl

/-- The rate of a client is exceeded by its own requests. -/
theorem clientRateExceeded_signal_iff : (m.signal clock client).1.clientRateExceeded ↔
    ∃ address, client = some address ∧
      m.limits.clientRequests < (m.requestsOf clock address).toNat := by
  cases client with
  | none => exact iff_of_false Bool.false_ne_true nofun
  | some address =>
    simp only [Option.some.injEq, exists_eq_left', ← count_countRequest]
    exact decide_eq_true_iff

end LoadMonitor

/-- What a signal says of a number of requests in flight, at a capacity. -/
structure LoadSignal.Tells (signal : LoadSignal) (capacity n : ℕ) : Prop where
  exhausted : signal.capacityExhausted ↔ capacity < n
  quotient : signal.utilization = smaller (n.toUInt64.toFloat / capacity.toUInt64.toFloat) 1.0
  /-- doubles have 53 bits -/
  nearest : n < 2 ^ 53 → capacity < 2 ^ 53 →
    Rounded (min (n / capacity) 1) .positive signal.utilization
  nonneg : 0.0 ≤ signal.utilization
  le_one : signal.utilization ≤ 1.0
  full : signal.capacityExhausted → signal.utilization = 1.0

/-! ## Utilizations -/

/-- The largest number that a word rounds to. -/
def wordLimit : Binary :=
  .ofParts (2 ^ 52) 12

theorem canonical_wordLimit : wordLimit.Canonical :=
  Binary.canonical_ofParts (by norm_num) (by norm_num) (.inl le_rfl)

theorem value_wordLimit : wordLimit.value = UInt64.size := by
  norm_num [Binary.value, wordLimit, Binary.ofParts, UInt64.size]

/-- A quotient of words, where the divisor is positive. -/
theorem exists_quotient {a b : Binary} {n : ℕ} (ha : a.Finite) (hb : b.Finite)
    (hn : n < UInt64.size) (htakes : a.Takes n) (hone : 1 ≤ b.value) :
    ∃ c : Binary, c.Finite ∧ c.Takes (a.value / b.value) ∧
      double .positive a / double .positive b = double .positive c := by
  have hpos : 0 < b.value := one_pos.trans_le hone
  have hrounded : Rounded _ .positive (double .positive a / double .positive b) :=
    rounded_div ha hb (mt Binary.value_of_eq_zero hpos.ne')
  obtain ⟨c, hc, hquotient, hdouble⟩ := hrounded
  have hle : a.value ≤ UInt64.size := by
    rw [← value_wordLimit]
    refine htakes.mono wordLimit.takes_value ha.toCanonical canonical_wordLimit ?_
    rw [value_wordLimit]
    exact_mod_cast hn.le
  have hbound : a.value / b.value ≤ 2 ^ 64 := by
    calc
      a.value / b.value ≤ a.value := div_le_self a.value_nonneg hone
      _ ≤ UInt64.size := hle
      _ = 2 ^ 64 := by norm_num [UInt64.size]
  exact ⟨c, hquotient.finite hc (le_of_le_size hbound), hquotient, hdouble⟩

/-- The share of a capacity. It is not below one if it should not be, although the two words
    are rounded first. -/
theorem exists_share {n capacity : ℕ} (hn : n < UInt64.size) (hcapacity : capacity < UInt64.size)
    (hpos : 1 ≤ capacity) :
    ∃ c : Binary, c.Finite ∧ n.toUInt64.toFloat / capacity.toUInt64.toFloat = double .positive c ∧
      (capacity ≤ n → 1 ≤ c.value) ∧
      (n < 2 ^ 53 → capacity < 2 ^ 53 → c.Takes (n / capacity)) := by
  obtain ⟨a, ha, htakes, ha'⟩ := exists_toFloat hn
  obtain ⟨b, hb, hbtakes, hb'⟩ := exists_toFloat hcapacity
  have hone : 1 ≤ b.value := by
    have hmono := Binary.takes_one.mono hbtakes Binary.finite_one.toCanonical hb.toCanonical
      (by exact_mod_cast hpos)
    rwa [Binary.value_one] at hmono
  have hpositive : 0 < b.value := one_pos.trans_le hone
  obtain ⟨c, hc, hquotient, hdouble⟩ := exists_quotient ha hb hn htakes hone
  refine ⟨c, hc, by rw [ha', hb', hdouble], ?full, ?exact⟩
  case full =>
    intro hle
    have hvalue : 1 ≤ a.value / b.value := (one_le_div₀ hpositive).mpr
      (hbtakes.mono htakes hb.toCanonical ha.toCanonical (by exact_mod_cast hle))
    have hmono :=
      Binary.takes_one.mono hquotient Binary.finite_one.toCanonical hc.toCanonical hvalue
    rwa [Binary.value_one] at hmono
  case exact =>
    -- Below 2 ^ 53 the two words are not rounded at all.
    intro hn53 hcapacity53
    obtain ⟨a₀, ha₀, hvalue⟩ := exists_value_eq hn53
    obtain ⟨b₀, hb₀, hvalue₀⟩ := exists_value_eq hcapacity53
    have ha_eq : a = a₀ := htakes.unique (hvalue ▸ a₀.takes_value) ha.toCanonical ha₀.toCanonical
    have hb_eq : b = b₀ := hbtakes.unique (hvalue₀ ▸ b₀.takes_value) hb.toCanonical hb₀.toCanonical
    rwa [ha_eq, hb_eq, hvalue, hvalue₀] at hquotient

/-- What is left of a magnitude that may not be above one. -/
def atMostOne (c : Binary) : Binary :=
  if 1 < c.value then .one else c

section AtMostOne

variable {c : Binary}

theorem finite_atMostOne (hc : c.Finite) : (atMostOne c).Finite := by
  unfold atMostOne
  split
  · exact Binary.finite_one
  · exact hc

theorem value_atMostOne_le (c : Binary) : (atMostOne c).value ≤ 1 := by
  unfold atMostOne
  split
  · exact Binary.value_one.le
  · next h => exact not_lt.mp h

theorem atMostOne_of_le (hc : c.Canonical) (h : 1 ≤ c.value) : atMostOne c = .one := by
  unfold atMostOne
  split
  · rfl
  · next hnot =>
    have hvalue : c.value = 1 := le_antisymm (not_lt.mp hnot) h
    exact hc.eq_of_value_eq Binary.finite_one.toCanonical (hvalue.trans Binary.value_one.symm)

theorem takes_atMostOne {v : ℚ} (hc : c.Canonical) (htakes : c.Takes v) :
    (atMostOne c).Takes (min v 1) := by
  rcases le_total v 1 with hle | hle
  · have hmono := htakes.mono Binary.takes_one hc Binary.finite_one.toCanonical hle
    rw [Binary.value_one] at hmono
    rwa [atMostOne, if_neg hmono.not_gt, min_eq_left hle]
  · have hmono := Binary.takes_one.mono htakes Binary.finite_one.toCanonical hc hle
    rw [Binary.value_one] at hmono
    rw [atMostOne_of_le hc hmono, min_eq_right hle]
    exact Binary.takes_one

theorem double_atMostOne (hc : c.Finite) :
    double .positive (atMostOne c) = if 1.0 < double .positive c then 1.0
      else double .positive c := by
  rw [← double_one]
  simp only [atMostOne, double_lt_iff Binary.finite_one hc, Binary.value_one]
  split
  · rfl
  · rfl

theorem smaller_one (hc : c.Finite) :
    smaller (double .positive c) 1.0 = double .positive (atMostOne c) := by
  have hone : (1.0 : Float).isNaN = false := rfl
  rw [double_atMostOne hc, smaller, isNaN_double hc, hone, if_neg Bool.false_ne_true,
    if_neg Bool.false_ne_true]

end AtMostOne

/-- **What a signal says.** The number in flight and the capacity are words. -/
theorem tells_signal (m : LoadMonitor) (clock : Instant) (client : Option String)
    (hn : m.inFlight < UInt64.size) (hlimit : m.limits.capacity < UInt64.size) :
    (m.signal clock client).1.Tells m.capacity m.inFlight := by
  have hcapacity : m.capacity < UInt64.size := max_lt hlimit (by decide)
  obtain ⟨c, hc, hshare, hfull, hexact⟩ := exists_share hn hcapacity (le_max_right _ _)
  have hutilization : (m.signal clock client).1.utilization = double .positive (atMostOne c) := by
    rw [m.utilization_signal clock client, double_atMostOne hc, ← hshare]
    rfl
  have hexhausted := m.capacityExhausted_signal_iff clock client
  refine ⟨hexhausted, ?quotient, ?nearest, ?nonneg, ?le_one, ?full⟩
  case quotient => rw [hutilization, hshare, smaller_one hc]
  case nearest =>
    intro hn53 hcapacity53
    have hcut := finite_atMostOne hc
    exact ⟨_, hcut.toCanonical, takes_atMostOne hc.toCanonical (hexact hn53 hcapacity53),
      hutilization⟩
  case nonneg =>
    rw [hutilization, ← double_zero, double_le_iff finite_zero (finite_atMostOne hc),
      Binary.value_zero]
    exact Binary.value_nonneg _
  case le_one =>
    rw [hutilization, ← double_one, double_le_iff (finite_atMostOne hc) Binary.finite_one,
      Binary.value_one]
    exact value_atMostOne_le c
  case full =>
    intro h
    rw [hutilization, atMostOne_of_le hc.toCanonical (hfull (hexhausted.mp h).le), double_one]

/-! ## Guards -/

/-- A monitor with the guards that were begun. The flag of a guard is true until it is dropped. -/
structure Guards where
  monitor : LoadMonitor
  flags : List Bool := []

namespace Guards

/-- Guards are numbered in the order in which they are begun. -/
inductive Move where
  | enter
  | drop (i : ℕ)
  | signal (clock : Instant) (client : Option String)

/-- A monitor of which no guard is held. -/
def ofLimits (limits : LoadLimits) : Guards where
  monitor := .ofLimits limits

/-- What a move makes of the guards. One that is not held cannot be dropped. -/
def step (g : Guards) : Move → Guards
  | .enter => { monitor := g.monitor.enter, flags := g.flags ++ [true] }
  | .drop i =>
    if g.flags[i]? = some true then
      { monitor := g.monitor.leave, flags := g.flags.set i false } else g
  | .signal clock client => { g with monitor := (g.monitor.signal clock client).2 }

/-- What the guards of a monitor come to by a list of moves. -/
def run (g : Guards) (moves : List Move) : Guards :=
  moves.foldl step g

/-- The number of guards that are held. -/
def held (g : Guards) : ℕ :=
  g.flags.count true

/-- The monitor counts the guards that are held. -/
structure Counted (limits : LoadLimits) (g : Guards) : Prop where
  limits : g.monitor.limits = limits
  held : g.monitor.inFlight = g.held

variable {g : Guards} {limits : LoadLimits} {i : ℕ}

/-- Dropping a guard leaves one less. -/
theorem count_set_false {flags : List Bool} (h : flags[i]? = some true) :
    (flags.set i false).count true + 1 = flags.count true := by
  obtain ⟨hi, htrue⟩ := List.getElem?_eq_some_iff.mp h
  have hpos : 0 < flags.count true := List.count_pos_iff.mpr (htrue ▸ List.getElem_mem hi)
  rw [List.count_set hi, htrue]
  simp only [BEq.rfl, if_true, Bool.false_beq, Bool.not_true, Bool.false_eq_true, if_false]
  omega

/-- A move leaves the guards counted. -/
theorem counted_step (h : g.Counted limits) (move : Move) : (g.step move).Counted limits := by
  cases move with
  | enter =>
    refine ⟨h.limits, ?_⟩
    change g.monitor.inFlight + 1 = (g.flags ++ [true]).count true
    rw [List.count_append, List.count_singleton_self, h.held]
    rfl
  | drop i =>
    dsimp only [step]
    split
    · next hheld =>
      refine ⟨h.limits, ?_⟩
      have hcount := count_set_false hheld
      have hinFlight := h.held
      change g.monitor.inFlight - 1 = (g.flags.set i false).count true
      unfold held at hinFlight
      omega
    · exact h
  | signal clock client => exact ⟨by simp [step, h.limits], by simp [step, held, h.held]⟩

/-- Any moves leave the guards counted. -/
theorem counted_run (h : g.Counted limits) (moves : List Move) : (g.run moves).Counted limits := by
  induction moves generalizing g with
  | nil => exact h
  | cons move rest ih => exact ih (counted_step h move)

theorem run_append (g : Guards) (moves moves' : List Move) :
    g.run (moves ++ moves') = (g.run moves).run moves' :=
  List.foldl_append

theorem counted_ofLimits (limits : LoadLimits) : (ofLimits limits).Counted limits :=
  ⟨rfl, rfl⟩

/-- What holds between any two moves. -/
structure Exact (capacity : ℕ) (g : Guards) : Prop where
  held : g.monitor.inFlight = g.held
  /-- there is one to be taken off for each guard -/
  dropped : ∀ i, g.flags[i]? = some true →
    (g.step (.drop i)).monitor.inFlight + 1 = g.monitor.inFlight
  tells : ∀ clock client, g.held < UInt64.size →
    (g.monitor.signal clock client).1.Tells capacity g.held

theorem Counted.exact (h : g.Counted limits) (hlimits : limits.capacity < UInt64.size) :
    g.Exact (max limits.capacity 1) where
  held := h.held
  dropped := by
    intro i hheld
    have hafter := counted_step h (.drop i)
    rw [hafter.held, h.held, step, if_pos hheld]
    exact count_set_false hheld
  tells := by
    intro clock client hsize
    have htells :=
      tells_signal g.monitor clock client (h.held.symm ▸ hsize) (h.limits.symm ▸ hlimits)
    rwa [LoadMonitor.capacity, h.limits, h.held] at htells

end Guards

end Roster
