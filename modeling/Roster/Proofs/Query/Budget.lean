import Roster.Proofs.Query.Looks

/-!
# What a client may ask for

Every client has a counter of its own, which is opened by its first look at the load and lasts for a
window. A look of somebody else leaves it as it is (`countersOf_step`), so that it stands at the
number of the client's own looks, whatever goes on between them (`exact_of_counts`).

A window may open at any time of a server's life, also when an earlier one of the same client has
passed. Nothing is said of a client that looks again after its window, since it is then as if it
came for the first time.
-/

namespace Roster

open Assembler

/-! ## One counter for each client -/

/-- A window that was opened has not passed. -/
def LoadLimits.Lasts (limits : LoadLimits) (first clock : Instant) : Prop :=
  clock.nanos < first.nanos + limits.windowSeconds * nanosPerSecond

instance (limits : LoadLimits) (first clock : Instant) : Decidable (limits.Lasts first clock) :=
  inferInstanceAs (Decidable (_ < _))

/-- A time at which a client may look once more within a window. Its first look opens it. -/
def LoadLimits.Within (limits : LoadLimits) (first clock : Instant) : ℕ → Prop
  | 0 => clock = first
  | _ + 1 => limits.Lasts first clock

namespace LoadMonitor

variable {m m' : LoadMonitor} {clock first : Instant} {address : String}
  {client : Option String} {n : ℕ}

/-- The counters of a client. After its first request there is one. -/
def countersOf (m : LoadMonitor) (address : String) : List ClientCount :=
  m.clients.filter fun c => c.address = address

/-- The requests of a client that have been counted in its current window. -/
def used (m : LoadMonitor) (clock : Instant) (address : String) : ℕ :=
  ((m.countOf clock address).map fun c => c.count.toNat).getD 0

/-- The count of a client is the first one of its own that has not expired. -/
theorem countOf_eq (m : LoadMonitor) (clock : Instant) (address : String) :
    m.countOf clock address = (m.countersOf address).find? fun c => !m.expired clock c := by
  simp only [countOf, countersOf, List.find?_filter, Bool.decide_and, Bool.decide_eq_true]

theorem countOf_congr (hcounters : m'.countersOf address = m.countersOf address)
    (hlimits : m'.limits = m.limits) (clock : Instant) :
    m'.countOf clock address = m.countOf clock address := by
  have hexpired : m'.expired clock = m.expired clock := by
    unfold expired
    rw [hlimits]
  rw [countOf_eq, countOf_eq, hcounters, hexpired]

theorem expired_eq_false_iff {c : ClientCount} :
    m.expired clock c = false ↔ m.limits.Lasts c.opened clock := by
  rw [expired, decide_eq_false_iff_not, not_le]
  rfl

/-- What becomes of the counters: the client's own is put in front of those of the others. -/
theorem clients_signal (m : LoadMonitor) (clock : Instant) (address : String) :
    (m.signal clock (some address)).2.clients =
      ⟨address, ((m.countOf clock address).map ClientCount.opened).getD clock,
          m.requestsOf clock address⟩ ::
        m.clients.filter fun c => c.address ≠ address := by
  rw [signal, countRequest, requestsOf]
  cases hcount : m.countOf clock address with
  | none => rfl
  | some c =>
    have hfound := List.find?_some hcount
    simp only [Bool.and_eq_true, decide_eq_true_eq] at hfound
    rw [← hfound.1]
    rfl

/-- A request is counted in the client's own counter. -/
theorem countersOf_signal (m : LoadMonitor) (clock : Instant) (address : String) :
    (m.signal clock (some address)).2.countersOf address =
      [⟨address, ((m.countOf clock address).map ClientCount.opened).getD clock,
        m.requestsOf clock address⟩] := by
  rw [countersOf, clients_signal, List.filter_cons_of_pos (by simp), List.filter_filter]
  simp

/-- What is counted for one client is nothing to another. -/
theorem countersOf_signal_of_ne (m : LoadMonitor) (clock : Instant) (h : client ≠ some address) :
    (m.signal clock client).2.countersOf address = m.countersOf address := by
  cases client with
  | none => rfl
  | some other =>
    have hne : other ≠ address := fun heq => h (congrArg some heq)
    rw [countersOf, clients_signal, List.filter_cons_of_neg (by simpa using hne),
      List.filter_filter]
    refine List.filter_congr fun c _ => ?_
    by_cases hc : c.address = address
    · simp [hc, hne.symm]
    · simp [hc]

/-! ### A window -/

/-- The counter of a client whose window opened at a time stands at a number. Before that
    time there is none. -/
def Counts (m : LoadMonitor) (address : String) (first : Instant) : ℕ → Prop
  | 0 => m.countOf first address = none
  | n + 1 => m.countersOf address = [⟨address, first, UInt32.ofNat (n + 1)⟩]

theorem Counts.congr (h : m.Counts address first n)
    (hcounters : m'.countersOf address = m.countersOf address) (hlimits : m'.limits = m.limits) :
    m'.Counts address first n := by
  cases n with
  | zero => exact (countOf_congr hcounters hlimits first).trans h
  | succ n => exact hcounters.trans h

theorem countOf_of_counts (h : m.Counts address first (n + 1))
    (hlasts : m.limits.Lasts first clock) :
    m.countOf clock address = some ⟨address, first, UInt32.ofNat (n + 1)⟩ := by
  have hcurrent : m.expired clock ⟨address, first, UInt32.ofNat (n + 1)⟩ = false :=
    expired_eq_false_iff.mpr hlasts
  rw [countOf_eq, show m.countersOf address = _ from h,
    List.find?_cons_of_pos (by rw [hcurrent]; rfl)]

theorem used_of_counts (h : m.Counts address first (n + 1)) (hlasts : m.limits.Lasts first clock)
    (hn : n + 1 < UInt32.size) : m.used clock address = n + 1 := by
  rw [used, countOf_of_counts h hlasts]
  exact UInt32.toNat_ofNat_of_lt' hn

/-- The next request of a client is the next one that is counted. -/
theorem requestsOf_of_counts (h : m.Counts address first n)
    (hwithin : m.limits.Within first clock n) :
    m.requestsOf clock address = UInt32.ofNat (n + 1) := by
  cases n with
  | zero =>
    obtain rfl : clock = first := hwithin
    rw [requestsOf, show m.countOf clock address = none from h]
    rfl
  | succ n =>
    rw [requestsOf, countOf_of_counts h hwithin, UInt32.ofNat_add (n + 1)]
    rfl

/-- A further look within the window is counted. -/
theorem counts_signal (h : m.Counts address first n) (hwithin : m.limits.Within first clock n) :
    (m.signal clock (some address)).2.Counts address first (n + 1) := by
  have hopened : ((m.countOf clock address).map ClientCount.opened).getD clock = first := by
    cases n with
    | zero =>
      obtain rfl : clock = first := hwithin
      rw [show m.countOf clock address = none from h]
      rfl
    | succ n =>
      rw [countOf_of_counts h hwithin]
      rfl
  change (m.signal clock (some address)).2.countersOf address = _
  rw [countersOf_signal, hopened, requestsOf_of_counts h hwithin]

/-- The signal of a client's next request. -/
theorem clientRateExceeded_of_counts (h : m.Counts address first n)
    (hwithin : m.limits.Within first clock n) (hn : n + 1 < UInt32.size) :
    (m.signal clock (some address)).1.clientRateExceeded ↔ m.limits.clientRequests < n + 1 := by
  rw [clientRateExceeded_signal_iff]
  simp only [Option.some.injEq, exists_eq_left']
  rw [requestsOf_of_counts h hwithin, UInt32.toNat_ofNat_of_lt' hn]

end LoadMonitor

namespace Queries

variable {q : Queries} {move : Move} {moves rest : List Move} {n : ℕ} {r : Request}
  {first : Instant} {address : String}

/-! ## The looks of one client -/

/-- The looks that were counted as one client's. -/
def looksOf (q : Queries) (address : String) (moves : List Move) : List Look :=
  (q.looks moves).filter fun look => look.client = some address

/-- **Clients are apart.** Only a look of a client's own moves its counters. -/
theorem countersOf_step (h : ∀ look, q.look? move = some look → look.client ≠ some address) :
    (q.step move).assembler.load.countersOf address = q.assembler.load.countersOf address := by
  cases hlook : q.look? move with
  | none => exact congrArg _ (load_step_of_none hlook).1
  | some look =>
    rw [(load_step_of_look hlook).2]
    exact LoadMonitor.countersOf_signal_of_ne _ _ (h look hlook)

theorem looksOf_cons_of_look {look : Look} (h : q.look? move = some look)
    (hclient : look.client = some address) :
    q.looksOf address (move :: rest) = look :: (q.step move).looksOf address rest := by
  simp [looksOf, looks, h, hclient]

theorem looksOf_cons_of_other (h : ∀ look, q.look? move = some look → look.client ≠ some address) :
    q.looksOf address (move :: rest) = (q.step move).looksOf address rest := by
  cases hlook : q.look? move with
  | none => simp [looksOf, looks, hlook]
  | some look => simp [looksOf, looks, hlook, h look hlook]

/-- The looks of a client are counted one after another, whatever goes on between them. -/
theorem exact_of_counts {limits : LoadLimits} (moves : List Move)
    (hlimits : q.assembler.load.limits = limits) (h : q.assembler.load.Counts address first n)
    (hwithin : ∀ k look, (q.looksOf address moves)[k]? = some look →
      limits.Within first look.clock (n + k))
    (hfew : n + (q.looksOf address moves).length < UInt32.size) :
    (∀ k look, (q.looksOf address moves)[k]? = some look →
      (look.signal.clientRateExceeded ↔ limits.clientRequests < n + k + 1)) ∧
      (q.run moves).assembler.load.Counts address first (n + (q.looksOf address moves).length) := by
  induction moves generalizing q n with
  | nil => exact ⟨nofun, h⟩
  | cons move rest ih =>
    have hlimits' : (q.step move).assembler.load.limits = limits :=
      (limits_step q move).trans hlimits
    by_cases hown : ∃ look, q.look? move = some look ∧ look.client = some address
    · obtain ⟨look, hlook, hclient⟩ := hown
      obtain ⟨hsignal, hload⟩ := load_step_of_look hlook
      rw [hclient] at hsignal hload
      rw [looksOf_cons_of_look hlook hclient] at hwithin hfew ⊢
      rw [List.length_cons] at hfew ⊢
      have hnow : q.assembler.load.limits.Within first look.clock n := hlimits ▸ hwithin 0 look rfl
      have hcounts : (q.step move).assembler.load.Counts address first (n + 1) := by
        rw [hload]
        exact LoadMonitor.counts_signal h hnow
      have hrest (k : ℕ) (look' : Look)
          (hk : ((q.step move).looksOf address rest)[k]? = some look') :
          limits.Within first look'.clock (n + 1 + k) := by
        rw [Nat.add_right_comm]
        exact hwithin (k + 1) look' hk
      have hlater := ih hlimits' hcounts hrest (by omega)
      refine ⟨fun k look' hk => ?_, ?_⟩
      · cases k with
        | zero =>
          obtain rfl : look = look' := Option.some.inj hk
          rw [hsignal, ← hlimits]
          exact LoadMonitor.clientRateExceeded_of_counts h hnow (by omega)
        | succ k =>
          rw [hlater.1 k look' hk]
          omega
      · rw [Nat.add_comm _ 1, ← Nat.add_assoc]
        exact hlater.2
    · have hother : ∀ look, q.look? move = some look → look.client ≠ some address :=
        fun look hlook hclient => hown ⟨look, hlook, hclient⟩
      rw [looksOf_cons_of_other hother] at hwithin hfew ⊢
      exact ih hlimits' (h.congr (countersOf_step hother) (limits_step q move)) hwithin hfew

/-! ## The budget -/

/-- The first stage ends with an answer that the client comes too often exactly if the load says so,
    and does not say that the server is full. -/
theorem prepare_often_iff {a : Assembler} (now clock : Instant) (h : ¬ r.Faulty) :
    (∃ response, Call.prepared r now (a.prepare r now clock).1 = .answered response ∧
      Fails response 429 "client rate exceeded") ↔
      (a.load.signal clock r.client.address).1.clientRateExceeded ∧
        ¬ (a.load.signal clock r.client.address).1.capacityExhausted :=
  (prepare_throttled_iff now clock h .clientRateExceeded).trans Scheduler.throttleOf_eq_often_iff

/-- The looks of a client are all in one window, which the first of them opens. -/
structure InOneWindow (q : Queries) (address : String) (moves : List Move) : Prop where
  opens : ∀ first ∈ (q.looksOf address moves).head?,
    q.assembler.load.countOf first.clock address = none
  lasts : ∀ first ∈ (q.looksOf address moves).head?, ∀ look ∈ (q.looksOf address moves).tail,
    q.assembler.load.limits.Lasts first.clock look.clock
  /-- counters are words -/
  few : (q.looksOf address moves).length < UInt32.size

/-- What the budgets of clients are, whatever has been done already. -/
structure Budgeted (q : Queries) : Prop where
  /-- a client may look as often as the limit says, in whatever company -/
  exact : ∀ address moves, q.InOneWindow address moves →
    ∀ n look, (q.looksOf address moves)[n]? = some look →
      (look.signal.clientRateExceeded ↔ q.assembler.load.limits.clientRequests < n + 1)
  /-- what is used of a budget while the window lasts -/
  used : ∀ address moves, q.InOneWindow address moves →
    ∀ first ∈ (q.looksOf address moves).head?, ∀ clock,
      q.assembler.load.limits.Lasts first.clock clock →
      (q.run moves).assembler.load.used clock address = (q.looksOf address moves).length
  /-- nobody else has a part in it -/
  apart : ∀ address move, (∀ look, q.look? move = some look → look.client ≠ some address) →
    ∀ clock, (q.step move).assembler.load.countOf clock address =
      q.assembler.load.countOf clock address
  /-- a client without an address has no budget to keep to, and leaves those of all
      others as they are -/
  anonymous : ∀ move look, q.look? move = some look → look.client = none →
    ¬ look.signal.clientRateExceeded ∧
      (q.step move).assembler.load.clients = q.assembler.load.clients
  /-- a query that is not faulty looks -/
  looks : ∀ i r now clock, q.Reaches i r now → ∃ look, q.look? (.prepare i clock) = some look ∧
    look.query = i ∧ look.client = r.client.address ∧
    ((∃ response, (q.step (.prepare i clock)).calls[i]? = some (.answered response) ∧
      Fails response 429 "client rate exceeded") ↔
        look.signal.clientRateExceeded ∧ ¬ look.signal.capacityExhausted)
  /-- only an answer that the query is faulty costs nothing, and every other one
      costs as much as any -/
  costs : ∀ moves i r call response, (begun moves)[i]? = some r →
    (q.run moves).calls[q.calls.length + i]? = some call → call.response? = some response →
    q.countedAs (q.calls.length + i) moves =
      if response.status = 400 then [] else [r.client.address]

/-- Within one window each look is told whether it is one too many. -/
theorem InOneWindow.exact {look₀ : Look} (h : q.InOneWindow address moves)
    (hfirst : (q.looksOf address moves).head? = some look₀) :
    (∀ n look, (q.looksOf address moves)[n]? = some look →
      (look.signal.clientRateExceeded ↔ q.assembler.load.limits.clientRequests < n + 1)) ∧
      (q.run moves).assembler.load.Counts address look₀.clock (q.looksOf address moves).length := by
  have hopens : q.assembler.load.Counts address look₀.clock 0 := h.opens look₀ hfirst
  have hwithin (k : ℕ) (look : Look) (hlook : (q.looksOf address moves)[k]? = some look) :
      q.assembler.load.limits.Within look₀.clock look.clock (0 + k) := by
    rw [Nat.zero_add]
    cases k with
    | zero =>
      rw [← List.head?_eq_getElem?, hfirst] at hlook
      cases hlook
      rfl
    | succ k =>
      rw [← List.getElem?_tail] at hlook
      exact h.lasts look₀ hfirst look (List.mem_of_getElem? hlook)
  have hexact := exact_of_counts moves rfl hopens hwithin (by rw [Nat.zero_add]; exact h.few)
  simpa only [Nat.zero_add] using hexact

/-- **Budgets are exact, and each client has its own.** -/
theorem budgeted (q : Queries) : q.Budgeted where
  exact := by
    intro address moves h n look hlook
    have hlength : 0 < (q.looksOf address moves).length := by
      obtain ⟨hn, -⟩ := List.getElem?_eq_some_iff.mp hlook
      omega
    exact (h.exact (List.head?_eq_getElem? ▸ List.getElem?_eq_getElem hlength)).1 n look hlook
  used := by
    intro address moves h first hfirst clock hlasts
    have hcounts := (h.exact hfirst).2
    have hfew := h.few
    cases hlooks : q.looksOf address moves with
    | nil =>
      rw [hlooks] at hfirst
      cases hfirst
    | cons look later =>
      rw [hlooks, List.length_cons] at hcounts hfew
      refine LoadMonitor.used_of_counts hcounts ?_ hfew
      rwa [limits_run]
  apart := by
    intro address move h clock
    exact LoadMonitor.countOf_congr (countersOf_step h) (limits_step q move) clock
  anonymous := by
    intro move look hlook hclient
    obtain ⟨hsignal, hload⟩ := load_step_of_look hlook
    rw [hclient] at hsignal hload
    rw [hsignal, hload]
    exact ⟨Bool.false_ne_true, rfl⟩
  looks := by
    intro i r now clock hreaches
    refine ⟨_, look?_of_reaches hreaches, rfl, rfl, ?_⟩
    obtain ⟨hi, -⟩ := List.getElem?_eq_some_iff.mp hreaches.1
    rw [← prepare_often_iff now clock hreaches.2]
    simp only [step, hreaches.1, List.getElem?_set_self hi, Option.some.injEq]
  costs := by
    intro moves i r call response hbegun hcall hresponse
    obtain ⟨call', hcall', hlooked⟩ := looked_begun q moves hbegun
    obtain rfl : call = call' := Option.some.inj (hcall.symm.trans hcall')
    exact hlooked.eq_of_response hresponse

/-- A faulty query, one without an address, one of somebody else, and three of one client, which all
    look after the last has begun. -/
def mixedMoves : List Move :=
  let ask (policy : Option String) (client : Client) : Move :=
    .enter { service := "ndt", path := "/v2/query/ndt", policy, client } ⟨0⟩
  [ask (some "metro") { address := some "10.0.0.1" },
    ask none { address := some "10.0.0.1" }, ask none {}, ask none { address := some "10.0.0.2" },
    ask none { address := some "10.0.0.1" }, ask none { address := some "10.0.0.1" }] ++
    (List.range 6).map fun i => .prepare i ⟨i⟩

/-- Where two are allowed, the third of the client is the first that is over its budget. -/
theorem budgeted_mixedMoves :
    let q := ofLimits sample { clientRequests := 2 }
    q.InOneWindow "10.0.0.1" mixedMoves ∧
      (q.looksOf "10.0.0.1" mixedMoves).map Look.query = [1, 4, 5] ∧
      (∀ n look, (q.looksOf "10.0.0.1" mixedMoves)[n]? = some look →
        (look.signal.clientRateExceeded ↔ 2 < n + 1)) ∧
      q.countedAs 0 mixedMoves = [] ∧ q.countedAs 5 mixedMoves = [some "10.0.0.1"] := by
  intro q
  have hwindow : q.InOneWindow "10.0.0.1" mixedMoves := {
    opens := by decide +kernel
    lasts := by decide +kernel
    few := by decide +kernel }
  refine ⟨hwindow, by decide +kernel, (budgeted q).exact _ _ hwindow, ?_, by decide +kernel⟩
  decide +kernel

end Queries

end Roster
