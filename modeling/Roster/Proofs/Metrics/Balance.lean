import Roster.Proofs.Metrics.Traffic

/-!
# The ledger says what happened

Each component is compared with its own counters: the cycles with what they came to
(`CyclesCounted`), the lookups with the answers of the cache (`LookupsCounted`), the queries with
their answers (`QueriesCounted`). A move keeps one of these because the component counts what it
does, and the others because it counts nothing of theirs (`Counted.step`).

Not everything is counted at its end. A lookup is counted as soon as the cache has answered, before
the store has been asked, and nothing is taken back if the store fails or whoever waits for it gives
up; so the sum is about all lookups, those that are completed, those that failed and those that came
to nothing (`lookups_never_completed` has one of either kind). A query that the load forbids is
counted before its answer has been returned, so that sum is about the answers that were returned and
those that will be.
-/

namespace Roster

open Assembler

/-! ## Lookups -/

/-- Where a lookup is counted. -/
def Lookup.counter (lookup : Lookup) : Counter :=
  lookup.answer.counter

/-- A lookup has one of three fates. -/
theorem Lookup.fate (lookup : Lookup) :
    (if lookup.completed then 1 else 0) + (if lookup.failed then 1 else 0) +
      (if lookup.waiting then 1 else 0) = 1 := by
  obtain ⟨answer, result⟩ := lookup
  rcases result with _ | _ | _
  · rfl
  · rfl
  · rfl

/-- The counters of lookups. -/
def lookupCounters : Finset Counter :=
  {.cacheHit, .cacheMiss, .cacheFallback}

theorem Lookup.counter_mem (lookup : Lookup) : lookup.counter ∈ lookupCounters := by
  unfold Lookup.counter
  cases lookup.answer with
  | hit _ => exact (by decide : Counter.cacheHit ∈ lookupCounters)
  | miss => exact (by decide : Counter.cacheMiss ∈ lookupCounters)
  | failure => exact (by decide : Counter.cacheFallback ∈ lookupCounters)

/-- What the ledger says about lookups is what the cache answered. -/
def LookupsCounted (l : Ledger) (lookups : List Lookup) : Prop :=
  ∀ c ∈ lookupCounters, l.total c = (lookups.map Lookup.counter).count c

theorem writer_of_mem {c : Counter} (h : c ∈ lookupCounters) : c.writer = .reader := by
  simp only [lookupCounters, Finset.mem_insert, Finset.mem_singleton] at h
  rcases h with rfl | rfl | rfl
  · rfl
  · rfl
  · rfl

namespace LookupsCounted

variable {l l' : Ledger} {lookups : List Lookup}

theorem congr (h : LookupsCounted l lookups) (agree : Ledger.Agree .reader l l') :
    LookupsCounted l' lookups :=
  fun c hc => (agree.totals c (writer_of_mem hc)).trans (h c hc)

theorem answered (h : LookupsCounted l lookups) (lookup : Lookup) :
    LookupsCounted (l.count lookup.counter) (lookups ++ [lookup]) := by
  intro c hc
  rw [Ledger.total_count, h c hc, List.map_append, List.count_append, List.map_singleton,
    count_singleton_eq]

/-- What a lookup comes to is not counted. -/
theorem settled (h : LookupsCounted l lookups) (i : ℕ)
    (found : Except StoreError (Option ByteArray)) :
    LookupsCounted l (lookups.modify i (Lookup.settle found)) := by
  have hcounters : (lookups.modify i (Lookup.settle found)).map Lookup.counter =
      lookups.map Lookup.counter := by
    refine List.ext_getElem? fun j => ?_
    rw [List.getElem?_map, List.getElem?_map, List.getElem?_modify, Option.map_eq_map,
      Option.map_map]
    congr 1
    funext lookup
    dsimp only [Function.comp]
    split
    · rfl
    · rfl
  intro c hc
  rw [h c hc, hcounters]

end LookupsCounted

/-! ## Everything -/

namespace Traffic

variable {s : Traffic}

/-- The ledger is right about each of the components. -/
structure Counted (s : Traffic) : Prop where
  cycles : RateTable.CyclesCounted s.table.ledger s.returned
  lookups : LookupsCounted s.table.ledger s.lookups
  queries : QueriesCounted s.table.ledger s.queries.answers s.queries.complete

/-- Nothing is counted when nothing has happened. -/
theorem counted_start (backends : Backends) (timeout : Duration) (a : Assembler)
    (limits : LoadLimits) :
    (start backends timeout a limits).Counted where
  cycles := ⟨rfl, fun _ => rfl, nofun⟩
  lookups _ _ := rfl
  queries := ⟨rfl, fun _ => rfl, fun _ => rfl, fun _ => rfl, nofun⟩

/-- A move counts what it does, and nothing that another component does. -/
theorem Counted.step (h : s.Counted) (move : Move) : (s.step move).Counted := by
  cases move with
  | sync e =>
    exact ⟨h.cycles.step e, h.lookups.congr (RateTable.agree_step (w := .reader) nofun s.table e),
      h.queries.congr (RateTable.agree_step (w := .query) nofun s.table e)⟩
  | cache answer =>
    have other {w : Writer} (hw : w ≠ .reader) :
        Ledger.Agree w s.table.ledger (s.table.ledger.count answer.counter) :=
      Ledger.agree_add
        (fun heq => hw (heq.symm.trans (writer_of_mem (Lookup.counter_mem ⟨answer, none⟩)))) 1
    exact ⟨h.cycles.congr (other nofun), h.lookups.answered ⟨answer, answer.result?⟩,
      h.queries.congr (other nofun)⟩
  | store i found => exact ⟨h.cycles, h.lookups.settled i found, h.queries⟩
  | query move =>
    exact ⟨h.cycles.congr (Queries.agree_noted (w := .synchronizer) nofun s.queries move _),
      h.lookups.congr (Queries.agree_noted (w := .reader) nofun s.queries move _),
      h.queries.step move⟩

/-- Any moves leave everything counted. -/
theorem Counted.run (h : s.Counted) (moves : List Move) : (s.run moves).Counted := by
  induction moves generalizing s with
  | nil => exact h
  | cons move rest ih => exact ih (h.step move)

/-- The number of lookups that are completed. -/
def completed (s : Traffic) : ℕ :=
  s.lookups.countP Lookup.completed

/-- The number of lookups that failed at the store. -/
def failed (s : Traffic) : ℕ :=
  s.lookups.countP Lookup.failed

/-- All lookups are accounted for by these three numbers. -/
theorem length_lookups (s : Traffic) : s.lookups.length = s.completed + s.failed + s.waiting := by
  unfold completed failed waiting
  induction s.lookups with
  | nil => rfl
  | cons lookup rest ih =>
    have hfate := lookup.fate
    simp only [List.length_cons, List.countP_cons]
    omega

/-- What the ledger says of lookups, however the cache has answered them. -/
def countedLookups (s : Traffic) : ℕ :=
  s.table.ledger.total .cacheHit + s.table.ledger.total .cacheMiss +
    s.table.ledger.total .cacheFallback

/-- The ledger adds up. A sum over labels is the same whichever labels are taken, if those that can
    occur are among them. -/
structure Balanced (s : Traffic) : Prop where
  /-- the time of every cycle that returned is recorded -/
  durations : s.table.ledger.cycles = s.returned.length
  failures : ∀ labels, RateTable.cycleReasons ⊆ labels →
    ∑ reason ∈ labels, s.table.ledger.total (.failures reason) = s.returned.countP fun result =>
      !result.isOk
  failure : ∀ reason, s.table.ledger.total (.failures reason) =
    s.returned.countP fun result => RateTable.failure? result = some reason
  /-- lookups are counted before the store answers, and whether it does or not -/
  lookups : s.countedLookups = s.completed + s.failed + s.waiting
  /-- the time of every query that returned is recorded -/
  queries : s.table.ledger.queries = s.queries.answers.length
  classes : ∑ priority ∈ Priority.all.toFinset, s.table.ledger.total (.queries priority) =
    s.queries.answers.length
  ofClass : ∀ priority, s.table.ledger.total (.queries priority) =
    s.queries.answers.countP fun response => response.priority = priority
  errors : ∀ labels, problemStatuses ⊆ labels →
    ∑ status ∈ labels, s.table.ledger.total (.queryErrors status) =
      s.queries.answers.countP fun response => response.status ≠ 200
  error : ∀ status, s.table.ledger.total (.queryErrors status) =
    s.queries.answers.countP fun response => response.status ≠ 200 ∧ response.status = status
  /-- answers that the load forbids are counted when they are complete, returned or not -/
  throttled : ∀ reason, s.table.ledger.total (.throttled reason) =
    s.queries.answers.countP (Throttled reason) + s.queries.pending.countP (Throttled reason)
  /-- and when no query is under way, all of them are returned -/
  settled : (∀ call ∈ s.queries.calls, call.underWay = false) → s.queries.pending = []

theorem Counted.balanced (h : s.Counted) : s.Balanced where
  durations := h.cycles.ended
  failures labels hlabels := by
    rw [Finset.sum_congr rfl fun reason _ => h.cycles.failures reason,
      sum_count_eq_length fun reason hreason => hlabels (h.cycles.reasons reason hreason),
      List.length_filterMap_eq_countP]
    refine List.countP_congr fun result _ => ?_
    cases result with
    | ok _ => simp [RateTable.failure?, Except.isOk, Except.toBool]
    | error _ => simp [RateTable.failure?, Except.isOk, Except.toBool]
  failure reason := by
    rw [h.cycles.failures, List.count_filterMap]
    exact List.countP_congr fun result _ => by simp
  lookups := by
    have hlookups : ∑ c ∈ lookupCounters, s.table.ledger.total c = s.lookups.length := by
      rw [Finset.sum_congr rfl h.lookups, sum_count_eq_length, List.length_map]
      intro c hc
      obtain ⟨lookup, -, rfl⟩ := List.mem_map.mp hc
      exact lookup.counter_mem
    have hsum : ∑ c ∈ lookupCounters, s.table.ledger.total c = s.countedLookups := by
      simp [lookupCounters, countedLookups, Nat.add_assoc]
    rw [← hsum, hlookups, s.length_lookups]
  queries := h.queries.ended
  classes := by
    rw [Finset.sum_congr rfl fun priority _ => h.queries.classes priority, sum_count_eq_length,
      List.length_map]
    intro priority _
    cases priority <;> decide
  ofClass priority := by
    rw [h.queries.classes, List.count, List.countP_map]
    rfl
  errors labels hlabels := by
    have hstatuses : ∀ status ∈ s.queries.answers.filterMap Response.error?, status ∈ labels := by
      intro status hstatus
      obtain ⟨response, hresponse, herror⟩ := List.mem_filterMap.mp hstatus
      have formed := h.queries.formed response (s.queries.answers_subset hresponse)
      obtain ⟨hproblem, rfl⟩ := Response.error?_eq_some_iff.mp herror
      exact hlabels (formed.status hproblem)
    rw [Finset.sum_congr rfl fun status _ => h.queries.errors status, sum_count_eq_length hstatuses,
      List.length_filterMap_eq_countP]
    refine List.countP_congr fun response _ => ?_
    rw [Option.isSome_iff_exists, decide_eq_true_eq]
    simp [Response.error?_eq_some_iff]
  error status := by
    rw [h.queries.errors, List.count_filterMap]
    exact List.countP_congr fun response _ => by simp [Response.error?_eq_some_iff]
  throttled reason := by
    rw [h.queries.throttled, Queries.countP_complete]
  settled := Queries.pending_eq_nil

/-- **The ledger adds up in every run**, in whatever order cycles, readers and queries come and
    whatever becomes of them. A call that is refused while a cycle is running leaves everything as
    it is. The moves are what the programs do: from every state that a run comes to, a lookup does
    what some moves do, and is one lookup with the result that it brings; a query does what some
    moves do, and is one answer that is returned. -/
theorem run_balanced (backends : Backends) (timeout : Duration) (a : Assembler)
    (limits : LoadLimits) (moves : List Move) :
    let s := (start backends timeout a limits).run moves
    s.Balanced ∧
      (∀ phase, s.table.synchronizer.running = some phase →
        (s.table.step .call).1 = some (.error .concurrent) ∧ s.step (.sync .call) = s) ∧
      (∀ name moments,
        let looked := ((RateTable.amid.lookup name).run (s.table, moments)).run
        ∃ more answer, (s.run more).table = looked.2.1 ∧ (s.run more).queries = s.queries ∧
          (s.run more).lookups = s.lookups ++ [⟨answer, some looked.1⟩]) ∧
      ∀ r now clock moments,
        let ended :=
          ((assemble RateTable.amid s.queries.assembler r now clock).run (s.table, moments)).run
        ∃ more, (s.run more).table = ended.2.1 ∧ (s.run more).waiting = s.waiting ∧
          (s.run more).queries = ⟨ended.1.2, s.queries.calls ++ [.ended (some ended.1.1)]⟩ := by
  intro s
  refine ⟨((counted_start backends timeout a limits).run moves).balanced, fun phase running => ?_,
    fun name moments => exists_run_lookup name s moments, fun r now clock moments =>
      exists_run_assemble s r now clock moments⟩
  have hcall : s.table.step .call = (some (.error .concurrent), s.table) := by
    simp [RateTable.step, RateTable.call, running]
  rw [step, hcall]
  simp [RateTable.returned]

/-- A query is given up while it waits for the store, and everything has come to rest with a lookup
    that is counted and not completed. So it is when the store fails. -/
theorem lookups_never_completed :
    let s := start {} .zero Assembler.sample {}
    let givenUp := s.run [.query (.enter { service := "ndt", path := "/v2/query/ndt" } ⟨0⟩),
      .query (.prepare 0 ⟨0⟩), .cache .miss, .query (.leave 0)]
    let failed := s.run [.cache .miss, .store 0 (.error (.unavailable "busy"))]
    (givenUp.queries.calls = [.ended none] ∧ givenUp.countedLookups = 1 ∧ givenUp.completed = 0) ∧
      failed.countedLookups = 1 ∧ failed.completed = 0 :=
  ⟨⟨rfl, rfl, rfl⟩, rfl, rfl⟩

end Traffic

end Roster
