import Roster.Proofs.Metrics
import Roster.Proofs.Sync.Callers

/-!
# Counting cycles

A cycle is counted when it returns, with the time it took and, if it has failed, under the reason. A
call that is refused because another cycle is running returns as well, and is not counted; so what
is compared with the ledger is what the running cycle comes to (`RateTable.returned`), and not what
a call is answered.
-/

namespace Roster.RateTable

/-- What the running cycle comes to with an event. The answer to a call that is refused is not among
    it, since no cycle was run for that call. -/
def returned (t : RateTable) : Event → List CycleResult
  | .call => []
  | e => (t.step e).1.toList

variable {t : RateTable} {l l' : Ledger} {results : List CycleResult}

/-- What a cycle came to is recorded when it returns. Before that an event may have
    counted rows or removals. -/
theorem ledger_step (t : RateTable) (e : Event) :
    ∃ l, (t.step e).2.ledger = (t.returned e).foldl recordEnd l ∧
      (l = t.ledger ∨ ∃ c n, (c = .rejectedRows ∨ c = .evictions) ∧ l = t.ledger.add c n) := by
  cases e with
  | call =>
    refine ⟨t.ledger, ?_, .inl rfl⟩
    dsimp only [step, returned, call]
    split
    · rfl
    · rfl
  | fetched answer =>
    dsimp only [step, returned, fetched]
    split
    · cases answer with
      | error error => exact ⟨t.ledger, rfl, .inl rfl⟩
      | ok rows => exact ⟨_, rfl, .inr ⟨_, _, .inl rfl, rfl⟩⟩
    · exact ⟨t.ledger, rfl, .inl rfl⟩
  | listed verdict =>
    refine ⟨t.ledger, ?_, .inl rfl⟩
    dsimp only [step, returned, listed]
    split
    · rfl
    · rfl
  | wrote time verdict =>
    dsimp only [step, returned, wrote]
    split
    · split
      · exact ⟨t.ledger, rfl, .inl rfl⟩
      · dsimp only [proceed]
        split
        · exact ⟨_, rfl, .inr ⟨_, _, .inr rfl, rfl⟩⟩
        · exact ⟨t.ledger, rfl, .inl rfl⟩
    · exact ⟨t.ledger, rfl, .inl rfl⟩
  | expired onItsWay =>
    have hland : (t.land onItsWay).ledger = t.ledger := by
      rcases t.land_cases onItsWay with h | ⟨p, time, w, -, -, h⟩
      · rw [h]
      · rw [h]
    refine ⟨t.ledger, ?_, .inl rfl⟩
    rw [← hland]
    dsimp only [step, returned, expired]
    split
    · rfl
    · rfl
  | dropped onItsWay =>
    refine ⟨t.ledger, ?_, .inl rfl⟩
    rcases t.land_cases onItsWay with h | ⟨p, time, w, -, -, h⟩
    · simp only [step, returned, dropped, h]
      rfl
    · simp only [step, returned, dropped, h]
      rfl

theorem agree_foldl {w : Writer} (hw : w ≠ .synchronizer) (results : List CycleResult)
    (l : Ledger) :
    Ledger.Agree w l (results.foldl recordEnd l) := by
  induction results generalizing l with
  | nil => exact .refl w l
  | cons result rest ih => exact (Ledger.agree_recordEnd hw result).trans (ih _)

theorem agree_step {w : Writer} (hw : w ≠ .synchronizer) (t : RateTable) (e : Event) :
    Ledger.Agree w t.ledger (t.step e).2.ledger := by
  obtain ⟨l, hledger, hl⟩ := ledger_step t e
  rw [hledger]
  refine .trans ?_ (agree_foldl hw _ l)
  rcases hl with rfl | ⟨c, n, hc, rfl⟩
  · exact .refl w t.ledger
  · refine Ledger.agree_add (fun heq => hw ?_) n
    rcases hc with rfl | rfl
    · exact heq.symm
    · exact heq.symm

/-- Why a cycle failed, if it did. -/
def failure? : CycleResult → Option FailureReason
  | .ok _ => none
  | .error e => some e.reason

/-- The reasons for which a cycle can fail. -/
def cycleReasons : Finset FailureReason :=
  {.fetch, .timeout, .partialPublish}

/-- What the ledger says about cycles is what they came to. -/
structure CyclesCounted (l : Ledger) (results : List CycleResult) : Prop where
  ended : l.cycles = results.length
  failures : ∀ reason, l.total (.failures reason) = (results.filterMap failure?).count reason
  reasons : ∀ reason ∈ results.filterMap failure?, reason ∈ cycleReasons

theorem CyclesCounted.congr (h : CyclesCounted l results)
    (agree : Ledger.Agree .synchronizer l l') :
    CyclesCounted l' results where
  ended := (agree.cycles rfl).trans h.ended
  failures reason := (agree.totals _ rfl).trans (h.failures reason)
  reasons := h.reasons

theorem total_recordEnd_failures (l : Ledger) (result : CycleResult) (reason : FailureReason) :
    (recordEnd l result).total (.failures reason) =
      l.total (.failures reason) + ([result].filterMap failure?).count reason := by
  cases result with
  | ok report => rfl
  | error e =>
    change _ = _ + [e.reason].count reason
    simp only [total_recordEnd_error, count_singleton_eq, Counter.failures.injEq]

/-- A cycle that ends is counted once. -/
theorem CyclesCounted.recordEnd (h : CyclesCounted l results) (result : CycleResult)
    (reasons : ∀ reason ∈ [result].filterMap failure?, reason ∈ cycleReasons) :
    CyclesCounted (recordEnd l result) (results ++ [result]) where
  ended := by
    rw [List.length_append, ← h.ended]
    cases result with
    | ok _ => rfl
    | error _ => rfl
  failures reason := by
    rw [total_recordEnd_failures, h.failures, List.filterMap_append, List.count_append]
  reasons := by
    rw [List.filterMap_append]
    intro reason hreason
    exact (List.mem_append.mp hreason).elim (h.reasons reason) (reasons reason)

theorem CyclesCounted.foldl (more : List CycleResult) (h : CyclesCounted l results)
    (reasons : ∀ reason ∈ more.filterMap failure?, reason ∈ cycleReasons) :
    CyclesCounted (more.foldl RateTable.recordEnd l) (results ++ more) := by
  induction more generalizing l results with
  | nil => simpa using h
  | cons result rest ih =>
    rw [← List.singleton_append, List.filterMap_append] at reasons
    have hresult :=
      h.recordEnd result fun reason hreason => reasons reason (List.mem_append_left _ hreason)
    have hrest := ih hresult fun reason hreason => reasons reason (List.mem_append_right _ hreason)
    simpa using hrest

/-- A cycle that was let in fails for one of three reasons. -/
theorem reasons_returned (t : RateTable) (e : Event) :
    ∀ reason ∈ (t.returned e).filterMap failure?, reason ∈ cycleReasons := by
  intro reason hreason
  obtain ⟨result, hresult, heq⟩ := List.mem_filterMap.mp hreason
  have hreturned : e ≠ .call ∧ (t.step e).1 = some result := by
    cases e with
    | call => simp [returned] at hresult
    | _ => exact ⟨nofun, by simpa [returned] using hresult⟩
  cases result with
  | ok report => cases heq
  | error error =>
    cases heq
    simpa [cycleReasons] using reason_of_error hreturned.1 hreturned.2

/-- **Each cycle that returns is counted once, and under its reason if it has failed.** -/
theorem CyclesCounted.step (h : CyclesCounted t.ledger results) (e : Event) :
    CyclesCounted (t.step e).2.ledger (results ++ t.returned e) := by
  obtain ⟨l, hledger, hl⟩ := ledger_step t e
  rw [hledger]
  refine CyclesCounted.foldl _ ?_ (reasons_returned t e)
  rcases hl with rfl | ⟨c, n, rfl | rfl, rfl⟩
  · exact h
  · exact ⟨h.ended, fun reason => by simpa using h.failures reason, h.reasons⟩
  · exact ⟨h.ended, fun reason => by simpa using h.failures reason, h.reasons⟩

end Roster.RateTable
