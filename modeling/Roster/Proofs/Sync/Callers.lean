import Mathlib.Logic.Function.Basic
import Roster.Proofs.Sync.Transition

/-!
# Callers that overlap

A cycle is asked for by a worker at its ticks, by whoever wants a fresh table, and by anybody else,
so calls overlap as they like. `Calls` keeps count of any number of them: where each one stands, in
which order they got the permit and gave it back, and the one rate table under all of them. A move
is an event that comes from one of the calls, and a list of moves is an interleaving.

The permit is nowhere a thing of its own. It is taken while a cycle is running, and the program has
to see to it that this is so exactly as long as one call is inside. That is the invariant
(`Permit`), and there are only two cases of it because no event of a cycle ends it without an answer
(`goesOn_or_ends`). What an event of a cycle that is given up would do is not asked: every call here
runs to its return.
-/

namespace Roster

/-- The state that can be seen after a cycle came to a result, or before there was any. -/
def stateAfter : Option CycleResult → SyncState
  | none => .idle
  | some (.ok _) => .idle
  | some (.error _) => .failed

namespace RateTable

variable {t : RateTable} {e : Event}

/-- **A cycle that runs goes on running, or ends with an answer that can be seen in the state.** -/
theorem goesOn_or_ends {phase : Phase} (running : t.synchronizer.running = some phase)
    (hcall : e ≠ .call) (hdropped : ∀ onItsWay, e ≠ .dropped onItsWay) :
    (∃ phase', (t.step e).1 = none ∧ (t.step e).2.synchronizer.running = some phase') ∨
      ∃ result, (t.step e).1 = some result ∧ (t.step e).2.synchronizer.running = none ∧
        (t.step e).2.synchronizer.state = stateAfter (some result) := by
  have ends (s : Synchronizer) (result : CycleResult) :
      (s.finish result).state = stateAfter (some result) := by
    cases result <;> rfl
  have transition := transition_step t e
  generalize (t.step e).1 = answer, (t.step e).2 = t' at transition
  cases transition with
  | ignored => exact .inl ⟨phase, rfl, running⟩
  | refused => exact absurd rfl hcall
  | begun => exact absurd rfl hcall
  | notFetched => exact .inr ⟨_, rfl, rfl, ends _ _⟩
  | fetched => exact .inl ⟨_, rfl, rfl⟩
  | listed => exact .inl ⟨_, rfl, rfl⟩
  | advanced => exact .inl ⟨_, rfl, rfl⟩
  | concluded => exact .inr ⟨_, rfl, rfl, ends _ _⟩
  | expired => exact .inr ⟨_, rfl, rfl, ends _ _⟩
  | dropped => exact absurd rfl (hdropped _)

/-- Only a call counts a cycle. -/
theorem cycles_step (hcall : e ≠ .call) :
    (t.step e).2.synchronizer.cycles = t.synchronizer.cycles := by
  have transition := transition_step t e
  generalize (t.step e).1 = answer, (t.step e).2 = t' at transition
  cases transition with
  | begun => exact absurd rfl hcall
  | _ => rfl

/-- A report is about the cycle that was running. -/
theorem cycle_of_report {report : CycleReport} (h : (t.step e).1 = some (.ok report)) :
    report.cycle = t.synchronizer.cycles.toNat := by
  have transition := transition_step t e
  rw [h] at transition
  generalize (t.step e).2 = t' at transition
  generalize hanswer : some (Except.ok report : CycleResult) = answer at transition
  cases transition with
  | @concluded p p' =>
    rw [Option.some.injEq, Publication.result] at hanswer
    split at hanswer
    · cases hanswer
      rfl
    · cases hanswer
  | _ => cases hanswer

/-- A cycle that fails does so because of the source, of its deadline or of its publication. -/
theorem reason_of_error {error : SyncError} (hcall : e ≠ .call)
    (h : (t.step e).1 = some (.error error)) :
    error.reason = .fetch ∨ error.reason = .timeout ∨ error.reason = .partialPublish := by
  have transition := transition_step t e
  rw [h] at transition
  generalize (t.step e).2 = t' at transition
  generalize hanswer : some (Except.error error : CycleResult) = answer at transition
  cases transition with
  | refused => exact absurd rfl hcall
  | notFetched =>
    cases hanswer
    exact .inl rfl
  | expired =>
    cases hanswer
    exact .inr (.inl rfl)
  | @concluded p p' =>
    rw [Option.some.injEq, Publication.result] at hanswer
    split at hanswer
    · cases hanswer
    · cases hanswer
      exact .inr (.inr rfl)
  | _ => cases hanswer

end RateTable

/-! ## The calls -/

/-- Where a call stands. -/
inductive Standing where
  /-- it has not been made yet -/
  | ahead
  /-- it has the permit, and runs the cycle of a number -/
  | inside (number : UInt64)
  | returned (result : CycleResult)

/-- A table and everybody who calls for cycles of it. -/
structure Calls where
  table : RateTable
  /-- where each call stands; there is no end of them -/
  standing : ℕ → Standing
  /-- the calls that got the permit, in this order, with the numbers of their cycles -/
  begun : List (ℕ × UInt64) := []
  /-- the calls that gave it back, in this order, with what they returned -/
  ended : List (ℕ × CycleResult) := []

namespace Calls

/-- No call has been made yet of a synchronizer that is new. -/
def start (backends : Backends) (timeout : Duration) : Calls where
  table := { backends, synchronizer := { timeout } }
  standing := fun _ => .ahead

/-- A call is made: it gets the permit or comes back at once. -/
def enter (c : Calls) (i : ℕ) : Calls :=
  match c.table.step .call with
  | (some result, t) =>
    { c with table := t, standing := Function.update c.standing i (.returned result) }
  | (none, t) =>
    { c with
      table := t
      standing := Function.update c.standing i (.inside t.synchronizer.cycles)
      begun := c.begun ++ [(i, t.synchronizer.cycles)] }

/-- Something happens to the cycle that a call runs. -/
def goOn (c : Calls) (i : ℕ) (e : Event) : Calls :=
  match c.table.step e with
  | (some result, t) =>
    { c with
      table := t
      standing := Function.update c.standing i (.returned result)
      ended := c.ended ++ [(i, result)] }
  | (none, t) => { c with table := t }

/-- What an event does that comes from a call. Each call is made once, and is not given up. -/
def move (c : Calls) (i : ℕ) (e : Event) : Calls :=
  match c.standing i, e with
  | .ahead, .call => c.enter i
  | .inside _, .call => c
  | .inside _, .dropped _ => c
  | .inside _, e => c.goOn i e
  | _, _ => c

/-- What callers come to when they move in this order. -/
def run (c : Calls) (moves : List (ℕ × Event)) : Calls :=
  moves.foldl (fun c m => c.move m.1 m.2) c

/-- Nobody has the permit. -/
def Free (c : Calls) : Prop :=
  ∀ i number, c.standing i ≠ .inside number

/-! ## The permit -/

/-- Who has the permit, and what that means for the table and for the two lists. -/
inductive Permit (c : Calls) : Prop where
  | free (idle : c.table.synchronizer.running = none) (nobody : c.Free)
      (paired : c.ended.map Prod.fst = c.begun.map Prod.fst)
      (state : c.table.synchronizer.state = stateAfter (c.ended.getLast?.map Prod.snd))
  | held {phase : Phase} {i : ℕ} {number : UInt64} {before : List (ℕ × UInt64)}
      (running : c.table.synchronizer.running = some phase) (holder : c.standing i = .inside number)
      (alone : ∀ j n, c.standing j = .inside n → j = i) (begun : c.begun = before ++ [(i, number)])
      (paired : c.ended.map Prod.fst = before.map Prod.fst)

/-- The invariant of all interleavings. -/
structure Ordered (c : Calls) : Prop where
  permit : c.Permit
  counted : c.table.synchronizer.cycles = UInt64.ofNat c.begun.length
  numbered : c.begun.map Prod.snd = (List.range c.begun.length).map fun k => UInt64.ofNat (k + 1)
  returned : ∀ i result, (i, result) ∈ c.ended → c.standing i = .returned result
  reported : ∀ k i report, c.ended[k]? = some (i, .ok report) →
    report.cycle = (UInt64.ofNat (k + 1)).toNat

/-- The callers are in order when nobody has called. -/
theorem ordered_start (backends : Backends) (timeout : Duration) :
    (start backends timeout).Ordered where
  permit := .free rfl (fun _ _ => nofun) rfl rfl
  counted := rfl
  numbered := rfl
  returned := nofun
  reported := nofun

variable {c : Calls} {i : ℕ} {e : Event}

/-- A call that comes while another one is inside returns at once, and that is all. -/
theorem enter_of_running {phase : Phase} (running : c.table.synchronizer.running = some phase) :
    c.enter i =
      { c with standing := Function.update c.standing i (.returned (.error .concurrent)) } := by
  simp only [enter, RateTable.step, RateTable.call, running]

/-- A call that comes while nobody is inside gets the permit and the next number. -/
theorem enter_of_idle (idle : c.table.synchronizer.running = none) :
    c.enter i =
      { table := { c.table with synchronizer := c.table.synchronizer.begin }
        standing := Function.update c.standing i (.inside (c.table.synchronizer.cycles + 1))
        begun := c.begun ++ [(i, c.table.synchronizer.cycles + 1)]
        ended := c.ended } := by
  simp only [enter, RateTable.step, RateTable.call, idle]
  rfl

/-- Whoever is inside after a call has moved is that call, or was inside before. -/
theorem inside_of_update {standing : ℕ → Standing} {s : Standing} {j : ℕ} {number : UInt64}
    (h : Function.update standing i s j = .inside number) :
    j = i ∧ s = .inside number ∨ standing j = .inside number := by
  by_cases hji : j = i
  · rw [hji, Function.update_self] at h
    exact .inl ⟨hji, h⟩
  · rw [Function.update_of_ne hji] at h
    exact .inr h

/-- Where only one call is inside and returns, nobody is inside. -/
theorem not_inside_of_returned {standing : ℕ → Standing} {result : CycleResult}
    (alone : ∀ j n, standing j = .inside n → j = i) (j : ℕ) (number : UInt64) :
    Function.update standing i (.returned result) j ≠ .inside number := by
  intro hj
  by_cases hji : j = i
  · rw [hji, Function.update_self] at hj
    cases hj
  · rw [Function.update_of_ne hji] at hj
    exact hji (alone j number hj)

/-- What has been returned stays so, as nobody moves who has returned. -/
theorem Ordered.returned_of_update {s : Standing} {j : ℕ} {result : CycleResult} (h : c.Ordered)
    (hi : ∀ result, c.standing i ≠ .returned result) (hmem : (j, result) ∈ c.ended) :
    Function.update c.standing i s j = .returned result := by
  have hstanding := h.returned j result hmem
  have hne : j ≠ i := by
    intro hji
    rw [hji] at hstanding
    exact hi result hstanding
  rw [Function.update_of_ne hne]
  exact hstanding

theorem Ordered.enter (h : c.Ordered) (ahead : c.standing i = .ahead) : (c.enter i).Ordered := by
  have hi : ∀ result, c.standing i ≠ .returned result := by
    intro result hresult
    rw [ahead] at hresult
    cases hresult
  cases h.permit with
  | free idle nobody paired state =>
    rw [enter_of_idle idle]
    have hnumber : c.table.synchronizer.cycles + 1 = UInt64.ofNat (c.begun.length + 1) := by
      rw [h.counted, UInt64.ofNat_add]
      rfl
    refine ⟨?_, ?_, ?_, fun j result hmem => h.returned_of_update hi hmem, h.reported⟩
    · refine .held rfl (Function.update_self i _ _) ?_ rfl paired
      intro j n hj
      rcases inside_of_update hj with ⟨hji, -⟩ | hbefore
      · exact hji
      · exact absurd hbefore (nobody j n)
    · change c.table.synchronizer.cycles + 1 = _
      rw [hnumber, List.length_append, List.length_singleton]
    · change (c.begun ++ [_]).map Prod.snd = _
      rw [List.map_append, List.length_append, List.length_singleton, List.range_succ,
        List.map_append, h.numbered, List.map_singleton, List.map_singleton, hnumber]
  | @held phase holder number before running inside alone begun paired =>
    rw [enter_of_running running]
    have hother : holder ≠ i := by
      rintro rfl
      rw [ahead] at inside
      cases inside
    refine ⟨?_, h.counted, h.numbered,
      fun j result hmem => h.returned_of_update hi hmem, h.reported⟩
    refine .held running ((Function.update_of_ne hother _ _).trans inside) ?_ begun paired
    intro j n hj
    rcases inside_of_update hj with ⟨-, hreturned⟩ | hbefore
    · cases hreturned
    · exact alone j n hbefore

theorem goOn_of_none (h : (c.table.step e).1 = none) :
    c.goOn i e = { c with table := (c.table.step e).2 } := by
  unfold goOn
  generalize c.table.step e = r at h ⊢
  obtain ⟨answer, t⟩ := r
  cases h
  rfl

theorem goOn_of_some {result : CycleResult} (h : (c.table.step e).1 = some result) :
    c.goOn i e =
      { table := (c.table.step e).2
        standing := Function.update c.standing i (.returned result)
        begun := c.begun
        ended := c.ended ++ [(i, result)] } := by
  unfold goOn
  generalize c.table.step e = r at h ⊢
  obtain ⟨answer, t⟩ := r
  cases h
  rfl

/-- The cycle that ends is the last one that began, and its number is how many there are. -/
theorem Ordered.reported_end {before : List (ℕ × UInt64)} {number : UInt64} {result : CycleResult}
    (h : c.Ordered) (begun : c.begun = before ++ [(i, number)])
    (paired : c.ended.map Prod.fst = before.map Prod.fst)
    (hanswer : (c.table.step e).1 = some result) {k j : ℕ} {report : CycleReport}
    (hk : (c.ended ++ [(i, result)])[k]? = some (j, .ok report)) :
    report.cycle = (UInt64.ofNat (k + 1)).toNat := by
  rcases Nat.lt_or_ge k c.ended.length with hbefore | hlast
  · rw [List.getElem?_append_left hbefore] at hk
    exact h.reported k j report hk
  · have hlength : c.ended.length = before.length := by
      rw [← List.length_map Prod.fst, paired, List.length_map]
    rw [List.getElem?_append_right hlast, List.getElem?_singleton] at hk
    split at hk
    · next hzero =>
      cases hk
      rw [RateTable.cycle_of_report hanswer, h.counted, begun, List.length_append,
        List.length_singleton, ← hlength, show k = c.ended.length by omega]
    · cases hk

theorem Ordered.goOn {number : UInt64} (h : c.Ordered) (inside : c.standing i = .inside number)
    (hcall : e ≠ .call) (hdropped : ∀ onItsWay, e ≠ .dropped onItsWay) : (c.goOn i e).Ordered := by
  cases h.permit with
  | free idle nobody paired state => exact absurd inside (nobody i number)
  | @held phase holder number' before running hholder alone begun paired =>
    obtain rfl : i = holder := alone i number inside
    have hcounted := (RateTable.cycles_step (t := c.table) hcall).trans h.counted
    rcases RateTable.goesOn_or_ends running hcall hdropped with
      ⟨phase', hanswer, hrunning⟩ | ⟨result, hanswer, hidle, hstate⟩
    · rw [goOn_of_none hanswer]
      exact ⟨.held hrunning hholder alone begun paired, hcounted, h.numbered,
        h.returned, h.reported⟩
    · rw [goOn_of_some hanswer]
      refine ⟨?_, hcounted, h.numbered, ?_, fun k j report => h.reported_end begun paired hanswer⟩
      · have hpaired : (c.ended ++ [(i, result)]).map Prod.fst = c.begun.map Prod.fst := by
          rw [begun, List.map_append, List.map_append, paired]
          rfl
        refine .free hidle (not_inside_of_returned alone) hpaired ?_
        change _ = stateAfter ((c.ended ++ [(i, result)]).getLast?.map Prod.snd)
        rw [hstate, List.getLast?_concat]
        rfl
      · intro j result' hmem
        rcases List.mem_append.mp hmem with hbefore | hlast
        · refine h.returned_of_update ?_ hbefore
          intro result'' hresult
          rw [inside] at hresult
          cases hresult
        · cases List.mem_singleton.mp hlast
          exact Function.update_self i _ _

/-- A move of one caller leaves the callers in order. -/
theorem Ordered.move (h : c.Ordered) (i : ℕ) (e : Event) : (c.move i e).Ordered := by
  unfold Calls.move
  split
  · next ahead => exact h.enter ahead
  · exact h
  · exact h
  · next inside hcall hdropped => exact h.goOn inside hcall hdropped
  · exact h

/-- Any moves leave the callers in order. -/
theorem Ordered.run (h : c.Ordered) (moves : List (ℕ × Event)) : (c.run moves).Ordered := by
  induction moves generalizing c with
  | nil => exact h
  | cons m rest ih => exact ih (h.move m.1 m.2)

/-! ## What can be seen -/

/-- What callers can rely on, whatever the others do. -/
structure Exclusive (c : Calls) : Prop where
  /-- at most one call is inside -/
  alone : ∀ i j m n, c.standing i = .inside m → c.standing j = .inside n → i = j
  /-- a call that comes meanwhile is refused, and nothing else happens -/
  refused : ∀ i j n, c.standing i = .ahead → c.standing j = .inside n → c.move i .call =
    { c with standing := Function.update c.standing i (.returned (.error .concurrent)) }
  /-- a call that comes while nobody is inside gets in, with the next number -/
  admitted : ∀ i, c.standing i = .ahead → c.Free →
    (c.move i .call).standing i = .inside (UInt64.ofNat (c.begun.length + 1))
  /-- the cycles that begin have the numbers 1, 2, 3, … in this order, in 64 bits -/
  numbered : c.begun.map Prod.snd = (List.range c.begun.length).map fun k => UInt64.ofNat (k + 1)
  /-- whoever is inside runs the cycle that began last -/
  holder : ∀ i n, c.standing i = .inside n → c.begun.getLast? = some (i, n)
  /-- while nobody is inside, all that began have ended, in the same order -/
  paired : c.Free → c.ended.map Prod.fst = c.begun.map Prod.fst
  /-- what is said to be returned by a call is, and a report bears the number of its cycle -/
  returned : ∀ k i result, c.ended[k]? = some (i, result) → c.standing i = .returned result ∧
    ∀ report, result = .ok report → report.cycle = (UInt64.ofNat (k + 1)).toNat
  /-- while nobody is inside, the state tells what came of the cycle that ran last -/
  observed : c.Free → c.table.synchronizer.state = stateAfter (c.ended.getLast?.map Prod.snd)

theorem Ordered.exclusive (h : c.Ordered) : c.Exclusive := by
  have entered (i : ℕ) (ahead : c.standing i = .ahead) : c.move i .call = c.enter i := by
    simp only [Calls.move, ahead]
  have returned (k i : ℕ) (result : CycleResult) (hk : c.ended[k]? = some (i, result)) :
      c.standing i = .returned result ∧
        ∀ report, result = .ok report → report.cycle = (UInt64.ofNat (k + 1)).toNat := by
    refine ⟨h.returned i result (List.mem_of_getElem? hk), fun report hok => ?_⟩
    rw [hok] at hk
    exact h.reported k i report hk
  cases h.permit with
  | free idle nobody paired state =>
    refine ⟨?_, ?_, ?_, h.numbered, ?_, fun _ => paired, returned, fun _ => state⟩
    · intro i j m n hi hj
      exact absurd hi (nobody i m)
    · intro i j n ahead hj
      exact absurd hj (nobody j n)
    · intro i ahead _
      rw [entered i ahead, enter_of_idle idle, h.counted, UInt64.ofNat_add]
      exact Function.update_self i _ _
    · intro i n hi
      exact absurd hi (nobody i n)
  | @held phase holder number before running inside alone begun paired =>
    have taken : ¬ c.Free := fun free => free holder number inside
    refine ⟨?_, ?_, ?_, h.numbered, ?_, fun free => absurd free taken, returned,
      fun free => absurd free taken⟩
    · intro i j m n hi hj
      exact (alone i m hi).trans (alone j n hj).symm
    · intro i j n ahead hj
      rw [entered i ahead, enter_of_running running]
    · intro i ahead free
      exact absurd free taken
    · intro i n hi
      obtain rfl := alone i n hi
      rw [inside] at hi
      cases hi
      rw [begun, List.getLast?_concat]

/-- **Cycles exclude each other, however the calls for them overlap, and between them the state
    tells how the last one ended.** -/
theorem run_exclusive (backends : Backends) (timeout : Duration) (moves : List (ℕ × Event)) :
    ((start backends timeout).run moves).Exclusive :=
  ((ordered_start backends timeout).run moves).exclusive

end Calls

end Roster
