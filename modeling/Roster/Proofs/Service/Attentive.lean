import Roster.Proofs.Service.Steady

/-!
# Everybody is answered

What callers can rely on is of three kinds. What has happened is not undone (`Later`), and that
needs no invariant. What is told to a caller is right, and said once: that is read off `Stands`. And
nobody is forgotten: an ask without an answer stands in the queue or is being served, the queue is
served in its order (`Steady.gone_of_taken`), and a worker that is left to itself empties it
(`Steady.quiet`), as a cycle ends at its deadline if not before.
-/

namespace Roster.Rounds

variable {s : Rounds} {n : ℕ} {a : Ask} {result : CycleResult}

/-! ## What stays as it is -/

/-- What has happened has happened: no result, no answer and no readiness is taken back. -/
structure Later (s s' : Rounds) : Prop where
  ready : s.worker.ready = true → s'.worker.ready = true
  ended : s.ended <+: s'.ended
  asks : ∀ (n : ℕ) (a : Ask), s.asks[n]? = some a →
    ∃ more, s'.asks[n]? = some { a with answers := a.answers ++ more }

theorem later_of_eq {s' : Rounds} (ready : s'.worker.ready = s.worker.ready)
    (ended : s'.ended = s.ended) (asks : s'.asks = s.asks) : s.Later s' :=
  ⟨fun h => ready.trans h, ended ▸ List.prefix_refl _, fun n a ha => ⟨[], by simp [asks, ha]⟩⟩

theorem Later.refl (s : Rounds) : s.Later s :=
  later_of_eq rfl rfl rfl

theorem Later.trans {s s' s'' : Rounds} (h : s.Later s') (h' : s'.Later s'') : s.Later s'' := by
  refine ⟨h'.ready ∘ h.ready, h.ended.trans h'.ended, fun n a ha => ?_⟩
  obtain ⟨more, hmore⟩ := h.asks n a ha
  obtain ⟨more', hmore'⟩ := h'.asks n _ hmore
  exact ⟨more ++ more', by simpa using hmore'⟩

/-- Telling answers takes none back. -/
theorem later_told {worker : Worker} {ended : List CycleResult} {asks : List Ask} {begun : ℕ}
    {table : RateTable} {closing : Bool} (ready : s.worker.ready = true → worker.ready = true)
    (hended : s.ended <+: ended) (hasks : s.asks <+: asks) (cycle : Option ℕ) (answers : Answers) :
    s.Later { worker, table, asks := told cycle answers asks, begun, ended, closing } := by
  refine ⟨ready, hended, fun n a ha => ?_⟩
  obtain ⟨more, rfl⟩ := hasks
  have hn := (List.getElem?_eq_some_iff.mp ha).1
  exact ⟨_, by rw [told_getElem?, List.getElem?_append_left hn, ha]; rfl⟩

theorem ready_send (w : Worker) (c : Command) : (w.send c).2.ready = w.ready := by
  unfold Worker.send
  split <;> rfl

theorem ready_take (w : Worker) : w.take.2.ready = w.ready := by
  unfold Worker.take
  split <;> rfl

theorem ready_finished {w : Worker} (h : w.ready = true) (result : CycleResult) :
    (w.finished result).2.ready = true := by
  unfold Worker.finished
  split
  · simp [h]
  · exact h

theorem later_report (s : Rounds) (table : RateTable) (result : CycleResult) :
    s.Later (({ s with table } : Rounds).report result) :=
  later_told (fun hready => ready_finished hready result) (List.prefix_append _ _)
    (List.prefix_refl _) _ _

theorem later_begin (s : Rounds) : s.Later s.begin := by
  unfold begin
  split
  · exact later_report s _ _
  · exact later_of_eq rfl rfl rfl

/-- A move takes a service to a later one. -/
theorem later_step (s : Rounds) (m : Move) : s.Later (s.step m) := by
  cases m with
  | tick =>
    simp only [step]
    split
    · have hticked : s.Later { s with worker := s.worker.tick } := later_of_eq rfl rfl rfl
      exact hticked.trans (later_begin _)
    · exact .refl s
  | take =>
    simp only [step]
    split
    · have htaken :
          s.Later { s with worker := s.worker.take.2, asks := told none s.worker.take.1 s.asks } :=
        later_told (fun hready => (ready_take s.worker).trans hready) (List.prefix_refl _)
          (List.prefix_refl _) _ _
      simp only [take]
      split
      · exact htaken.trans (later_begin _)
      · exact htaken
    · exact .refl s
  | refresh =>
    exact later_told (fun hready => (ready_send s.worker _).trans hready) (List.prefix_refl _)
      (List.prefix_append _ _)
      _ _
  | shutdown =>
    exact later_told (fun hready => (ready_send s.worker _).trans hready) (List.prefix_refl _)
      (List.prefix_refl _) _ _
  | cycle e =>
    simp only [step]
    split
    · exact .refl s
    · exact .refl s
    · unfold goOn
      split
      · exact later_report s _ _
      · exact later_of_eq rfl rfl rfl
    · exact .refl s

/-- Any moves take a service to a later one. -/
theorem later_run (s : Rounds) (moves : List Move) : s.Later (s.run moves) := by
  induction moves generalizing s with
  | nil => exact .refl s
  | cons m rest ih => exact (later_step s m).trans (ih _)

/-- A worker that has stopped runs no cycle any more. -/
theorem stopped_step (h : s.worker.activity = .stopped) (m : Move) :
    (s.step m).worker.activity = .stopped ∧ (s.step m).begun = s.begun := by
  cases m with
  | tick => simp [step, h]
  | take => simp [step, h]
  | refresh => simp [step, refresh, send_of_stopped h, h]
  | shutdown => simp [step, shutdown, send_of_stopped h, h]
  | cycle e => simp [step, h]

/-- A service that has stopped stays so, and begins nothing any more. -/
theorem stopped_run (h : s.worker.activity = .stopped) (moves : List Move) :
    (s.run moves).worker.activity = .stopped ∧ (s.run moves).begun = s.begun := by
  induction moves generalizing s with
  | nil => exact ⟨h, rfl⟩
  | cons m rest ih =>
    obtain ⟨hactivity, hbegun⟩ := stopped_step h m
    obtain ⟨hactivity', hbegun'⟩ := ih hactivity
    exact ⟨hactivity', hbegun'.trans hbegun⟩

/-! ## The queue -/

theorem queue_report (s : Rounds) (table : RateTable) (result : CycleResult) :
    (({ s with table } : Rounds).report result).worker.queue = s.worker.queue := by
  simp only [report, Worker.finished]
  split <;> rfl

theorem queue_begin (s : Rounds) : s.begin.worker.queue = s.worker.queue := by
  unfold begin
  split
  · exact queue_report s _ _
  · rfl

theorem queue_goOn (s : Rounds) (e : Event) : (s.goOn e).worker.queue = s.worker.queue := by
  unfold goOn
  split
  · exact queue_report s _ _
  · rfl

/-- The worker is free to take a command, and does so. -/
def Takes (s : Rounds) (m : Move) : Prop :=
  m = .take ∧ s.worker.activity = .waiting

instance (s : Rounds) (m : Move) : Decidable (s.Takes m) :=
  match m with
  | .take => decidable_of_iff (s.worker.activity = .waiting) (by simp [Takes])
  | .tick | .refresh | .shutdown | .cycle _ => .isFalse (by simp [Takes])

/-- What is taken is taken from the front, or is a shutdown, and what comes is put to the end. -/
theorem queue_step_cases (s : Rounds) (m : Move) :
    (s.Takes m ∧ ((s.step m).worker.queue = s.worker.queue.tail ∨ (s.step m).worker.queue = [])) ∨
      ¬ s.Takes m ∧ ∃ more, (s.step m).worker.queue = s.worker.queue ++ more ∧
        ∀ n, .refresh n ∈ more → n = s.asks.length := by
  have unchanged :
      ∃ more, s.worker.queue = s.worker.queue ++ more ∧ ∀ n, .refresh n ∈ more →
        n = s.asks.length :=
    ⟨[], by simp, by simp⟩
  cases m with
  | tick =>
    refine .inr ⟨by simp [Takes], ?_⟩
    simp only [step]
    split
    · rw [queue_begin]
      exact unchanged
    · exact unchanged
  | take =>
    by_cases waiting : s.worker.activity = .waiting
    · refine .inl ⟨⟨rfl, waiting⟩, ?_⟩
      simp only [step, if_pos waiting, take, Worker.take]
      cases hqueue : s.worker.queue with
      | nil => simp [waiting, hqueue]
      | cons first rest =>
        cases first with
        | refresh n => exact .inl (queue_begin _)
        | shutdown => exact .inr rfl
    · refine .inr ⟨fun h => waiting h.2, ?_⟩
      simp only [step, if_neg waiting]
      exact unchanged
  | refresh =>
    refine .inr ⟨by simp [Takes], ?_⟩
    by_cases hstopped : s.worker.activity = .stopped
    · exact ⟨[], by simp [step, refresh, send_of_stopped hstopped], by simp⟩
    · exact ⟨[.refresh s.asks.length], by simp [step, refresh, send_of_active hstopped], by simp⟩
  | shutdown =>
    refine .inr ⟨by simp [Takes], ?_⟩
    by_cases hstopped : s.worker.activity = .stopped
    · exact ⟨[], by simp [step, shutdown, send_of_stopped hstopped], by simp⟩
    · exact ⟨[.shutdown], by simp [step, shutdown, send_of_active hstopped], by simp⟩
  | cycle e =>
    refine .inr ⟨by simp [Takes], ?_⟩
    simp only [step]
    split
    · exact unchanged
    · exact unchanged
    · rw [queue_goOn]
      exact unchanged
    · exact unchanged

/-- The number of commands that are taken in a run. -/
def taken (s : Rounds) : List Move → ℕ
  | [] => 0
  | m :: rest => (if s.Takes m then 1 else 0) + (s.step m).taken rest

theorem lt_length_step (asked : n < s.asks.length) (m : Move) : n < (s.step m).asks.length := by
  obtain ⟨more, hmore⟩ := (later_step s m).asks n _ (List.getElem?_eq_getElem asked)
  exact (List.getElem?_eq_some_iff.mp hmore).1

/-- Whoever has left the queue does not come back. -/
theorem gone_run (asked : n < s.asks.length) (gone : .refresh n ∉ s.worker.queue)
    (moves : List Move) :
    .refresh n ∉ (s.run moves).worker.queue := by
  induction moves generalizing s with
  | nil => exact gone
  | cons m rest ih =>
    refine ih (lt_length_step asked m) fun hmem => ?_
    rcases queue_step_cases s m with ⟨-, hqueue | hqueue⟩ | ⟨-, more, hqueue, hmore⟩
    · rw [hqueue] at hmem
      exact gone (List.mem_of_mem_tail hmem)
    · rw [hqueue] at hmem
      cases hmem
    · rw [hqueue, List.mem_append] at hmem
      exact hmem.elim gone fun hlast => absurd (hmore n hlast) (Nat.ne_of_lt asked)

/-- Nobody stands in the queue twice. -/
theorem Steady.once_of_queue (h : s.Steady) {before after : List Command}
    (asked : n < s.asks.length) (queue : s.worker.queue = before ++ .refresh n :: after) :
    .refresh n ∉ before ∧ .refresh n ∉ after := by
  have hmem : .refresh n ∈ s.worker.queue := by simp [queue]
  have hcount : s.worker.queue.count (.refresh n) = 1 := by
    cases h.stands n _ (List.getElem?_eq_getElem asked) with
    | waits before after queue once =>
      rw [queue, List.count_append, List.count_cons_self, List.count_eq_zero_of_not_mem once.1,
        List.count_eq_zero_of_not_mem once.2]
    | served gone => exact absurd hmem gone
    | answered gone => exact absurd hmem gone
    | turnedAway gone => exact absurd hmem gone
  rw [queue, List.count_append, List.count_cons_self] at hcount
  exact ⟨List.count_eq_zero.mp (by omega), List.count_eq_zero.mp (by omega)⟩

/-- **The queue is served in its order**: who stands in it has left it when as many commands have
    been taken as stood there up to this one. -/
theorem Steady.gone_of_taken (h : s.Steady) {before after : List Command}
    (asked : n < s.asks.length) (queue : s.worker.queue = before ++ .refresh n :: after)
    {moves : List Move} (enough : before.length < s.taken moves) :
    .refresh n ∉ (s.run moves).worker.queue := by
  induction moves generalizing s before after with
  | nil => exact absurd enough (Nat.not_lt_zero _)
  | cons m rest ih =>
    have asked' := lt_length_step asked m
    have hafter := (h.once_of_queue asked queue).2
    simp only [taken] at enough
    rcases queue_step_cases s m with ⟨takes, hqueue | hqueue⟩ | ⟨leaves, more, hqueue, -⟩
    · rw [queue] at hqueue
      rw [if_pos takes] at enough
      cases before with
      | nil => exact gone_run asked' (hqueue ▸ hafter) rest
      | cons first before =>
        exact ih (h.step m) asked' hqueue (by rw [List.length_cons] at enough; omega)
    · exact gone_run asked' (by simp [hqueue]) rest
    · rw [queue, List.append_assoc, List.cons_append] at hqueue
      rw [if_neg leaves, Nat.zero_add] at enough
      exact ih (h.step m) asked' hqueue enough

/-- The worker has nothing to do until the next tick or command. -/
def Quiet (s : Rounds) : Prop :=
  s.worker.activity = .stopped ∨ s.worker.activity = .waiting ∧ s.worker.queue = []

/-- When a service is quiet each call has one answer. -/
theorem Steady.answered_of_quiet (h : s.Steady) (quiet : s.Quiet) (ha : s.asks[n]? = some a) :
    ∃ answer, a.answers = [answer] := by
  have hgone : .refresh n ∉ s.worker.queue := by
    rcases quiet with hstopped | ⟨-, hqueue⟩
    · simp [h.stopped hstopped]
    · simp [hqueue]
  have hunserved : s.worker.activity ≠ .cycling (some n) := by
    rcases quiet with hactivity | ⟨hactivity, -⟩ <;> simp [hactivity]
  cases h.stands n a ha with
  | waits before after queue => exact absurd (by simp [queue]) hgone
  | served _ serving => exact absurd serving hunserved
  | answered _ _ k result answer => exact ⟨_, answer⟩
  | turnedAway _ _ answer => exact ⟨_, answer⟩

/-- What a worker does that is left to itself: each cycle ends at its deadline, and then the
    next command is taken. -/
def alone : ℕ → List Move
  | 0 => [.cycle (.expired none)]
  | n + 1 => .cycle (.expired none) :: .take :: alone n

/-- At its deadline a cycle ends. -/
theorem Steady.step_expired (h : s.Steady) :
    (s.step (.cycle (.expired none))).worker.queue = s.worker.queue ∧
      ∀ caller, (s.step (.cycle (.expired none))).worker.activity ≠ .cycling caller := by
  cases h.turn with
  | resting free =>
    have hsame : s.step (.cycle (.expired none)) = s := by
      simp only [Rounds.step]
      split
      · rfl
      · rfl
      · next busy _ _ => exact absurd busy (free _)
      · rfl
    rw [hsame]
    exact ⟨rfl, free⟩
  | @cycling caller phase busy running =>
    have hexpired : (s.table.step (.expired none)).1 =
        some (.error (.timeout s.table.synchronizer.timeout)) := by
      simp [RateTable.step, RateTable.expired, RateTable.land, running, RateTable.finish]
    have hstep : s.step (.cycle (.expired none)) = s.goOn (.expired none) := by
      simp [Rounds.step, busy]
    rw [hstep, goOn_of_some hexpired]
    simp [Rounds.report, Worker.finished, busy]

/-- **A worker that is left to itself empties its queue.** -/
theorem Steady.quiet (h : s.Steady) {k : ℕ} (enough : s.worker.queue.length ≤ k) :
    (s.run (alone k)).Quiet := by
  have h' := h.step (.cycle (.expired none))
  obtain ⟨hqueue, hfree⟩ := h.step_expired
  induction k generalizing s with
  | zero =>
    change (s.step (.cycle (.expired none))).Quiet
    cases hactivity : (s.step (.cycle (.expired none))).worker.activity with
    | waiting =>
      exact .inr ⟨hactivity, hqueue.trans (List.length_eq_zero_iff.mp (Nat.le_zero.mp enough))⟩
    | cycling caller => exact absurd hactivity (hfree caller)
    | stopped => exact .inl hactivity
  | succ k ih =>
    have h'' := h'.step .take
    refine ih h'' ?_ (h''.step _) h''.step_expired.1 h''.step_expired.2
    rcases queue_step_cases (s.step (.cycle (.expired none))) .take
      with ⟨-, htake | htake⟩ | ⟨leaves, -⟩
    · rw [htake, hqueue, List.length_tail]
      omega
    · rw [htake]
      exact Nat.zero_le _
    · -- the worker has stopped, and then nothing is left in the queue
      have hwaiting : (s.step (.cycle (.expired none))).worker.activity ≠ .waiting :=
        fun hw => leaves ⟨rfl, hw⟩
      have hempty : (s.step (.cycle (.expired none))).worker.queue = [] := by
        cases hactivity : (s.step (.cycle (.expired none))).worker.activity with
        | waiting => exact absurd hactivity hwaiting
        | cycling caller => exact absurd hactivity (hfree caller)
        | stopped => exact h'.stopped hactivity
      have hsame : (s.step (.cycle (.expired none))).step .take = s.step (.cycle (.expired none)) :=
        if_neg hwaiting
      rw [hsame, hempty]
      exact Nat.zero_le _

/-! ## What callers can rely on -/

/-- What can be said at any time about the cycles, the answers and the readiness of a service. -/
structure Attentive (s : Rounds) : Prop where
  /-- a cycle is running if the worker runs one, and all others that have begun have ended -/
  turn : s.Turn
  /-- none was refused because of another one -/
  unrefused : .error .concurrent ∉ s.ended
  /-- the reports bear the numbers of their cycles -/
  reported : ∀ k report, s.ended[k]? = some (.ok report) →
    report.cycle = (UInt64.ofNat (k + 1)).toNat
  /-- nobody is answered twice -/
  once : ∀ (n : ℕ) (a : Ask), s.asks[n]? = some a → a.answers.length ≤ 1
  /-- the answer is the result of a cycle that began after the command was sent -/
  fresh : ∀ (n : ℕ) (a : Ask) (k : ℕ) (result : CycleResult), s.asks[n]? = some a →
    (some k, result) ∈ a.answers → s.ended[k]? = some result ∧ a.since ≤ k ∧ a.late = false
  /-- or that the worker has stopped, exactly if a shutdown was sent before -/
  turnedAway : ∀ (n : ℕ) (a : Ask) (result : CycleResult), s.asks[n]? = some a →
    (none, result) ∈ a.answers →
    result = .error .workerStopped ∧ a.late = true
  /-- nobody is forgotten -/
  pending : ∀ (n : ℕ) (a : Ask), s.asks[n]? = some a → a.answers = [] →
    .refresh n ∈ s.worker.queue ∨ s.worker.activity = .cycling (some n)
  /-- whoever stands in the queue has left it when as many commands have been taken as stood
      there up to this one -/
  inOrder : ∀ (n : ℕ) (before after : List Command) (moves : List Move), n < s.asks.length →
    s.worker.queue = before ++ .refresh n :: after → before.length < s.taken moves →
    .refresh n ∉ (s.run moves).worker.queue
  /-- an answer is not taken back -/
  kept : ∀ (moves : List Move) (n : ℕ) (a : Ask), s.asks[n]? = some a →
    ∃ more, (s.run moves).asks[n]? = some { a with answers := a.answers ++ more }
  /-- and everybody gets one if the worker goes on -/
  answered : ∀ k, s.worker.queue.length ≤ k → ∀ (n : ℕ) (a : Ask), s.asks[n]? = some a →
    ∃ answer, (s.run (alone k)).asks[n]? = some { a with answers := [answer] }
  /-- a worker that takes a shutdown stops -/
  stops : ∀ rest, s.worker.activity = .waiting → s.worker.queue = .shutdown :: rest →
    (s.step .take).worker.activity = .stopped ∧ (s.step .take).begun = s.begun
  /-- and begins no cycle any more -/
  stopped : s.worker.activity = .stopped → ∀ moves,
    (s.run moves).worker.activity = .stopped ∧ (s.run moves).begun = s.begun
  /-- it is ready if a cycle has succeeded, and only then -/
  ready_iff : s.worker.ready = true ↔ ∃ report, .ok report ∈ s.ended
  /-- and stays so -/
  ready : s.worker.ready = true → ∀ moves, (s.run moves).worker.ready = true

theorem Steady.attentive (h : s.Steady) : s.Attentive where
  turn := h.turn
  unrefused hmem := (h.unrefused _ hmem).1 rfl
  reported := h.reported
  once n a ha := by
    cases h.stands n a ha with
    | waits _ _ _ _ _ _ _ untold => simp [untold]
    | served _ _ _ _ untold => simp [untold]
    | answered _ _ k result answer => simp [answer]
    | turnedAway _ _ answer => simp [answer]
  fresh n a k result ha hmem := by
    cases h.stands n a ha with
    | waits _ _ _ _ _ _ _ untold => simp [untold] at hmem
    | served _ _ _ _ untold => simp [untold] at hmem
    | answered _ _ k' result' answer ended since early =>
      rw [answer, List.mem_singleton] at hmem
      cases hmem
      exact ⟨ended, since, early⟩
    | turnedAway _ _ answer => simp [answer] at hmem
  turnedAway n a result ha hmem := by
    cases h.stands n a ha with
    | waits _ _ _ _ _ _ _ untold => simp [untold] at hmem
    | served _ _ _ _ untold => simp [untold] at hmem
    | answered _ _ k' result' answer => simp [answer] at hmem
    | turnedAway _ _ answer late =>
      rw [answer, List.mem_singleton] at hmem
      cases hmem
      exact ⟨rfl, late⟩
  pending n a ha hnone := by
    cases h.stands n a ha with
    | waits before after queue => exact .inl (by simp [queue])
    | served _ serving => exact .inr serving
    | answered _ _ k result answer => simp [answer] at hnone
    | turnedAway _ _ answer => simp [answer] at hnone
  inOrder n before after moves asked queue enough := h.gone_of_taken asked queue enough
  kept moves := (later_run s moves).asks
  answered k enough n a ha := by
    obtain ⟨more, hmore⟩ := (later_run s (alone k)).asks n a ha
    obtain ⟨answer, hanswer⟩ := (h.run _).answered_of_quiet (h.quiet enough) hmore
    exact ⟨answer, by rw [hmore, ← hanswer]⟩
  stops rest waiting queue := by
    simp [Rounds.step, Rounds.take, Worker.take, waiting, queue]
  stopped hstopped := stopped_run hstopped
  ready_iff := by
    rw [h.ready, List.any_eq_true]
    constructor
    · rintro ⟨result, hmem, hok⟩
      cases result with
      | error e => cases hok
      | ok report => exact ⟨report, hmem⟩
    · rintro ⟨report, hmem⟩
      exact ⟨_, hmem, rfl⟩
  ready hready moves := (later_run s moves).ready hready

/-- **Everybody who asks for a refresh is answered, with the result of a cycle that began later, or
    that the worker has stopped**, in whichever order ticks, refreshes, shutdowns and the events of
    the cycles come; and the service is ready from the first cycle on that succeeded. -/
theorem run_attentive (backends : Backends) (timeout : Duration) (moves : List Move) :
    ((start backends timeout).run moves).Attentive :=
  ((steady_start backends timeout).run moves).attentive

end Roster.Rounds
