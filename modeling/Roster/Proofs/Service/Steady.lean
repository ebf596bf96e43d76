import Roster.Proofs.Service.Rounds
import Roster.Proofs.Sync.Callers

/-!
# Where an ask stands

An ask waits in the queue, is being served, has been answered by a cycle or has been turned away,
and each move takes it from one of these to the next (`Stands`). What makes the answers right is
said there, about one ask at a time: it is late exactly if a shutdown stands before it in the
queue, which is known from the moment on at which it is put there, and its cycle can only be one
that begins later.

`Steady` is the invariant of all orders in which things happen. That no cycle is refused is part of
it, as the cycle of the table is running exactly while the worker says so.
-/

namespace Roster.Rounds

variable {s : Rounds} {n : ℕ} {a : Ask} {result : CycleResult}

/-! ## Lists that get longer -/

section

variable {α : Type} {items : List α} {item last : α} {k : ℕ}

theorem getElem?_concat_of_some (h : items[k]? = some item) :
    (items ++ [last])[k]? = some item := by
  obtain ⟨hk, -⟩ := List.getElem?_eq_some_iff.mp h
  rw [List.getElem?_append_left hk, h]

theorem getElem?_concat_cases (h : (items ++ [last])[k]? = some item) :
    items[k]? = some item ∨ k = items.length ∧ last = item := by
  rcases Nat.lt_or_ge k items.length with hk | hk
  · rw [List.getElem?_append_left hk] at h
    exact .inl h
  · obtain ⟨hlt, hget⟩ := List.getElem?_eq_some_iff.mp h
    rw [List.length_append, List.length_singleton] at hlt
    obtain rfl : k = items.length := by omega
    exact .inr ⟨rfl, by simpa using hget⟩

end

/-! ## The invariant -/

/-- Where an ask stands. -/
inductive Stands (s : Rounds) (n : ℕ) (a : Ask) : Prop where
  | waits (before after : List Command) (queue : s.worker.queue = before ++ .refresh n :: after)
      (once : .refresh n ∉ before ∧ .refresh n ∉ after)
      (unserved : s.worker.activity ≠ .cycling (some n)) (late : a.late = true ↔ .shutdown ∈ before)
      (since : a.since ≤ s.begun) (untold : a.answers = [])
  | served (gone : .refresh n ∉ s.worker.queue) (serving : s.worker.activity = .cycling (some n))
      (early : a.late = false) (since : a.since ≤ s.ended.length) (untold : a.answers = [])
  | answered (gone : .refresh n ∉ s.worker.queue)
      (unserved : s.worker.activity ≠ .cycling (some n)) (k : ℕ) (result : CycleResult)
      (answer : a.answers = [(some k, result)])
      (ended : s.ended[k]? = some result) (since : a.since ≤ k) (early : a.late = false)
  | turnedAway (gone : .refresh n ∉ s.worker.queue)
      (unserved : s.worker.activity ≠ .cycling (some n))
      (answer : a.answers = [(none, .error .workerStopped)]) (late : a.late = true)

/-- Where an ask stands does not depend on what comes behind it in the queue. -/
theorem Stands.queued {s' : Rounds} {more : List Command} (h : s.Stands n a)
    (queue : s'.worker.queue = s.worker.queue ++ more) (other : .refresh n ∉ more)
    (activity : s'.worker.activity = s.worker.activity) (begun : s'.begun = s.begun)
    (ended : s'.ended = s.ended) :
    s'.Stands n a := by
  have hgone (gone : .refresh n ∉ s.worker.queue) : .refresh n ∉ s'.worker.queue := by
    rw [queue, List.mem_append]
    exact fun hmem => hmem.elim gone other
  cases h with
  | waits before after hqueue once unserved late since untold =>
    refine .waits before (after ++ more) (by rw [queue, hqueue]; simp) ⟨once.1, ?_⟩
      (activity ▸ unserved) late
      (begun ▸ since) untold
    rw [List.mem_append]
    exact fun hmem => hmem.elim once.2 other
  | served gone serving early since untold =>
    exact .served (hgone gone) (activity.trans serving) early (ended ▸ since) untold
  | answered gone unserved k result answer hended since early =>
    exact .answered (hgone gone) (activity ▸ unserved) k result answer (ended ▸ hended) since early
  | turnedAway gone unserved answer late =>
    exact .turnedAway (hgone gone) (activity ▸ unserved) answer late

/-- The worker runs a cycle, or it does not, and then all cycles that have begun have ended. -/
inductive Turn (s : Rounds) : Prop where
  | resting (free : ∀ caller, s.worker.activity ≠ .cycling caller)
      (idle : s.table.synchronizer.running = none) (even : s.begun = s.ended.length)
  | cycling {caller : Option ℕ} {phase : Phase} (busy : s.worker.activity = .cycling caller)
      (running : s.table.synchronizer.running = some phase) (odd : s.begun = s.ended.length + 1)

/-- The invariant of a service at work. -/
structure Steady (s : Rounds) : Prop where
  turn : s.Turn
  stands : ∀ n a, s.asks[n]? = some a → s.Stands n a
  /-- nobody is served who has not asked -/
  known : ∀ n, .refresh n ∈ s.worker.queue ∨ s.worker.activity = .cycling (some n) →
    n < s.asks.length
  closing : s.closing = true ↔ .shutdown ∈ s.worker.queue ∨ s.worker.activity = .stopped
  stopped : s.worker.activity = .stopped → s.worker.queue = []
  ready : s.worker.ready = s.ended.any Except.isOk
  unrefused : ∀ e, .error e ∈ s.ended → e ≠ .concurrent ∧ e ≠ .workerStopped
  counted : s.table.synchronizer.cycles = UInt64.ofNat s.begun
  reported : ∀ k report, s.ended[k]? = some (.ok report) →
    report.cycle = (UInt64.ofNat (k + 1)).toNat

/-- A service is steady when it starts. -/
theorem steady_start (backends : Backends) (timeout : Duration) :
    (start backends timeout).Steady where
  turn := .resting (fun _ => nofun) rfl rfl
  stands := nofun
  known := by simp [start]
  closing := by simp [start]
  stopped := nofun
  ready := rfl
  unrefused := nofun
  counted := rfl
  reported := nofun

/-- A worker that does not run a cycle has ended all it has begun. -/
theorem Steady.resting (h : s.Steady) (free : ∀ caller, s.worker.activity ≠ .cycling caller) :
    s.table.synchronizer.running = none ∧ s.begun = s.ended.length := by
  cases h.turn with
  | resting _ idle even => exact ⟨idle, even⟩
  | cycling busy => exact absurd busy (free _)

/-- A cycle begins: it is that of a tick, or of the refresh that stands first in the queue. -/
theorem Steady.begin (h : s.Steady) (waiting : s.worker.activity = .waiting) (caller : Option ℕ)
    {rest : List Command} (queue : s.worker.queue = (caller.map Command.refresh).toList ++ rest) :
    ({ s with worker := { s.worker with activity := .cycling caller, queue := rest } } :
      Rounds).begin.Steady := by
  obtain ⟨idle, even⟩ := h.resting fun caller => by simp [waiting]
  have hrest : ∀ c, c ∈ rest → c ∈ s.worker.queue := fun c hc => by simp [queue, hc]
  have hcaller : ∀ n, caller = some n → .refresh n ∈ s.worker.queue := by
    rintro n rfl
    simp [queue]
  simp only [Rounds.begin, RateTable.step, RateTable.call, idle]
  refine ⟨.cycling rfl rfl (congrArg (· + 1) even), fun n a ha => ?stands, ?known, ?closing,
    by simp, h.ready, h.unrefused, ?counted, h.reported⟩
  case stands =>
    cases h.stands n a ha with
    | waits before after hqueue once unserved late since untold =>
      rw [queue] at hqueue
      cases caller with
      | none =>
        exact .waits before after hqueue once (by simp) late (Nat.le_succ_of_le since) untold
      | some m =>
        cases before with
        | nil =>
          -- its turn has come
          obtain ⟨hm, rfl⟩ := List.cons.inj hqueue
          obtain rfl := Command.refresh.inj hm
          refine .served once.2 rfl ?_ (even ▸ since) untold
          simpa using late
        | cons first before =>
          obtain ⟨rfl, rfl⟩ := List.cons.inj hqueue
          have hne : m ≠ n := by
            rintro rfl
            exact once.1 List.mem_cons_self
          refine .waits before after rfl
            ⟨fun hmem => once.1 (List.mem_cons_of_mem _ hmem), once.2⟩ ?_ ?_
            (Nat.le_succ_of_le since) untold
          · simpa using hne
          · simpa using late
    | served _ serving =>
      rw [waiting] at serving
      cases serving
    | answered gone unserved k result answer ended since early =>
      exact .answered (fun hmem => gone (hrest _ hmem))
        (fun hn => gone (hcaller n (Activity.cycling.inj hn))) k result
        answer ended since early
    | turnedAway gone unserved answer late =>
      exact .turnedAway (fun hmem => gone (hrest _ hmem))
        (fun hn => gone (hcaller n (Activity.cycling.inj hn))) answer
        late
  case known =>
    intro n hn
    refine h.known n (.inl ?_)
    rcases hn with hmem | hserved
    · exact hrest _ hmem
    · exact hcaller n (Activity.cycling.inj hserved)
  case closing =>
    rw [h.closing, waiting, queue]
    cases caller <;> simp
  case counted =>
    change s.table.synchronizer.cycles + 1 = _
    rw [h.counted, UInt64.ofNat_add]
    rfl

/-- A cycle has come to a result, and whoever asked for it is told. -/
theorem Steady.report (h : s.Steady) {caller : Option ℕ} {table : RateTable}
    (busy : s.worker.activity = .cycling caller) (idle : table.synchronizer.running = none)
    (counted : table.synchronizer.cycles = s.table.synchronizer.cycles)
    (unrefused : ∀ e, result = .error e → e ≠ .concurrent ∧ e ≠ .workerStopped)
    (reported : ∀ report, result = .ok report → report.cycle = s.table.synchronizer.cycles.toNat) :
    ({ s with table } : Rounds).report result |>.Steady := by
  have odd : s.begun = s.ended.length + 1 := by
    cases h.turn with
    | resting free => exact absurd busy (free caller)
    | cycling _ _ odd => exact odd
  have hreport : ({ s with table } : Rounds).report result =
      { s with
        table
        worker := { s.worker with activity := .waiting, ready := s.worker.ready || result.isOk }
        asks := told (some s.ended.length) (caller.toList.map fun c => (c, result)) s.asks
        ended := s.ended ++ [result] } := by
    simp [Rounds.report, Worker.finished, busy]
  have hbusy (n : ℕ) : s.worker.activity = .cycling (some n) ↔ caller = some n := by simp [busy]
  have hsilent (n : ℕ) (hn : caller ≠ some n) :
      (told (some s.ended.length) (caller.toList.map fun c => (c, result)) s.asks)[n]? =
        s.asks[n]? := by
    refine told_of_silent ?_
    cases caller with
    | none => rfl
    | some c => simpa using hn
  rw [hreport]
  refine ⟨.resting (fun _ => nofun) idle ?even, fun n a ha => ?stands, ?known, ?closing, nofun,
    ?ready, ?unrefused, ?counted, ?reported⟩
  case even =>
    rw [List.length_append]
    exact odd
  case stands =>
    by_cases hn : caller = some n
    · obtain ⟨asked, hasked, rfl⟩ : ∃ asked, s.asks[n]? = some asked ∧
          { asked with answers := asked.answers ++ [(some s.ended.length, result)] } = a := by
        refine Option.map_eq_some_iff.mp (Eq.trans ?_ ha)
        rw [hn]
        exact (told_of_one (by simp)).symm
      cases h.stands n asked hasked with
      | served gone serving early since untold =>
        exact .answered gone nofun _ _ (by simp [untold]) List.getElem?_concat_length since early
      | waits _ _ _ _ unserved => exact absurd ((hbusy n).mpr hn) unserved
      | answered _ unserved => exact absurd ((hbusy n).mpr hn) unserved
      | turnedAway _ unserved => exact absurd ((hbusy n).mpr hn) unserved
    · change (told _ _ _)[n]? = _ at ha
      rw [hsilent n hn] at ha
      cases h.stands n a ha with
      | waits before after queue once unserved late since untold =>
        exact .waits before after queue once nofun late since untold
      | served _ serving => exact absurd ((hbusy n).mp serving) hn
      | answered gone unserved k result answer ended since early =>
        exact .answered gone nofun k result answer (getElem?_concat_of_some ended) since early
      | turnedAway gone unserved answer late => exact .turnedAway gone nofun answer late
  case known =>
    rintro n (hmem | hserved)
    · exact (length_told _ _ _).symm ▸ h.known n (.inl hmem)
    · cases hserved
  case closing => rw [h.closing, busy]; simp
  case ready =>
    rw [List.any_append, h.ready]
    simp
  case unrefused =>
    intro e he
    rcases List.mem_append.mp he with hbefore | hlast
    · exact h.unrefused e hbefore
    · exact unrefused e (List.mem_singleton.mp hlast).symm
  case counted => exact counted.trans h.counted
  case reported =>
    intro k report hk
    rcases getElem?_concat_cases hk with hbefore | ⟨rfl, hlast⟩
    · exact h.reported k report hbefore
    · rw [reported report hlast, h.counted, odd]

theorem goOn_of_none {e : Event} (h : (s.table.step e).1 = none) :
    s.goOn e = { s with table := (s.table.step e).2 } := by
  unfold goOn
  generalize s.table.step e = r at h ⊢
  obtain ⟨answer, t⟩ := r
  cases h
  rfl

theorem goOn_of_some {e : Event} (h : (s.table.step e).1 = some result) :
    s.goOn e = ({ s with table := (s.table.step e).2 } : Rounds).report result := by
  unfold goOn
  generalize s.table.step e = r at h ⊢
  obtain ⟨answer, t⟩ := r
  cases h
  rfl

/-- Something happens to the cycle that the worker runs. -/
theorem Steady.goOn (h : s.Steady) {caller : Option ℕ}
    (busy : s.worker.activity = .cycling caller) {e : Event} (hcall : e ≠ .call)
    (hdropped : ∀ onItsWay, e ≠ .dropped onItsWay) : (s.goOn e).Steady := by
  have hcycles := RateTable.cycles_step (t := s.table) hcall
  cases h.turn with
  | resting free => exact absurd busy (free caller)
  | @cycling _ phase _ running odd =>
    rcases RateTable.goesOn_or_ends running hcall hdropped with
      ⟨phase', hanswer, hrunning⟩ | ⟨result, hanswer, hidle, -⟩
    · rw [goOn_of_none hanswer]
      exact { h with
        turn := .cycling busy hrunning odd
        counted := hcycles.trans h.counted
        stands := fun n a ha =>
          (h.stands n a ha).queued (List.append_nil _).symm List.not_mem_nil rfl rfl rfl }
    · rw [goOn_of_some hanswer]
      refine h.report busy hidle hcycles ?_ ?_
      · rintro e rfl
        have hreason := RateTable.reason_of_error hcall hanswer
        constructor
        · rintro rfl
          simp [SyncError.reason] at hreason
        · rintro rfl
          simp [SyncError.reason] at hreason
      · rintro report rfl
        exact RateTable.cycle_of_report hanswer

/-! ### Commands -/

theorem send_of_active {w : Worker} (h : w.activity ≠ .stopped) (c : Command) :
    w.send c = ([], { w with queue := w.queue ++ [c] }) := by
  unfold Worker.send
  split
  · next hstopped => exact absurd hstopped h
  · rfl

theorem send_of_stopped {w : Worker} (h : w.activity = .stopped) (c : Command) :
    w.send c = (Worker.turnAway [c], w) := by
  simp [Worker.send, h]

/-- It is the worker and its cycle that decide whose turn it is. -/
theorem Turn.of_eq {s' : Rounds} (h : s.Turn) (activity : s'.worker.activity = s.worker.activity)
    (table : s'.table = s.table) (begun : s'.begun = s.begun) (ended : s'.ended = s.ended) :
    s'.Turn := by
  cases h with
  | resting free idle even =>
    exact .resting (by rwa [activity]) (by rwa [table]) (by rwa [begun, ended])
  | cycling busy running odd =>
    exact .cycling (activity.trans busy) (by rwa [table]) (by rwa [begun, ended])

/-- A refresh is asked for: the command is put into the queue, or turned away at once. -/
theorem Steady.refresh (h : s.Steady) : s.refresh.Steady := by
  have hnew :
      ¬ (.refresh s.asks.length ∈ s.worker.queue ∨
        s.worker.activity = .cycling (some s.asks.length)) :=
    fun hn => Nat.lt_irrefl _ (h.known _ hn)
  obtain ⟨hunqueued, hunserved⟩ := not_or.mp hnew
  by_cases hstopped : s.worker.activity = .stopped
  · have hrefresh : s.refresh =
        { s with
          asks := told none [(s.asks.length, .error .workerStopped)]
            (s.asks ++ [{ since := s.begun, late := s.closing }]) } := by
      simp [Rounds.refresh, send_of_stopped hstopped, Worker.turnAway]
    rw [hrefresh]
    refine { h with
      turn := h.turn.of_eq rfl rfl rfl rfl
      stands := fun n a ha => ?_
      known := fun n hn => ?_ }
    · change (told _ _ _)[n]? = _ at ha
      by_cases hn : s.asks.length = n
      · obtain rfl := hn
        rw [told_getElem?, List.getElem?_concat_length] at ha
        cases ha
        exact .turnedAway hunqueued hunserved (by simp) (h.closing.mpr (.inr hstopped))
      · rw [told_of_silent (by simpa using hn)] at ha
        rcases getElem?_concat_cases ha with ha | ⟨rfl, -⟩
        · exact (h.stands n a ha).queued (List.append_nil _).symm List.not_mem_nil rfl rfl rfl
        · exact absurd rfl hn
    · change n < (told _ _ _).length
      rw [length_told, List.length_append]
      exact Nat.lt_add_right 1 (h.known n hn)
  · have hrefresh : s.refresh =
        { s with
          worker := { s.worker with queue := s.worker.queue ++ [.refresh s.asks.length] }
          asks := s.asks ++ [{ since := s.begun, late := s.closing }] } := by
      simp [Rounds.refresh, send_of_active hstopped, told]
    rw [hrefresh]
    refine { h with
      turn := h.turn.of_eq rfl rfl rfl rfl, stands := fun n a ha => ?_, known := fun n hn => ?_
      closing := ?_, stopped := fun hstop => absurd hstop hstopped }
    · rcases getElem?_concat_cases ha with ha | ⟨rfl, rfl⟩
      · have hne : n ≠ s.asks.length := Nat.ne_of_lt (List.getElem?_eq_some_iff.mp ha).1
        exact (h.stands n a ha).queued rfl (by simpa using hne) rfl rfl rfl
      · -- it comes after a shutdown exactly if there is one in the queue
        refine .waits s.worker.queue [] rfl ⟨hunqueued, List.not_mem_nil⟩ hunserved ?_
          (Nat.le_refl _) rfl
        exact h.closing.trans (or_iff_left hstopped)
    · rw [List.length_append]
      rcases hn with hmem | hserved
      · rcases List.mem_append.mp hmem with hbefore | hlast
        · exact Nat.lt_add_right 1 (h.known n (.inl hbefore))
        · cases List.mem_singleton.mp hlast
          exact Nat.lt_succ_self _
      · exact Nat.lt_add_right 1 (h.known n (.inr hserved))
    · rw [h.closing]
      simp

theorem Steady.shutdown (h : s.Steady) : s.shutdown.Steady := by
  by_cases hstopped : s.worker.activity = .stopped
  · have hshutdown : s.shutdown = s := by
      have hclosing : s.closing = true := h.closing.mpr (.inr hstopped)
      simp [Rounds.shutdown, send_of_stopped hstopped, Worker.turnAway, told, ← hclosing]
    rw [hshutdown]
    exact h
  · have hshutdown : s.shutdown =
        { s with
          worker := { s.worker with queue := s.worker.queue ++ [.shutdown] }
          closing := true } := by
      simp [Rounds.shutdown, send_of_active hstopped, told]
    rw [hshutdown]
    refine { h with
      turn := h.turn.of_eq rfl rfl rfl rfl
      stands := fun n a ha => (h.stands n a ha).queued rfl (by simp) rfl rfl rfl
      known := fun n hn => h.known n (by simpa using hn)
      closing := by simp
      stopped := fun hstop => absurd hstop hstopped }

/-- The worker takes a command: a cycle begins, or the worker stops and turns
    everybody away who is left. -/
theorem Steady.take (h : s.Steady) (waiting : s.worker.activity = .waiting) : s.take.Steady := by
  have hunserved (caller : Option ℕ) : s.worker.activity ≠ .cycling caller := by
    rw [waiting]
    nofun
  unfold Rounds.take Worker.take
  cases hqueue : s.worker.queue with
  | nil =>
    simp only [waiting]
    exact h
  | cons first rest =>
    cases first with
    | refresh n => exact h.begin waiting (some n) hqueue
    | shutdown =>
      obtain ⟨idle, even⟩ := h.resting hunserved
      refine { h with
        turn := .resting (fun _ => nofun) idle even
        stands := fun n a ha => ?_
        known := fun n hn => ?_
        closing := ?_
        stopped := fun _ => rfl }
      · obtain ⟨asked, hasked, rfl⟩ : ∃ asked, s.asks[n]? = some asked ∧ _ = a :=
          Option.map_eq_some_iff.mp ((told_getElem? _ _ _ n).symm.trans ha)
        cases h.stands n asked hasked with
        | waits before after queue once unserved late since untold =>
          rw [hqueue] at queue
          cases before with
          | nil => cases queue
          | cons head before =>
            obtain ⟨rfl, rfl⟩ := List.cons.inj queue
            have hone := turnAway_of_once ⟨fun hmem => once.1 (List.mem_cons_of_mem _ hmem), once.2⟩
            exact .turnedAway List.not_mem_nil nofun (by simp [hone, untold])
              (late.mpr List.mem_cons_self)
        | served gone serving => exact absurd serving (hunserved _)
        | answered gone unserved k result answer ended since early =>
          have hnone := turnAway_of_not_mem fun hmem => gone (hqueue ▸ List.mem_cons_of_mem _ hmem)
          exact .answered List.not_mem_nil nofun k result (by simp [hnone, answer])
            ended since early
        | turnedAway gone unserved answer late =>
          have hnone := turnAway_of_not_mem fun hmem => gone (hqueue ▸ List.mem_cons_of_mem _ hmem)
          exact .turnedAway List.not_mem_nil nofun (by simp [hnone, answer]) late
      · rcases hn with hmem | hserved
        · cases hmem
        · cases hserved
      · rw [h.closing, hqueue]
        simp

/-- A move leaves a service steady. -/
theorem Steady.step (h : s.Steady) (m : Move) : (s.step m).Steady := by
  cases m with
  | tick =>
    simp only [Rounds.step]
    split
    · next waiting => exact h.begin waiting none rfl
    · exact h
  | take =>
    simp only [Rounds.step]
    split
    · next waiting => exact h.take waiting
    · exact h
  | refresh => exact h.refresh
  | shutdown => exact h.shutdown
  | cycle e =>
    simp only [Rounds.step]
    split
    · exact h
    · exact h
    · next busy hcall hdropped => exact h.goOn busy hcall hdropped
    · exact h

/-- Any moves leave a service steady. -/
theorem Steady.run (h : s.Steady) (moves : List Move) : (s.run moves).Steady := by
  induction moves generalizing s with
  | nil => exact h
  | cons m rest ih => exact ih (h.step m)

end Roster.Rounds
