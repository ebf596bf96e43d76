import Roster.Proofs.Metrics
import Roster.Proofs.Sync.Republication
import Roster.Proofs.Table.Latest

/-!
# The account that a cycle gives

A cycle that comes to the end of its publication says how many entries were new, or which keys
failed, and all of this is counted in passing. What it is compared with here are the changes as they
were tried, one by one (`RateTable.attempts`): a key has failed if any change about it did, in
whichever backend. `Tallied` is what the account of a publication looks like between any two
changes, and `Tallied.advance` the one step; the induction over the changes is `ends_of_writing`.

It takes only that no two tasks are about one key, so that what is noted when a task is done stays
right while the others go on. That is why each key is listed once, and why the number of removals
that failed can be taken from the number of those that were to be done.
-/

namespace Roster

/-- A change that was tried, and whether it was reported as done. -/
structure Attempt where
  write : Write
  done : Bool

/-- Whether a change about a key has failed. -/
def failedAt (attempts : List Attempt) (key : String) : Bool :=
  attempts.any fun a => a.write.key = key && !a.done

theorem failedAt_concat (attempts : List Attempt) (w : Write) (ok : Bool) (key : String) :
    failedAt (attempts ++ [⟨w, ok⟩]) key = (failedAt attempts key || (w.key = key && !ok)) := by
  simp [failedAt]

theorem failedAt_concat_of_ne {attempts : List Attempt} {w : Write} {ok : Bool} {key : String}
    (h : w.key ≠ key) :
    failedAt (attempts ++ [⟨w, ok⟩]) key = failedAt attempts key := by
  simp [failedAt_concat, h]

/-! ## Publications -/

namespace Publication

variable {p : Publication} {cycle time : UInt64} {done rest : List Task} {task : Task}
  {w : Write} {ok : Bool} {attempts attempts' : List Attempt}

/-- The account of a publication is that of the changes that were tried for it, as
    far as it has come. -/
structure Tallied (p : Publication) (attempts : List Attempt) (done : List Task) : Prop where
  formed : p.Formed
  plan : p.whole = done ++ p.tasks
  failed : p.failed = (done.map Task.key).filter (failedAt attempts)
  notEvicted : p.notEvicted =
    ((done.filter Task.isEviction).map Task.key).filter (failedAt attempts)
  about : ∀ a ∈ attempts, a.write.key ∈ p.whole.map Task.key
  reached : ∀ task ∈ done, ∃ a ∈ attempts, a.write.key = task.key
  /-- the first of the tasks that are left may be half done -/
  half : ∀ h, p.half = some h → ∃ task rest, p.tasks = task :: rest ∧ h.write.key = task.key ∧
    failedAt attempts task.key = !h.stored
  untried : ∀ task rest, p.tasks = task :: rest → p.half = none → failedAt attempts task.key = false
  ahead : ∀ task ∈ p.tasks.tail, failedAt attempts task.key = false

/-- Nothing is tallied when a publication starts. -/
theorem tallied_start {snapshot : Snapshot} {rowsFetched rejected : Nat} {diff : Diff}
    (h : (start snapshot rowsFetched rejected diff).Formed) :
    (start snapshot rowsFetched rejected diff).Tallied [] [] where
  formed := h
  plan := rfl
  failed := rfl
  notEvicted := rfl
  about := nofun
  reached := nofun
  half := nofun
  untried _ _ _ _ := rfl
  ahead _ _ := rfl

/-- The key of a task that is left is that of no task that is done, and of no other one that is
    left. -/
theorem Tallied.key_ne (h : p.Tallied attempts done) (htasks : p.tasks = task :: rest) :
    (∀ t ∈ done, task.key ≠ t.key) ∧ ∀ t ∈ rest, task.key ≠ t.key := by
  have hnodup := nodup_whole h.formed
  rw [h.plan, htasks, List.map_append, List.map_cons, List.nodup_append, List.nodup_cons] at hnodup
  obtain ⟨-, ⟨hrest, -⟩, hdone⟩ := hnodup
  constructor
  · intro t ht heq
    exact hdone _ (List.mem_map_of_mem ht) _ List.mem_cons_self heq.symm
  · intro t ht heq
    exact hrest (heq ▸ List.mem_map_of_mem ht)

/-- What has been tried lately is about one task, so that the account of the others is as it was. -/
structure Follows (attempts attempts' : List Attempt) (task : Task) : Prop where
  other : ∀ key, task.key ≠ key → failedAt attempts' key = failedAt attempts key
  about : ∀ a ∈ attempts', a ∈ attempts ∨ a.write.key = task.key
  before : attempts ⊆ attempts'
  reached : ∃ a ∈ attempts', a.write.key = task.key

theorem follows_concat (attempts : List Attempt) (ok : Bool) (hkey : w.key = task.key) :
    Follows attempts (attempts ++ [⟨w, ok⟩]) task where
  other key hne := failedAt_concat_of_ne (by rwa [hkey])
  about a ha :=
    (List.mem_append.mp ha).imp_right fun hlast => by rw [List.mem_singleton.mp hlast, hkey]
  before := List.subset_append_left _ _
  reached := ⟨_, List.mem_append_right _ List.mem_cons_self, hkey⟩

theorem filter_isEviction_subset (tasks : List Task) : tasks.filter Task.isEviction ⊆ tasks :=
  fun _ ht => (List.mem_filter.mp ht).1

theorem Tallied.filter_keys (h : p.Tallied attempts done) (htasks : p.tasks = task :: rest)
    (follows : Follows attempts attempts' task) {tasks : List Task} (hsub : tasks ⊆ done) :
    (tasks.map Task.key).filter (failedAt attempts') =
      (tasks.map Task.key).filter (failedAt attempts) := by
  refine List.filter_congr fun key hkey => ?_
  obtain ⟨t, ht, rfl⟩ := List.mem_map.mp hkey
  exact follows.other t.key ((h.key_ne htasks).1 t (hsub ht))

theorem Tallied.about_of_follows (h : p.Tallied attempts done) (htasks : p.tasks = task :: rest)
    (follows : Follows attempts attempts' task) :
    ∀ a ∈ attempts', a.write.key ∈ p.whole.map Task.key := by
  intro a ha
  rcases follows.about a ha with hbefore | hkey
  · exact h.about a hbefore
  · rw [hkey, h.plan, htasks]
    exact List.mem_map_of_mem (List.mem_append_right _ List.mem_cons_self)

theorem Tallied.reached_of_follows (h : p.Tallied attempts done)
    (follows : Follows attempts attempts' task) :
    ∀ t ∈ done, ∃ a ∈ attempts', a.write.key = t.key := by
  intro t ht
  obtain ⟨a, ha, hkey⟩ := h.reached t ht
  exact ⟨a, follows.before ha, hkey⟩

/-- A task is done, and it is noted as failed exactly if a change for it has failed. -/
theorem Tallied.settle (h : p.Tallied attempts done) (htasks : p.tasks = task :: rest)
    (follows : Follows attempts attempts' task) (htask : failedAt attempts' task.key = !ok) :
    (p.settle ok).Tallied attempts' (done ++ [task]) := by
  have hahead : ∀ t ∈ rest, failedAt attempts' t.key = false := by
    intro t ht
    rw [follows.other t.key ((h.key_ne htasks).2 t ht)]
    exact h.ahead t (by rwa [htasks])
  have hfailed := h.filter_keys htasks follows (List.Subset.refl done)
  have hnotEvicted := h.filter_keys htasks follows (filter_isEviction_subset done)
  have hplan : p.whole = done ++ [task] ++ rest := by
    rw [h.plan, htasks, List.append_assoc, List.singleton_append]
  have hsettle : p.settle ok =
      { p with
        tasks := rest, half := none, failed := if ok then p.failed else p.failed ++ [task.key]
        notEvicted :=
          if task.isEviction && !ok then p.notEvicted ++ [task.key] else p.notEvicted } := by
    simp [Publication.settle, htasks]
  rw [hsettle]
  refine ⟨⟨h.formed.valid, h.formed.evict, h.formed.nodup⟩, hplan, ?failed, ?notEvicted,
    h.about_of_follows htasks follows, ?reached, by simp, ?untried, ?ahead⟩
  case failed =>
    rw [List.map_append, List.filter_append, hfailed, ← h.failed]
    cases ok with
    | true => simp [htask]
    | false => simp [htask]
  case notEvicted =>
    rw [List.filter_append, List.map_append, List.filter_append, hnotEvicted, ← h.notEvicted]
    cases hev : task.isEviction with
    | false => simp [hev]
    | true =>
      cases ok with
      | true => simp [hev, htask]
      | false => simp [hev, htask]
  case reached =>
    intro t ht
    rcases List.mem_append.mp ht with ht | ht
    · exact h.reached_of_follows follows t ht
    · rw [List.mem_singleton.mp ht]
      exact follows.reached
  case untried =>
    intro t more hrest _
    change rest = t :: more at hrest
    exact hahead t (by simp [hrest])
  case ahead => exact fun t ht => hahead t (List.mem_of_mem_tail ht)

/-- **Whatever becomes of the next change, the account stays right.** -/
theorem Tallied.advance (h : p.Tallied attempts done) (hw : p.next? cycle time = some w) :
    ∃ done', (p.advance w ok).Tallied (attempts ++ [⟨w, ok⟩]) done' := by
  unfold next? at hw
  split at hw
  · cases hw
  · next task rest half htasks hhalf =>
    -- the second half of a task: the task has failed if one of the halves has
    cases hw
    obtain ⟨_, _, htasks', hkey, hstored⟩ := h.half half hhalf
    obtain ⟨rfl, rfl⟩ := List.cons.inj (htasks.symm.trans htasks')
    rw [advance_of_some htasks hhalf]
    refine ⟨_, h.settle htasks (follows_concat attempts ok hkey) ?_⟩
    rw [failedAt_concat, hstored, hkey]
    simp
  · next task rest htasks hhalf =>
    cases hw
    have follows := follows_concat (w := task.storeWrite (p.manifest cycle time)) attempts ok
      Task.storeWrite_key
    have htask : failedAt (attempts ++ [⟨task.storeWrite (p.manifest cycle time), ok⟩]) task.key =
        !ok := by
      rw [failedAt_concat, h.untried task rest htasks hhalf]
      simp
    rw [advance_of_none htasks hhalf]
    split
    · -- the first half: nothing is noted yet
      refine ⟨done, ⟨h.formed.valid, h.formed.evict, h.formed.nodup⟩, h.plan, ?failed, ?notEvicted,
        h.about_of_follows htasks follows, h.reached_of_follows follows, ?half,
        fun _ _ _ => nofun, ?ahead⟩
      case failed => rw [h.filter_keys htasks follows (List.Subset.refl done), ← h.failed]
      case notEvicted =>
        rw [h.filter_keys htasks follows (filter_isEviction_subset done), ← h.notEvicted]
      case half =>
        rintro half heq
        cases heq
        exact ⟨task, rest, htasks, by simp, htask⟩
      case ahead =>
        intro t ht
        rw [follows.other t.key ((h.key_ne htasks).2 t (by simpa [htasks] using ht))]
        exact h.ahead t ht
    · next hnot =>
      -- an entry or a manifest that the store did not take
      cases ok with
      | true => exact absurd rfl hnot
      | false => exact ⟨_, h.settle htasks follows htask⟩

/-- When all tasks are done, the failures are the keys of the plan that have failed, in its order,
    and the keys that were not removed are those of the removals. -/
theorem Tallied.of_done (h : p.Tallied attempts done) (left : p.tasks = []) :
    p.failed = (p.snapshot.names ++ Manifest.name :: p.diff.evict).filter (failedAt attempts) ∧
      p.notEvicted = p.diff.evict.filter (failedAt attempts) := by
  have hdone : done = p.whole := by
    rw [h.plan, left, List.append_nil]
  have hevict : (p.whole.filter Task.isEviction).map Task.key = p.diff.evict := by
    have hentries : (p.snapshot.entries.map Task.entry).filter Task.isEviction = [] :=
      List.filter_eq_nil_iff.mpr fun t ht => by
        obtain ⟨e, -, rfl⟩ := List.mem_map.mp ht
        exact Bool.false_ne_true
    have hremovals : (p.diff.evict.map Task.evict).filter Task.isEviction =
        p.diff.evict.map Task.evict :=
      List.filter_eq_self.mpr fun t ht => by
        obtain ⟨key, -, rfl⟩ := List.mem_map.mp ht
        rfl
    unfold whole Publication.plan
    rw [List.filter_append, hentries, List.filter_cons_of_neg Bool.false_ne_true, hremovals,
      List.nil_append, List.map_map]
    exact List.map_id _
  rw [h.failed, h.notEvicted, hdone, hevict, keys_whole]
  exact ⟨rfl, rfl⟩

/-- Something is among the failures exactly if some change has failed. -/
theorem Tallied.failed_eq_nil_iff (h : p.Tallied attempts done) (left : p.tasks = []) :
    p.failed = [] ↔ ∀ a ∈ attempts, a.done := by
  rw [(h.of_done left).1, List.filter_eq_nil_iff, ← keys_whole]
  constructor
  · intro hnone a ha
    by_contra hdone
    refine hnone a.write.key (h.about a ha) (List.any_eq_true.mpr ⟨a, ha, ?_⟩)
    simpa using hdone
  · intro hdone key _ hfailed
    obtain ⟨a, ha, hfails⟩ := List.any_eq_true.mp hfailed
    simp [hdone a ha] at hfails

/-- The removals that have failed are some of those that were to be done, so the number of the
    others is what is left when they are taken off. -/
theorem Tallied.evicted_add (h : p.Tallied attempts done) (left : p.tasks = []) :
    p.evicted + p.notEvicted.length = p.diff.evict.length := by
  rw [evicted, Nat.sub_add_cancel]
  rw [(h.of_done left).2]
  exact List.length_filter_le _ _

/-- Where nothing has failed, everything that was to be removed has been. -/
theorem Tallied.evicted_of_unfailed (h : p.Tallied attempts done) (left : p.tasks = [])
    (hu : p.failed = []) :
    p.evicted = p.diff.evict.length := by
  obtain ⟨hfailed, hnotEvicted⟩ := h.of_done left
  have hnone : p.diff.evict.filter (failedAt attempts) = [] := by
    rw [hu, eq_comm, List.filter_append] at hfailed
    exact List.filter_eq_nil_iff.mpr fun key hkey =>
      List.filter_eq_nil_iff.mp (List.append_eq_nil_iff.mp hfailed).2 key
        (List.mem_cons_of_mem _ hkey)
  rw [evicted, hnotEvicted, hnone]
  rfl

/-- The keys of the plan are those about which a change has been tried. -/
theorem Tallied.mem_whole_iff (h : p.Tallied attempts done) (left : p.tasks = []) (key : String) :
    key ∈ p.whole.map Task.key ↔ ∃ a ∈ attempts, a.write.key = key := by
  constructor
  · intro hkey
    rw [h.plan, left, List.append_nil] at hkey
    obtain ⟨task, ht, rfl⟩ := List.mem_map.mp hkey
    exact h.reached task ht
  · rintro ⟨a, ha, rfl⟩
    exact h.about a ha

/-- Each entry, the manifest and each eviction is attempted. -/
theorem attempted_eq (p : Publication) :
    p.attempted = p.snapshot.size + 1 + p.diff.evict.length := by
  simp [attempted, Publication.plan, Snapshot.size, Nat.add_assoc, Nat.add_comm 1]

/-- A publication fails if and only if a task has failed, and names all that have. -/
theorem result_eq_error_iff {e : SyncError} :
    p.result cycle = .error e ↔ p.failed ≠ [] ∧ e = .partialPublish p.failed p.attempted := by
  unfold result
  cases p.failed with
  | nil => simp
  | cons key rest => simp [eq_comm]

/-- What a publication is about is the same from its beginning to its end. -/
structure SameCycle (p p' : Publication) : Prop where
  snapshot : p'.snapshot = p.snapshot
  diff : p'.diff = p.diff
  rowsFetched : p'.rowsFetched = p.rowsFetched
  rejected : p'.rejected = p.rejected

theorem SameCycle.refl (p : Publication) : SameCycle p p :=
  ⟨rfl, rfl, rfl, rfl⟩

theorem SameCycle.trans {p p' p'' : Publication} (h : SameCycle p p') (h' : SameCycle p' p'') :
    SameCycle p p'' :=
  ⟨h'.snapshot.trans h.snapshot, h'.diff.trans h.diff, h'.rowsFetched.trans h.rowsFetched,
    h'.rejected.trans h.rejected⟩

theorem sameCycle_settle (p : Publication) (ok : Bool) : SameCycle p (p.settle ok) := by
  unfold Publication.settle
  split
  · exact .refl p
  · exact ⟨rfl, rfl, rfl, rfl⟩

theorem sameCycle_advance (p : Publication) (w : Write) (ok : Bool) :
    SameCycle p (p.advance w ok) := by
  unfold Publication.advance
  split
  · exact .refl p
  · exact sameCycle_settle p _
  · split
    · exact ⟨rfl, rfl, rfl, rfl⟩
    · exact sameCycle_settle p false

/-- Every change brings a publication nearer to its end. -/
theorem halvesLeft_advance_lt (left : p.tasks ≠ []) (w : Write) (ok : Bool) :
    (p.advance w ok).halvesLeft < p.halvesLeft := by
  obtain ⟨task, rest, htasks⟩ := List.exists_cons_of_ne_nil left
  have settled (ok : Bool) : (p.settle ok).halvesLeft = 2 * rest.length := by
    simp [Publication.settle, htasks, halvesLeft]
  cases hhalf : p.half with
  | none =>
    rw [advance_of_none htasks hhalf]
    split
    · simp [halvesLeft, htasks, hhalf]
    · rw [settled]
      simp [halvesLeft, htasks, hhalf]
  | some half =>
    rw [advance_of_some htasks hhalf, settled]
    simp [halvesLeft, htasks, hhalf]
    omega

end Publication

/-! ## Comparisons and rows -/

/-- Every entry of a snapshot is new, changed or unchanged. -/
theorem Diff.count_add_count_add_count (published snapshot : Snapshot) :
    count published snapshot .new + count published snapshot .changed +
      count published snapshot .unchanged =
      snapshot.size := by
  unfold count Snapshot.size
  induction snapshot.entries with
  | nil => rfl
  | cons e rest ih =>
    simp only [List.countP_cons, List.length_cons]
    cases changeOf published e with
    | new => simp; omega
    | changed => simp; omega
    | unchanged => simp; omega

namespace Snapshot

/-- A row that is no entry. -/
def malformed (r : Row) : Bool :=
  !(Entry.ofRow r).isOk

/-- Each row is set aside, or is the entry of its key or one that was replaced. -/
theorem size_add_malformed_le (rows : List Row) :
    (ofRows rows).1.size + rows.countP malformed ≤ rows.length := by
  have haccepted : (ofRows rows).1.size ≤ rows.countP fun r => (Entry.ofRow r).isOk := by
    rw [size_ofRows, List.countP_eq_length_filter, ← List.length_map Row.key]
    exact (List.dedup_sublist _).length_le
  rw [List.length_eq_countP_add_countP (fun r => (Entry.ofRow r).isOk)]
  refine Nat.add_le_add haccepted (List.countP_mono_left fun r _ hr => ?_)
  simpa [malformed] using hr

end Snapshot

/-! ## Runs -/

namespace RateTable

variable {t t' : RateTable} {rows : List Row} {listing : Verdict} {writes : List (UInt64 × Verdict)}
  {result : CycleResult} {p : Publication} {done : List Task} {tried : List Attempt}

/-- The change that is tried in an event. -/
def attempt? (t : RateTable) : Event → Option Attempt
  | .wrote time verdict => (t.nextWrite? time).map fun w => ⟨w, (t.backends.write w verdict).1.isOk⟩
  | _ => none

/-- The changes that are tried in a run. -/
def attempts (t : RateTable) : List Event → List Attempt
  | [] => []
  | e :: rest => (t.attempt? e).toList ++ (t.step e).2.attempts rest

theorem attempts_writing_of_idle (h : t.synchronizer.running = none)
    (writes : List (UInt64 × Verdict)) :
    t.attempts (writing writes) = [] := by
  induction writes with
  | nil => rfl
  | cons w rest ih =>
    have hstep : t.step (.wrote w.1 w.2) = (none, t) := by
      simp [step, wrote, h]
    change (t.attempt? (.wrote w.1 w.2)).toList ++
      (t.step (.wrote w.1 w.2)).2.attempts (writing rest) = []
    rw [hstep, ih]
    simp [attempt?, nextWrite?, h]

/-- One change of a publication under way, after which it goes on or has come to its end. -/
theorem step_wrote_cases (running : t.synchronizer.running = some (.publishing p))
    (left : p.tasks ≠ []) (time : UInt64) (verdict : Verdict) :
    ∃ w ok, p.next? t.synchronizer.cycles time = some w ∧
      t.attempt? (.wrote time verdict) = some ⟨w, ok⟩ ∧
      (((p.advance w ok).tasks ≠ [] ∧ ∃ t₁, t.step (.wrote time verdict) = (none, t₁) ∧
          t₁.synchronizer = { t.synchronizer with running := some (.publishing (p.advance w ok)) } ∧
          t₁.ledger = t.ledger) ∨
        ((p.advance w ok).tasks = [] ∧ ∃ t₁,
          t.step (.wrote time verdict) =
            (some ((p.advance w ok).result t.synchronizer.cycles), t₁) ∧
          t₁.synchronizer = (t.synchronizer.conclude (p.advance w ok)).finish
            ((p.advance w ok).result t.synchronizer.cycles) ∧
          t₁.ledger.total .evictions = t.ledger.total .evictions + (p.advance w ok).evicted)) := by
  obtain ⟨w, hw⟩ := Publication.exists_next? left t.synchronizer.cycles time
  generalize hok : (t.backends.write w verdict).1.isOk = ok
  have hstep : t.step (.wrote time verdict) =
      { t with backends := (t.backends.write w verdict).2 }.proceed (p.advance w ok) := by
    simp [step, wrote, running, hw, hok]
  refine ⟨w, ok, hw, by simp [attempt?, nextWrite?, running, hw, hok], ?_⟩
  rw [hstep, proceed]
  by_cases hdone : (p.advance w ok).tasks = []
  · refine .inr ⟨hdone, _, by rw [hdone]; rfl, rfl, ?_⟩
    change (recordEnd (t.ledger.add .evictions _) ((p.advance w ok).result _)).total .evictions = _
    rw [total_recordEnd_of_ne (c := .evictions) (by simp), Ledger.total_add, if_pos rfl]
  · exact .inl ⟨hdone, _, if_neg (by simpa using hdone), rfl, rfl⟩

/-- A publication that began as `p` in `t` has come to its end as `p'`, after the changes that
    were tried for it. -/
structure Ends (t : RateTable) (p p' : Publication) (tried : List Attempt) (result : CycleResult)
    (t' : RateTable) : Prop where
  same : p.SameCycle p'
  left : p'.tasks = []
  tallied : ∃ done, p'.Tallied tried done
  told : result = p'.result t.synchronizer.cycles
  synchronizer : t'.synchronizer = (t.synchronizer.conclude p').finish result
  evictions : t'.ledger.total .evictions = t.ledger.total .evictions + p'.evicted

/-- **The result of a publication is the account of what was tried for it.** -/
theorem ends_of_writing (running : t.synchronizer.running = some (.publishing p))
    (left : p.tasks ≠ []) (tallied : p.Tallied tried done)
    (hrun : t.run (writing writes) = ([result], t')) :
    ∃ p', t.Ends p p' (tried ++ t.attempts (writing writes)) result t' := by
  induction writes generalizing t p tried done with
  | nil => cases hrun
  | cons next rest ih =>
    obtain ⟨time, verdict⟩ := next
    obtain ⟨w, ok, hw, hattempt, hcases⟩ := step_wrote_cases running left time verdict
    obtain ⟨done', tallied'⟩ : ∃ done', (p.advance w ok).Tallied (tried ++ [⟨w, ok⟩]) done' :=
      tallied.advance hw
    change t.run (.wrote time verdict :: writing rest) = _ at hrun
    change ∃ p', t.Ends p p'
      (tried ++ ((t.attempt? (.wrote time verdict)).toList ++
        (t.step (.wrote time verdict)).2.attempts (writing rest))) result t'
    rw [hattempt, Option.toList_some, ← List.append_assoc]
    simp only [run] at hrun
    rcases hcases with ⟨left', t₁, hstep, hsync, hledger⟩ | ⟨left', t₁, hstep, hsync, hledger⟩
    · rw [hstep] at hrun ⊢
      obtain ⟨p', same, left, tallied, hresult, hsync', hevictions⟩ :=
        ih (by rw [hsync]) left' tallied' (by simpa using hrun)
      rw [hsync] at hresult hsync'
      rw [hledger] at hevictions
      exact ⟨p', (p.sameCycle_advance w ok).trans same, left, tallied, hresult, hsync', hevictions⟩
    · -- nothing is tried any more
      have idle : t₁.synchronizer.running = none := by
        rw [hsync]
        rfl
      rw [hstep] at hrun ⊢
      rw [run_writing_of_idle idle] at hrun
      rw [attempts_writing_of_idle idle, List.append_nil]
      obtain ⟨hresult, rfl⟩ := Prod.mk.inj hrun
      have hresult : (p.advance w ok).result t.synchronizer.cycles = result := by
        simpa using hresult
      exact ⟨_, p.sameCycle_advance w ok, left', ⟨done', tallied'⟩, hresult.symm,
        hresult ▸ hsync, hledger⟩

/-- **A publication comes to its end**, whatever fails, if there are as many changes as it takes. -/
theorem exists_run_writing (running : t.synchronizer.running = some (.publishing p))
    (left : p.tasks ≠ []) (enough : p.halvesLeft ≤ writes.length) :
    ∃ result t', t.run (writing writes) = ([result], t') := by
  induction writes generalizing t p with
  | nil => exact absurd (Publication.halvesLeft_pos left) (Nat.not_lt.mpr enough)
  | cons next rest ih =>
    obtain ⟨time, verdict⟩ := next
    obtain ⟨w, ok, -, -, hcases⟩ := step_wrote_cases running left time verdict
    change ∃ result t', t.run (.wrote time verdict :: writing rest) = ([result], t')
    simp only [run]
    rcases hcases with ⟨left', t₁, hstep, hsync, -⟩ | ⟨-, t₁, hstep, hsync, -⟩
    · have hless := Publication.halvesLeft_advance_lt left w ok
      obtain ⟨result, t', hrun⟩ :=
        ih (by rw [hsync]) left' (by rw [List.length_cons] at enough; omega)
      rw [hstep]
      exact ⟨result, t', by simp [hrun]⟩
    · rw [hstep, run_writing_of_idle (by rw [hsync]; rfl)]
      exact ⟨_, _, rfl⟩

/-! ## Whole cycles -/

theorem attempts_aCycle (idle : t.synchronizer.running = none) :
    t.attempts (aCycle rows listing writes) =
      ((t.call.2.fetched (.ok rows)).2.listed listing).2.attempts (writing writes) := by
  simp [aCycle, attempts, attempt?, step, call, idle, Synchronizer.begin, RateTable.fetched,
    Synchronizer.diffing, RateTable.listed]

theorem ledger_of_aCycle (rows : List Row) (listing : Verdict)
    (idle : t.synchronizer.running = none) :
    ((t.call.2.fetched (.ok rows)).2.listed listing).2.ledger =
      t.ledger.add .rejectedRows (Snapshot.ofRows rows).2.length := by
  simp [call, idle, Synchronizer.begin, RateTable.fetched, Synchronizer.diffing, RateTable.listed]

/-- What a cycle is to remove that fetches the rows, as far as the store can be listed. -/
def toRemove (t : RateTable) (rows : List Row) (listing : Verdict) : List String :=
  Diff.toEvict (Snapshot.ofRows rows).1
    (t.synchronizer.known ++ (t.backends.storeKeys listing).toOption.getD [])

/-- The account of a cycle whose publication has come to its end as `p`, after the changes that
    were tried for it. -/
structure Accounted (t : RateTable) (rows : List Row) (listing : Verdict) (tried : List Attempt)
    (result : CycleResult) (t' : RateTable) (p : Publication) : Prop where
  /-- a failure is told if a change has failed, and only then -/
  failed_iff : (∃ failed attempted, result = .error (.partialPublish failed attempted)) ↔
    ∃ a ∈ tried, a.done = false
  /-- and then the keys that have failed, in the order of the plan -/
  failure : ∀ e, result = .error e → e = .partialPublish
    (((Snapshot.ofRows rows).1.names ++ Manifest.name :: t.toRemove rows listing).filter
      (failedAt tried))
    ((Snapshot.ofRows rows).1.size + 1 + (t.toRemove rows listing).length)
  /-- of which none comes twice -/
  nodup : ((Snapshot.ofRows rows).1.names ++ Manifest.name :: t.toRemove rows listing).Nodup
  /-- and about each of which a change was tried, as about no other one -/
  about : ∀ key, key ∈ (Snapshot.ofRows rows).1.names ++ Manifest.name :: t.toRemove rows listing ↔
    ∃ a ∈ tried, a.write.key = key
  /-- otherwise everything is counted -/
  report : ∀ r, result = .ok r → r.cycle = (t.synchronizer.cycles + 1).toNat ∧
    r.rowsFetched = rows.length ∧
    r.rejected = rows.countP Snapshot.malformed ∧
    r.new + r.changed + r.unchanged = (Snapshot.ofRows rows).1.size ∧
    (Snapshot.ofRows rows).1.size + r.rejected ≤ r.rowsFetched ∧
    r.evicted = (t.toRemove rows listing).length
  /-- what is taken off the number of removals are those among them that have failed -/
  evict : p.diff.evict = t.toRemove rows listing
  notEvicted : p.notEvicted = p.diff.evict.filter (failedAt tried)
  evicted : p.evicted + p.notEvicted.length = p.diff.evict.length
  counted : t'.ledger.total .evictions = t.ledger.total .evictions + p.evicted
  concluded : t'.synchronizer =
    (((t.call.2.fetched (.ok rows)).2.listed listing).2.synchronizer.conclude p).finish result

/-- **The account of a cycle is exact.** Whatever was done before, whatever rows the source gives
    and whichever changes fail, a cycle that is not refused and has as many changes as its plan
    takes comes to its end, and then its account is that of the changes that were tried. What it
    removes are the keys that are known or listed and are neither published nor that of the
    manifest, each once. -/
theorem cycle_accounted (idle : t.synchronizer.running = none) (rows : List Row) (listing : Verdict)
    (writes : List (UInt64 × Verdict)) :
    (∀ key, key ∈ t.toRemove rows listing ↔
        (key ∈ t.synchronizer.known ∨ key ∈ (t.backends.storeKeys listing).toOption.getD []) ∧
          key ≠ Manifest.name ∧ key ∉ (Snapshot.ofRows rows).1.names) ∧
      (t.toRemove rows listing).Pairwise (· < ·) ∧
      (2 * ((Snapshot.ofRows rows).1.size + 1 + (t.toRemove rows listing).length) ≤ writes.length →
        ∃ result t', t.run (aCycle rows listing writes) = ([result], t')) ∧
      ∀ result t', t.run (aCycle rows listing writes) = ([result], t') →
        ∃ p, t.Accounted rows listing (t.attempts (aCycle rows listing writes)) result t' p := by
  obtain ⟨-, hcycles, hrunning⟩ := started_of_aCycle rows listing idle
  refine ⟨fun key => by rw [toRemove, Diff.mem_toEvict_iff, List.mem_append],
    Diff.pairwise_sorted _, fun enough => ?_, fun result t' hrun => ?_⟩
  · rw [run_aCycle idle]
    refine exists_run_writing hrunning (by simp [Publication.start, Publication.plan]) ?_
    simpa [Publication.halvesLeft, Publication.start, Publication.plan, Snapshot.size,
      Diff.compare, toRemove, Nat.add_assoc, Nat.add_comm 1] using enough
  · rw [run_aCycle idle] at hrun
    rw [attempts_aCycle idle]
    obtain ⟨p, ends⟩ := ends_of_writing hrunning (by simp [Publication.start, Publication.plan])
      (Publication.tallied_start (formed_start (Snapshot.valid_ofRows rows))) hrun
    obtain ⟨done, tallied⟩ := ends.tallied
    have hsnapshot : p.snapshot = (Snapshot.ofRows rows).1 := ends.same.snapshot
    have hevict : p.diff.evict = t.toRemove rows listing := congrArg Diff.evict ends.same.diff
    have hfailed := (tallied.of_done ends.left).1
    have hnodup := Publication.nodup_whole tallied.formed
    have habout := tallied.mem_whole_iff ends.left
    rw [hsnapshot, hevict] at hfailed
    rw [Publication.keys_whole, hsnapshot, hevict] at hnodup habout
    refine ⟨p, ?failed_iff, ?failure, hnodup, habout, ?report, hevict,
      (tallied.of_done ends.left).2, tallied.evicted_add ends.left, ?counted, ends.synchronizer⟩
    case failed_iff =>
      have hnone := tallied.failed_eq_nil_iff ends.left
      rw [ends.told]
      constructor
      · rintro ⟨failed, attempted, herror⟩
        have hsome := mt hnone.mpr (Publication.result_eq_error_iff.mp herror).1
        simpa using hsome
      · rintro ⟨a, ha, hfails⟩
        have hsome : p.failed ≠ [] := fun hnil => by simp [hnone.mp hnil a ha] at hfails
        exact ⟨_, _, Publication.result_eq_error_iff.mpr ⟨hsome, rfl⟩⟩
    case failure =>
      rintro e rfl
      obtain ⟨-, rfl⟩ := Publication.result_eq_error_iff.mp ends.told.symm
      rw [Publication.attempted_eq, hsnapshot, hevict, hfailed]
      rfl
    case report =>
      rintro r rfl
      obtain ⟨hu, rfl⟩ := Publication.result_eq_ok_iff.mp ends.told.symm
      have hrejected : p.rejected = rows.countP Snapshot.malformed :=
        ends.same.rejected.trans (Snapshot.length_rejected rows)
      have hrows : p.rowsFetched = rows.length := ends.same.rowsFetched
      have hcounts : p.diff.new + p.diff.changed + p.diff.unchanged =
          (Snapshot.ofRows rows).1.size := by
        rw [ends.same.diff]
        exact Diff.count_add_count_add_count _ _
      refine ⟨congrArg UInt64.toNat hcycles, hrows, hrejected, hcounts, ?_, ?_⟩
      · rw [hrejected, hrows]
        exact Snapshot.size_add_malformed_le rows
      · rw [tallied.evicted_of_unfailed ends.left hu, hevict]
    case counted =>
      rw [ends.evictions, ledger_of_aCycle rows listing idle, Ledger.total_add, if_neg (by decide),
        Nat.add_zero]

/-- Changes of which the first is refused by the store, and the last one is lost. -/
def troubledWrites : List (UInt64 × Verdict) :=
  [(9, .refused (.unavailable "down")), (9, .passed), (9, .passed), (9, .passed),
    (9, .lost (.unavailable "slow"))]

/-- An entry that could not be written and a removal that failed in the cache are told, in the
    order of the plan. -/
theorem cycle_accounted_troubledWrites :
    ((blank .zero).run cutCycle).2.synchronizer.running = none ∧
      ((blank .zero).run cutCycle).2.toRemove [rowFor "10.0.0.2"] .passed = ["#ndt##10.0.0.1"] ∧
      ∃ result t' p,
        ((blank .zero).run cutCycle).2.run (aCycle [rowFor "10.0.0.2"] .passed troubledWrites) =
          ([result], t') ∧
        ((blank .zero).run cutCycle).2.Accounted [rowFor "10.0.0.2"] .passed
          (((blank .zero).run cutCycle).2.attempts
            (aCycle [rowFor "10.0.0.2"] .passed troubledWrites)) result t' p ∧
        result = .error (.partialPublish ["#ndt##10.0.0.2", "#ndt##10.0.0.1"] 3) := by
  have hrun :
      (((blank .zero).run cutCycle).2.run
        (aCycle [rowFor "10.0.0.2"] .passed troubledWrites)).1.length = 1 := by
    decide +kernel
  obtain ⟨result, hresult⟩ := List.length_eq_one_iff.mp hrun
  obtain ⟨-, -, -, hall⟩ :=
    cycle_accounted (t := ((blank .zero).run cutCycle).2) rfl [rowFor "10.0.0.2"] .passed
      troubledWrites
  obtain ⟨p, accounted⟩ := hall result _ (Prod.ext hresult rfl)
  refine ⟨rfl, by decide +kernel, result, _, p, Prod.ext hresult rfl, accounted, ?_⟩
  obtain ⟨failed, attempted, rfl⟩ := accounted.failed_iff.mpr (by decide +kernel)
  rw [accounted.failure _ rfl]
  exact congrArg Except.error
    (congrArg₂ SyncError.partialPublish (by decide +kernel) (by decide +kernel))

end RateTable

end Roster
