import Mathlib.Data.List.Nodup
import Roster.Proofs.Storage.Backends
import Roster.Proofs.Sync.Diff
import Roster.Proofs.Table.Snapshot
import Roster.Sync.Publication

/-!
# What a publication has done so far

A publication works its plan off from the front. Split at the point that it has reached, the plan
is a list of tasks that are done and a list of tasks that are left, and everything that one would
like to know about the backends in between is about the first list: **a task that is done is
settled, or its key is among the failures** (`Sound.settled`). Settled means that both backends
show what the task was to bring about, and stays so because no two tasks of a plan are about one
key (`nodup_plan`).

`Sound.advance` is the step: it holds whatever becomes of a change, and needs nothing of the
backends but `Tried` and, for a change that is reported as done, `Shows`. What the backends hold
under the keys that no task is about is of no concern here.
-/

namespace Roster

/-! ## Tasks and their changes -/

namespace Task

variable {task : Task} {m : Manifest}

@[simp] theorem storeWrite_key : (task.storeWrite m).key = task.key := by
  cases task <;> rfl

@[simp] theorem storeWrite_backend : (task.storeWrite m).backend = .store := by
  cases task <;> rfl

/-- What both backends have under the key of a task that is done. -/
def content (m : Manifest) : Task → Option ByteArray
  | .entry e => some e.encode
  | .manifest => some m.encode
  | .evict _ => none

@[simp] theorem storeWrite_content : (task.storeWrite m).content = task.content m := by
  cases task <;> rfl

end Task

namespace Write

variable {w : Write}

@[simp] theorem inCache_key : w.inCache.key = w.key := by
  cases w <;> rfl

@[simp] theorem inCache_backend : w.inCache.backend = .cache := by
  cases w <;> rfl

@[simp] theorem inCache_content : w.inCache.content = w.content := by
  cases w <;> rfl

end Write

namespace Publication

/-! ## The plan -/

variable {p : Publication} {b b' : Backends} {cycle time : UInt64} {done rest : List Task}
  {task : Task} {w : Write} {ok : Bool}

/-- What a publication is made of: entries that rows can give, and keys to remove of which none is
    published. -/
structure Formed (p : Publication) : Prop where
  valid : p.snapshot.Valid
  evict : ∀ key ∈ p.diff.evict, key ≠ Manifest.name ∧ key ∉ p.snapshot.names
  nodup : p.diff.evict.Nodup

/-- All that a publication has to do, from its beginning on. -/
def whole (p : Publication) : List Task :=
  plan p.snapshot p.diff

theorem keys_whole (p : Publication) :
    p.whole.map Task.key = p.snapshot.names ++ Manifest.name :: p.diff.evict := by
  have hentries : p.snapshot.entries.map (Task.key ∘ Task.entry) = p.snapshot.names := by
    rw [Snapshot.names, Snapshot.keys, List.map_map]
    rfl
  have hevict : p.diff.evict.map (Task.key ∘ Task.evict) = p.diff.evict :=
    List.map_id _
  rw [whole, plan, List.map_append, List.map_cons, List.map_map, List.map_map, hentries, hevict]
  rfl

/-- **No two tasks of a plan are about one key.** -/
theorem nodup_whole (h : p.Formed) : (p.whole.map Task.key).Nodup := by
  rw [keys_whole, List.nodup_append]
  refine ⟨Snapshot.nodup_names h.valid, ?_, ?_⟩
  · rw [List.nodup_cons]
    exact ⟨fun hmem => (h.evict _ hmem).1 rfl, h.nodup⟩
  · rintro a ha b hb rfl
    rcases List.mem_cons.mp hb with rfl | hevict
    · exact Snapshot.name_not_mem_names _ ha
    · exact (h.evict a hevict).2 ha

theorem mem_whole_entry_iff {e : Entry} : .entry e ∈ p.whole ↔ e ∈ p.snapshot.entries := by
  simp [whole, plan]

theorem manifest_mem_whole : .manifest ∈ p.whole := by
  simp [whole, plan]

theorem mem_whole_evict_iff {key : String} : .evict key ∈ p.whole ↔ key ∈ p.diff.evict := by
  simp [whole, plan]

/-- The tasks before the manifest of a plan are the entries. -/
theorem split_at_manifest (h : p.whole = done ++ .manifest :: rest) :
    done = p.snapshot.entries.map .entry ∧ rest = p.diff.evict.map .evict := by
  rw [whole, plan] at h
  rcases List.append_eq_append_iff.mp h with ⟨more, hdone, htail⟩ | ⟨more, hentries, htail⟩
  · cases more with
    | nil => simp_all
    | cons task more =>
      -- otherwise a removal would be the manifest
      obtain ⟨-, hevict⟩ := List.cons.inj htail
      have hmem : Task.manifest ∈ p.diff.evict.map Task.evict := by
        rw [hevict]
        simp
      simp at hmem
  · cases more with
    | nil => simp_all
    | cons task more =>
      obtain ⟨rfl, -⟩ := List.cons.inj htail
      have hmem : Task.manifest ∈ p.snapshot.entries.map Task.entry := by
        rw [hentries]
        simp
      simp at hmem

/-- When the turn of a removal has come, the manifest is done. -/
theorem manifest_mem_of_split {key : String} (h : p.whole = done ++ .evict key :: rest) :
    .manifest ∈ done := by
  have hmem : Task.manifest ∈ done ++ .evict key :: rest := h ▸ manifest_mem_whole
  rcases List.mem_append.mp hmem with hdone | hrest
  · exact hdone
  · rcases List.mem_cons.mp hrest with heq | hrest
    · cases heq
    -- Were it still to come, all tasks before it, and the removal with them, would be entries.
    · obtain ⟨before, after, rfl⟩ := List.append_of_mem hrest
      have hwhole : p.whole = (done ++ .evict key :: before) ++ .manifest :: after := by
        rw [h]
        simp
      have hevict : Task.evict key ∈ p.snapshot.entries.map Task.entry := by
        rw [← (split_at_manifest hwhole).1]
        simp
      simp at hevict

/-! ## The tasks that are done -/

/-- Both backends show what the task was to bring about. -/
def Settled (p : Publication) (cycle : UInt64) (b : Backends) (task : Task) : Prop :=
  ∃ time, ∀ backend, b.Shows backend task.key (task.content (p.manifest cycle time))

/-- A task is in the lists of what has failed, in both of them if it is an eviction. -/
def Noted (p : Publication) (task : Task) : Prop :=
  task.key ∈ p.failed ∧ (task.isEviction → task.key ∈ p.notEvicted)

/-- How far a publication has come: the tasks in `done` have been tried, whatever became of them. -/
structure Sound (p : Publication) (cycle : UInt64) (b : Backends) (done : List Task) : Prop where
  formed : p.Formed
  plan : p.whole = done ++ p.tasks
  settled : ∀ task ∈ done, p.Noted task ∨ p.Settled cycle b task
  noted : p.notEvicted ⊆ p.failed
  /-- the first half of the next task, if it is done -/
  half : ∀ h, p.half = some h → ∃ task rest time, p.tasks = task :: rest ∧
    h.write = (task.storeWrite (p.manifest cycle time)).inCache ∧
    (h.stored → b.Shows .store task.key (task.content (p.manifest cycle time)))

/-- In a publication of which nothing has failed, what is done is settled. -/
theorem Sound.settled_of_unfailed (h : p.Sound cycle b done) (hu : p.failed = []) :
    ∀ task ∈ done, p.Settled cycle b task := by
  intro task ht
  rcases h.settled task ht with hnoted | hsettled
  · have hfailed := hnoted.1
    rw [hu] at hfailed
    cases hfailed
  · exact hsettled

variable {snapshot : Snapshot} {rowsFetched rejected : Nat} {diff : Diff}

/-- A publication is sound when it starts. -/
theorem sound_start (h : (start snapshot rowsFetched rejected diff).Formed) :
    (start snapshot rowsFetched rejected diff).Sound cycle b [] :=
  ⟨h, rfl, nofun, List.Subset.refl _, nofun⟩

/-- The change that comes next is one half of the first task that is left. -/
theorem Sound.next?_cases (h : p.Sound cycle b done) (hw : p.next? cycle time = some w) :
    ∃ task rest time', p.tasks = task :: rest ∧
      (p.half = none ∧ w = task.storeWrite (p.manifest cycle time') ∨
        ∃ stored, p.half = some ⟨(task.storeWrite (p.manifest cycle time')).inCache, stored⟩ ∧
          w = (task.storeWrite (p.manifest cycle time')).inCache ∧
          (stored → b.Shows .store task.key (task.content (p.manifest cycle time')))) := by
  unfold next? at hw
  split at hw
  · cases hw
  · next half htasks hhalf =>
    cases hw
    obtain ⟨task, rest, time', htasks', hwrite, hstored⟩ := h.half half hhalf
    refine ⟨task, rest, time', htasks', .inr ⟨half.stored, ?_, hwrite, hstored⟩⟩
    rw [hhalf, ← hwrite]
  · next task rest htasks hhalf =>
    cases hw
    exact ⟨task, rest, time, htasks, .inl ⟨hhalf, rfl⟩⟩

/-- So it is about that task's key, and about what the task is to bring about. -/
theorem Sound.next?_spec (h : p.Sound cycle b done) (hw : p.next? cycle time = some w) :
    ∃ task rest time', p.tasks = task :: rest ∧ w.key = task.key ∧
      w.content = task.content (p.manifest cycle time') := by
  obtain ⟨task, rest, time', htasks, ⟨-, rfl⟩ | ⟨stored, -, rfl, -⟩⟩ := h.next?_cases hw
  · exact ⟨task, rest, time', htasks, Task.storeWrite_key, Task.storeWrite_content⟩
  · exact ⟨task, rest, time', htasks, by simp, by simp⟩

/-- What is done is not undone by what comes next. -/
theorem Sound.settled_of_tried (h : p.Sound cycle b done) (htasks : p.tasks = task :: rest)
    (hkey : w.key = task.key) (tried : b.Tried w b') :
    ∀ t ∈ done, p.Noted t ∨ p.Settled cycle b' t := by
  intro t ht
  rcases h.settled t ht with hnoted | ⟨time, hshows⟩
  · exact .inl hnoted
  · refine .inr ⟨time, fun backend => ?_⟩
    -- The change may be about any key but that of a task that is done.
    have hne : t.key ≠ task.key := by
      have hnodup := nodup_whole h.formed
      rw [h.plan, htasks, List.map_append, List.nodup_append] at hnodup
      exact hnodup.2.2 _ (List.mem_map_of_mem ht) _ (by simp)
    exact (tried.other backend t.key fun heq => hne (heq.2.trans hkey)).shows (hshows backend)

theorem settle_true (htasks : p.tasks = task :: rest) :
    p.settle true = { p with tasks := rest, half := none } := by
  simp [settle, htasks]

theorem settle_false (htasks : p.tasks = task :: rest) :
    p.settle false =
      { p with
        tasks := rest, half := none, failed := p.failed ++ [task.key]
        notEvicted := if task.isEviction then p.notEvicted ++ [task.key] else p.notEvicted } := by
  simp [settle, htasks]

/-- A task that has worked is done. -/
theorem Sound.settle_true (h : p.Sound cycle b done) (htasks : p.tasks = task :: rest)
    (hdone : ∀ t ∈ done, p.Noted t ∨ p.Settled cycle b' t) (htask : p.Settled cycle b' task) :
    (p.settle true).Sound cycle b' (done ++ [task]) := by
  rw [Publication.settle_true htasks]
  refine ⟨⟨h.formed.valid, h.formed.evict, h.formed.nodup⟩, ?_, ?_, h.noted, nofun⟩
  · change p.whole = done ++ [task] ++ rest
    rw [h.plan, htasks, List.append_assoc, List.singleton_append]
  · intro t ht
    rcases List.mem_append.mp ht with ht | ht
    · exact hdone t ht
    · rw [List.mem_singleton.mp ht]
      exact .inr htask

/-- A task that has failed is done, and noted. -/
theorem Sound.settle_false (h : p.Sound cycle b done) (htasks : p.tasks = task :: rest)
    (hdone : ∀ t ∈ done, p.Noted t ∨ p.Settled cycle b' t) :
    (p.settle false).Sound cycle b' (done ++ [task]) := by
  rw [Publication.settle_false htasks]
  refine ⟨⟨h.formed.valid, h.formed.evict, h.formed.nodup⟩, ?_, ?_, ?_, nofun⟩
  · change p.whole = done ++ [task] ++ rest
    rw [h.plan, htasks, List.append_assoc, List.singleton_append]
  · intro t ht
    rcases List.mem_append.mp ht with ht | ht
    · refine (hdone t ht).imp_left fun hnoted => ⟨List.mem_append_left _ hnoted.1, fun hev => ?_⟩
      dsimp only
      split
      · exact List.mem_append_left _ (hnoted.2 hev)
      · exact hnoted.2 hev
    · rw [List.mem_singleton.mp ht]
      refine .inl ⟨by simp, fun hev => ?_⟩
      simp [hev]
  · dsimp only
    split
    · exact List.append_subset.mpr
        ⟨List.subset_append_of_subset_left _ h.noted, List.subset_append_right _ _⟩
    · exact List.subset_append_of_subset_left _ h.noted

theorem advance_of_none (htasks : p.tasks = task :: rest) (hhalf : p.half = none) :
    p.advance w ok =
      if ok || task.isEviction then { p with half := some ⟨w.inCache, ok⟩ }
      else p.settle false := by
  unfold advance
  rw [htasks, hhalf]

theorem advance_of_some {half : Half} (htasks : p.tasks = task :: rest)
    (hhalf : p.half = some half) :
    p.advance w ok = p.settle (half.stored && ok) := by
  unfold advance
  rw [htasks, hhalf]

/-- Settling a task does not change what the publication is to bring about. -/
theorem settle_fixed (p : Publication) (ok : Bool) :
    (p.settle ok).snapshot = p.snapshot ∧ (p.settle ok).diff = p.diff := by
  unfold settle
  split <;> exact ⟨rfl, rfl⟩

theorem advance_fixed (p : Publication) (w : Write) (ok : Bool) :
    (p.advance w ok).snapshot = p.snapshot ∧ (p.advance w ok).diff = p.diff := by
  unfold advance
  split
  · exact ⟨rfl, rfl⟩
  · exact settle_fixed p _
  · split
    · exact ⟨rfl, rfl⟩
    · exact settle_fixed p false

/-- **Whatever becomes of the next change, the publication goes on from there.** -/
theorem Sound.advance (h : p.Sound cycle b done) (hw : p.next? cycle time = some w)
    (tried : b.Tried w b') (shows : ok → b'.Shows w.backend w.key w.content) :
    ∃ done', (p.advance w ok).Sound cycle b' done' := by
  obtain ⟨task, rest, time', htasks, ⟨hhalf, rfl⟩ | ⟨stored, hhalf, rfl, hstored⟩⟩ :=
    h.next?_cases hw
  · have hdone := h.settled_of_tried htasks Task.storeWrite_key tried
    rw [advance_of_none htasks hhalf]
    split
    · refine ⟨done, ⟨h.formed.valid, h.formed.evict, h.formed.nodup⟩, h.plan, hdone, h.noted, ?_⟩
      -- The other half comes next, also where this one failed: a removal is tried in both backends.
      rintro half heq
      cases heq
      simp only [Task.storeWrite_backend, Task.storeWrite_key, Task.storeWrite_content] at shows
      exact ⟨task, rest, time', htasks, rfl, shows⟩
    · exact ⟨_, h.settle_false htasks hdone⟩
  · have hdone := h.settled_of_tried htasks (by simp) tried
    rw [advance_of_some htasks hhalf]
    cases hok : stored && ok with
    | false => exact ⟨_, h.settle_false htasks hdone⟩
    | true =>
      -- What the store shows since the first half, the second one does not touch.
      obtain ⟨hs, ho⟩ := (Bool.and_eq_true _ _).mp hok
      refine ⟨_, h.settle_true htasks hdone ⟨time', fun backend => ?_⟩⟩
      cases backend with
      | store => exact (tried.other .store task.key (by simp)).shows (hstored hs)
      | cache => simpa using shows ho

end Publication

end Roster
