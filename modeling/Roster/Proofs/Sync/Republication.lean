import Mathlib.Data.List.Dedup
import Mathlib.Data.List.Sort
import Roster.Proofs.Sync.Anchored
import Roster.Proofs.Table.Stored

/-!
# Publishing the same rows again

A cycle that fetches what was published last has nothing to report and nothing to change. It does
write every entry again, and a manifest with a number and a time of its own, so what is proved is
not that it does nothing but that nobody can tell, the manifest apart.

Three things have to be known of the state that a successful cycle leaves. What is published is its
snapshot, so that each entry is compared with itself, and is the same since none of its doubles is
one that differs from itself. What is known are the names of the snapshot, as nothing is left to be
removed after a success. And what the store lists are these names and the manifest, which is what
takes a listing in the first of the two cycles.

The second cycle is not assumed to succeed. It does, if no change fails and there are enough of them
(`run_writing_of_succeeds`).
-/

namespace Roster

/-! ## Keys of rows -/

namespace Snapshot

variable {s : Snapshot} {k : Key} {e : Entry}

/-- The keys of the rows that are entries, one for each such row. -/
def acceptedKeys (rows : List Row) : List Key :=
  (rows.filter fun r => (Entry.ofRow r).isOk).map Row.key

theorem mem_keys_foldl_insert_iff {entries : List Entry} :
    k ∈ (entries.foldl insert s).keys ↔ k ∈ s.keys ∨ k ∈ entries.map Entry.key := by
  induction entries generalizing s with
  | nil => simp
  | cons first rest ih =>
    rw [List.foldl_cons, ih, mem_keys_insert_iff, List.map_cons, List.mem_cons]
    tauto

theorem map_key_sort (rows : List Row) : (sort rows).1.map Entry.key = acceptedKeys rows := by
  induction rows with
  | nil => rfl
  | cons r rest ih =>
    cases hrow : Entry.ofRow r with
    | error m =>
      simpa [sort, acceptedKeys, hrow, Except.toOption, Except.isOk, Except.toBool] using ih
    | ok e =>
      have hkey := Entry.key_of_ofRow hrow
      simpa [sort, acceptedKeys, hrow, Except.toOption, Except.isOk, Except.toBool, hkey] using ih

/-- **A snapshot has an entry for each key that an accepted row has.** -/
theorem size_ofRows (rows : List Row) :
    (ofRows rows).1.size = (acceptedKeys rows).dedup.length := by
  have hperm : (ofRows rows).1.keys.Perm (acceptedKeys rows).dedup := by
    refine (List.perm_ext_iff_of_nodup (ofRows rows).1.nodup (List.nodup_dedup _)).mpr fun k => ?_
    rw [List.mem_dedup, ← map_key_sort]
    exact mem_keys_foldl_insert_iff.trans (or_iff_right List.not_mem_nil)
  rw [← hperm.length_eq, keys, List.length_map, size]

end Snapshot

/-! ## Comparing a snapshot with itself -/

namespace Diff

variable {s : Snapshot} {e : Entry} {present : List String}

/-- Nothing has changed against the snapshot itself. -/
theorem changeOf_self (hs : s.Valid) (he : e ∈ s.entries) : changeOf s e = .unchanged := by
  rw [changeOf, Snapshot.get?_of_mem he]
  exact if_pos (Entry.sameContent_self (hs e he))

theorem count_self (hs : s.Valid) (change : Change) :
    count s s change = if change = .unchanged then s.size else 0 := by
  split
  · next h =>
    subst h
    exact List.countP_eq_length.mpr fun e he => decide_eq_true (changeOf_self hs he)
  · next h =>
    refine List.countP_eq_zero.mpr fun e he => ?_
    rw [changeOf_self hs he]
    simpa using Ne.symm h

/-- Nothing is evicted if everything present is wanted. -/
theorem toEvict_eq_nil (h : ∀ key ∈ present, key ∈ s.names ∨ key = Manifest.name) :
    toEvict s present = [] := by
  refine List.eq_nil_iff_forall_not_mem.mpr fun key hmem => ?_
  obtain ⟨hpresent, hne, hname⟩ := mem_toEvict_iff.mp hmem
  exact (h key hpresent).elim hname hne

/-- **A snapshot is all unchanged beside itself**, and where there is nothing else
    nothing has to go. -/
theorem compare_self (hs : s.Valid) (h : ∀ key ∈ present, key ∈ s.names ∨ key = Manifest.name) :
    compare s s present = { new := 0, changed := 0, unchanged := s.size, evict := [] } := by
  simp [compare, count_self hs, toEvict_eq_nil h]

end Diff

/-! ## What a publication leaves alone -/

namespace Backends

theorem Same.trans {b₁ b₂ b₃ : Backends} {backend : Backend} {key : String}
    (h : Same b₁ b₂ backend key) (h' : Same b₂ b₃ backend key) : Same b₁ b₃ backend key :=
  ⟨h'.get.trans h.get, h'.has.trans h.has⟩

/-- What shows a value before and after is the same. -/
theorem Shows.same {b b' : Backends} {backend : Backend} {key : String} {value : ByteArray}
    (h : b.Shows backend key (some value)) (h' : b'.Shows backend key (some value)) :
    Same b b' backend key :=
  ⟨h'.get.trans h.get.symm, iff_of_true (has_of_get h'.get) (has_of_get h.get)⟩

/-- Two backends that differ at most under the given keys. -/
def AgreeBut (keys : List String) (b b' : Backends) : Prop :=
  ∀ backend key, key ∉ keys → Same b b' backend key

end Backends

namespace Publication

variable {p : Publication} {b b₀ b' : Backends} {cycle time : UInt64} {done : List Task} {w : Write}

/-- The next change is about a key of the plan. -/
theorem Sound.key_mem_whole (h : p.Sound cycle b done) (hw : p.next? cycle time = some w) :
    w.key ∈ p.snapshot.names ++ Manifest.name :: p.diff.evict := by
  obtain ⟨task, rest, time', htasks, hkey, -⟩ := h.next?_spec hw
  rw [hkey, ← keys_whole, h.plan, htasks]
  exact List.mem_map_of_mem (by simp)

theorem Sound.agreeBut (h : p.Sound cycle b done) (hw : p.next? cycle time = some w)
    (tried : b.Tried w b')
    (agree : b₀.AgreeBut (p.snapshot.names ++ Manifest.name :: p.diff.evict) b) :
    b₀.AgreeBut (p.snapshot.names ++ Manifest.name :: p.diff.evict) b' := by
  intro backend key hkey
  refine (agree backend key hkey).trans (tried.other backend key fun hown => hkey ?_)
  rw [hown.2]
  exact h.key_mem_whole hw

/-! ## How far it is to the end -/

/-- The number of changes that are left if none of them fails. -/
def halvesLeft (p : Publication) : Nat :=
  2 * p.tasks.length - p.half.toList.length

/-- A publication that is not done has something to write next. -/
theorem exists_next? (left : p.tasks ≠ []) (cycle time : UInt64) :
    ∃ w, p.next? cycle time = some w := by
  obtain ⟨task, rest, htasks⟩ := List.exists_cons_of_ne_nil left
  unfold next?
  rw [htasks]
  cases p.half with
  | none => exact ⟨_, rfl⟩
  | some half => exact ⟨_, rfl⟩

theorem halvesLeft_pos (left : p.tasks ≠ []) : 0 < p.halvesLeft := by
  have hlen := List.length_pos_iff.mpr left
  have hhalf : p.half.toList.length ≤ 1 := by cases p.half <;> simp
  unfold halvesLeft
  omega

/-- Each change that does not fail brings a publication nearer to its end. -/
theorem Unfailed.halvesLeft_advance (h : p.Unfailed) (left : p.tasks ≠ []) (w : Write) :
    (p.advance w true).halvesLeft + 1 = p.halvesLeft := by
  obtain ⟨task, rest, htasks⟩ := List.exists_cons_of_ne_nil left
  cases hhalf : p.half with
  | none =>
    rw [advance_of_none htasks hhalf]
    simp [halvesLeft, htasks, hhalf]
    omega
  | some half =>
    rw [advance_of_some htasks hhalf, h.stored half hhalf, Bool.and_true, settle_true htasks]
    simp [halvesLeft, htasks, hhalf]
    omega

end Publication

namespace RateTable

variable {t t' : RateTable} {report : CycleReport} {rows : List Row} {listing : Verdict}
  {writes : List (UInt64 × Verdict)}

/-- **A publication of which no change fails comes to its end**, if there are as many
    changes as it takes. -/
theorem run_writing_of_succeeds {p : Publication}
    (running : t.synchronizer.running = some (.publishing p)) (unfailed : p.Unfailed)
    (left : p.tasks ≠ []) (hs : t.succeeds (writing writes))
    (enough : p.halvesLeft ≤ writes.length) :
    ∃ report t', t.run (writing writes) = ([.ok report], t') := by
  induction writes generalizing t p with
  | nil => exact absurd (Publication.halvesLeft_pos left) (Nat.not_lt.mpr enough)
  | cons next rest ih =>
    obtain ⟨time, verdict⟩ := next
    obtain ⟨w, hnext⟩ := Publication.exists_next? left t.synchronizer.cycles time
    change t.completes (.wrote time verdict) &&
      (t.step (.wrote time verdict)).2.succeeds (writing rest) at hs
    obtain ⟨hcompletes, hrest⟩ := (Bool.and_eq_true _ _).mp hs
    have hok : (t.backends.write w verdict).1.isOk = true := by
      simpa [completes, nextWrite?, running, hnext] using hcompletes
    have hstep : t.step (.wrote time verdict) =
        { t with backends := (t.backends.write w verdict).2 }.proceed (p.advance w true) := by
      simp [step, wrote, running, hnext, hok]
    have hleft := unfailed.halvesLeft_advance left w
    change ∃ report t', t.run (.wrote time verdict :: writing rest) = ([.ok report], t')
    simp only [run]
    rw [hstep] at hrest ⊢
    unfold proceed at hrest ⊢
    by_cases hdone : (p.advance w true).tasks.isEmpty
    · -- nothing is left, and nothing has failed
      have hfailed : (p.advance w true).failed = [] := (unfailed.advance w).failed
      simp only [hdone, if_true, finish, Publication.result, hfailed, List.isEmpty_nil]
      rw [run_writing_of_idle rfl]
      exact ⟨_, _, rfl⟩
    · simp only [hdone, if_false, Bool.false_eq_true] at hrest ⊢
      obtain ⟨report, t', hrun⟩ :=
        ih rfl (unfailed.advance w) (fun h => hdone (List.isEmpty_iff.mpr h)) hrest
        (by rw [List.length_cons] at enough; omega)
      rw [hrun]
      exact ⟨report, t', rfl⟩

/-! ## Whole cycles -/

/-- Nothing is left to be removed by a publication that has succeeded. -/
theorem Concluded.notEvicted {p p' : Publication} (h : t.Concluded p report t' p') :
    p'.notEvicted = [] := by
  obtain ⟨done, sound⟩ := h.sound
  exact List.subset_nil.mp (h.failed ▸ sound.noted)

/-- What a synchronizer remembers of a cycle that succeeded. -/
theorem remembered_of_aCycle (hrun : t.run (aCycle rows listing writes) = ([.ok report], t')) :
    t'.synchronizer.running = none ∧ t'.synchronizer.published = (Snapshot.ofRows rows).1 ∧
      t'.synchronizer.known = (Snapshot.ofRows rows).1.names := by
  obtain ⟨p, concluded, -⟩ :=
    concluded_of_aCycle (fun _ => True) hrun rfl (fun _ _ _ _ _ _ => trivial) trivial
  have hsnapshot : p.snapshot = (Snapshot.ofRows rows).1 := concluded.snapshot
  have hsynchronizer := concluded.synchronizer
  refine ⟨concluded.idle, ?_, ?_⟩
  · rw [hsynchronizer]
    exact hsnapshot
  · rw [hsynchronizer]
    change Synchronizer.join p.snapshot.names p.notEvicted = _
    rw [concluded.notEvicted, hsnapshot, Synchronizer.join, List.filter_nil, List.append_nil]

/-- What a cycle that succeeds reports is what its comparison found, and what it changes is what
    its plan is about. -/
theorem reported_of_aCycle {diff : Diff}
    (hrun : t.run (aCycle rows listing writes) = ([.ok report], t'))
    (hdiff : Diff.compare t.synchronizer.published (Snapshot.ofRows rows).1
      (t.synchronizer.known ++ (t.backends.storeKeys listing).toOption.getD []) = diff) :
    (report.new = diff.new ∧ report.changed = diff.changed ∧ report.unchanged = diff.unchanged ∧
        report.evicted = diff.evict.length) ∧
      t.backends.AgreeBut ((Snapshot.ofRows rows).1.names ++ Manifest.name :: diff.evict)
        t'.backends := by
  obtain ⟨p, concluded, agree⟩ := concluded_of_aCycle
    (t.backends.AgreeBut ((Snapshot.ofRows rows).1.names ++ Manifest.name :: diff.evict)) hrun hdiff
    (fun {p b b' _ _ _ _} hsnapshot hdiff sound next tried agree => by
      have hkept : t.backends.AgreeBut _ b → t.backends.AgreeBut _ b' := sound.agreeBut next tried
      rw [hsnapshot, hdiff] at hkept
      exact hkept agree) fun _ _ _ => .refl
  have hfound : p.diff = diff := concluded.diff
  obtain ⟨-, rfl⟩ := Publication.result_eq_ok_iff.mp concluded.result
  refine ⟨⟨congrArg Diff.new hfound, congrArg Diff.changed hfound,
    congrArg Diff.unchanged hfound, ?_⟩, agree⟩
  rw [Publication.evicted, concluded.notEvicted, hfound]
  rfl

theorem succeeds_aCycle (idle : t.synchronizer.running = none) :
    t.succeeds (aCycle rows listing writes) =
      ((t.call.2.fetched (.ok rows)).2.listed listing).2.succeeds (writing writes) := by
  simp [aCycle, succeeds, completes, step, call, idle, Synchronizer.begin, RateTable.fetched,
    Synchronizer.diffing, RateTable.listed]

/-- What a store lists after a cycle that succeeded, if it could be listed in this cycle. -/
theorem stored_of_aCycle (tracked : t.Tracked fun _ => False) (working : t.Working)
    (hrun : t.run (aCycle rows listing writes) = ([.ok report], t'))
    (hlisted : (t.backends.storeKeys listing).isOk) :
    ∃ stored, t'.backends.store.keys = .ok stored ∧
      ∀ key ∈ stored, key ∈ (Snapshot.ofRows rows).1.names ∨ key = Manifest.name := by
  obtain ⟨m, -, hpublishes, -, -⟩ := publishes_of_aCycle tracked working hrun
  obtain ⟨hisOk, htells⟩ := t.store_run (aCycle rows listing writes)
  rw [hrun] at hisOk htells
  rw [← storeKeys_eq hlisted, hlisted] at hisOk
  obtain ⟨stored, hstored⟩ := exists_of_isOk hisOk
  refine ⟨stored, hstored, fun key hkey => ?_⟩
  obtain ⟨hhas, htell⟩ := (Backends.mem_keys_iff hstored).mp hkey
  exact (hpublishes.has_store_iff ⟨hlisted, htells ▸ htell⟩).mp hhas

/-- The comparison that comes out of what is remembered and listed. -/
theorem compare_of_remembered {stored : List String}
    (remembered : t.synchronizer.published = (Snapshot.ofRows rows).1 ∧
      t.synchronizer.known = (Snapshot.ofRows rows).1.names)
    (hstored : t.backends.store.keys = .ok stored)
    (hmem : ∀ key ∈ stored, key ∈ (Snapshot.ofRows rows).1.names ∨ key = Manifest.name) :
    Diff.compare t.synchronizer.published (Snapshot.ofRows rows).1
        (t.synchronizer.known ++ (t.backends.storeKeys .passed).toOption.getD []) =
      { new := 0, changed := 0, unchanged := (Snapshot.ofRows rows).1.size, evict := [] } := by
  rw [remembered.1, remembered.2, Backends.storeKeys, hstored]
  refine Diff.compare_self (Snapshot.valid_ofRows rows) fun key hkey => ?_
  exact (List.mem_append.mp hkey).elim .inl (hmem key)

/-- **Publishing the same rows again changes nothing.** After a cycle that succeeded and could list
    the store, another one that fetches the same rows, and of which nothing fails, succeeds too: it
    finds no entry new or changed and nothing to remove, as many entries unchanged as there are keys
    of accepted rows, and leaves everything in both backends as it was, but for the number and the
    time in the manifest. -/
theorem republication_changes_nothing (fresh : t.Fresh) (history : List Event)
    (hrun : (t.run history).2.run (aCycle rows listing writes) = ([.ok report], t'))
    (hlisted : ((t.run history).2.backends.storeKeys listing).isOk)
    (again : List (UInt64 × Verdict)) (hs : t'.succeeds (aCycle rows .passed again))
    (enough : 2 * ((Snapshot.ofRows rows).1.size + 1) ≤ again.length) :
    ∃ report' t'', t'.run (aCycle rows .passed again) = ([.ok report'], t'') ∧
      (report'.new = 0 ∧ report'.changed = 0 ∧ report'.evicted = 0 ∧
        report'.unchanged = (Snapshot.acceptedKeys rows).dedup.length) ∧
      (∀ backend key, key ≠ Manifest.name →
        t''.backends.get backend key = t'.backends.get backend key) ∧
      (∃ before after, t'.backends.store.keys = .ok before ∧ t''.backends.store.keys = .ok after ∧
        ∀ key, key ∈ after ↔ key ∈ before) ∧
      (∀ key, (t''.backends.cache.get? key).isSome ↔ (t'.backends.cache.get? key).isSome) ∧
      ∃ m m', (∀ backend, t'.backends.manifest? backend = some m) ∧
        (∀ backend, t''.backends.manifest? backend = some m') ∧ m'.keys = m.keys := by
  obtain ⟨m, hlists, hpublishes, -, idle⟩ :=
    publishes_of_aCycle (fresh.tracked_after history) (fresh.working_after history) hrun
  obtain ⟨before, hbefore, hstored⟩ :=
    stored_of_aCycle (fresh.tracked_after history) (fresh.working_after history) hrun hlisted
  have hdiff := compare_of_remembered (remembered_of_aCycle hrun).2 hbefore hstored
  -- the cycle comes to its end
  obtain ⟨-, -, hrunning⟩ := started_of_aCycle rows .passed idle
  rw [hdiff] at hrunning
  obtain ⟨report', t'', hagain⟩ := run_writing_of_succeeds hrunning Publication.unfailed_start
    (by simp [Publication.start, Publication.plan]) (succeeds_aCycle idle ▸ hs)
    (by
      simpa [Publication.halvesLeft, Publication.start, Publication.plan, Snapshot.size]
        using enough)
  rw [← run_aCycle idle] at hagain
  obtain ⟨⟨hnew, hchanged, hunchanged, hevicted⟩, agree⟩ := reported_of_aCycle hagain hdiff
  obtain ⟨m', hlists', hentry', hmanifest'⟩ := shows_of_aCycle hagain
  have hsame : ∀ backend key, key ≠ Manifest.name →
      Backends.Same t'.backends t''.backends backend key := by
    intro backend key hne
    by_cases hname : key ∈ (Snapshot.ofRows rows).1.names
    · obtain ⟨e, he, rfl⟩ := Snapshot.mem_names_iff.mp hname
      exact (hpublishes.entry e he backend).same (hentry' e he backend)
    · exact agree backend key (by simp [hname, hne])
  have hhas : ∀ backend key, t''.backends.Has backend key ↔ t'.backends.Has backend key := by
    intro backend key
    by_cases hne : key = Manifest.name
    · rw [hne]
      exact iff_of_true (Backends.has_of_get (hmanifest' backend).get)
        (Backends.has_of_get (hpublishes.manifest backend).get)
    · exact (hsame backend key hne).has
  have hkeys : m'.keys = m.keys := by
    refine hlists'.ascending.eq_of_mem_iff hlists.ascending fun key => ?_
    rw [hlists'.mem_keys, hlists.mem_keys]
  refine ⟨report', t'', hagain, ⟨hnew, hchanged, hevicted, ?_⟩,
    fun backend key hne => (hsame backend key hne).get, ?_, fun key => hhas .cache key, m, m',
    fun backend => (hpublishes.manifest backend).manifest? hlists,
    fun backend => (hmanifest' backend).manifest? hlists', hkeys⟩
  · rw [hunchanged, Snapshot.size_ofRows]
  · obtain ⟨hisOk, htells⟩ := t'.store_run (aCycle rows .passed again)
    rw [hagain] at hisOk htells
    obtain ⟨after, hafter⟩ := exists_of_isOk (hisOk.trans (by rw [hbefore]; rfl))
    refine ⟨before, after, hbefore, hafter, fun key => ?_⟩
    rw [Backends.mem_keys_iff hafter, Backends.mem_keys_iff hbefore, hhas, htells]

/-- Two rows with one key, and one that is refused. -/
def repeatedRows : List Row :=
  [rowFor "10.0.0.1", { rowFor "10.0.0.2" with probability := 2.0 }, rowFor "10.0.0.1"]

/-- A table that has published the rows, after a cycle that was cut off. -/
def repeatedTable : RateTable :=
  (((blank .zero).run cutCycle).2.run
    (aCycle repeatedRows .passed (List.replicate 4 (9, .passed)))).2

theorem run_repeatedRows :
    ((blank .zero).run cutCycle).2.run
      (aCycle repeatedRows .passed (List.replicate 4 (9, .passed))) =
      ([.ok { cycle := 2, rowsFetched := 3, rejected := 1, new := 1, changed := 0, unchanged := 0
              evicted := 0 }], repeatedTable) :=
  Prod.ext (eq_of_map_toOption (by decide +kernel)) rfl

theorem republication_changes_nothing_repeatedTable :
    repeatedTable.succeeds (aCycle repeatedRows .passed (List.replicate 4 (10, .passed))) ∧
      ∃ report t',
        repeatedTable.run (aCycle repeatedRows .passed (List.replicate 4 (10, .passed))) =
          ([.ok report], t') ∧
        report.new = 0 ∧ report.unchanged = (Snapshot.acceptedKeys repeatedRows).dedup.length ∧
        (Snapshot.acceptedKeys repeatedRows).length = 2 ∧
        (Snapshot.acceptedKeys repeatedRows).dedup.length = 1 ∧
        ∀ backend key, key ≠ Manifest.name →
          t'.backends.get backend key = repeatedTable.backends.get backend key := by
  have hs :
      repeatedTable.succeeds (aCycle repeatedRows .passed (List.replicate 4 (10, .passed))) := by
    decide +kernel
  obtain ⟨report, t', hagain, ⟨hnew, -, -, hunchanged⟩, hget, -⟩ :=
    republication_changes_nothing (fresh_blank .zero) cutCycle run_repeatedRows rfl _ hs
      (by decide +kernel)
  exact ⟨hs, report, t', hagain, hnew, hunchanged, by decide +kernel, by decide +kernel, hget⟩

end RateTable

end Roster
