import Roster.Proofs.Sync.Known
import Roster.Proofs.Table.Manifest

/-!
# What a successful cycle leaves behind

A cycle is successful if none of its tasks failed, and then every one of them is settled: that is
where the content of both backends comes from (`Backends.Publishes.entry`, `.manifest`). That there
is nothing else comes from the other side, from the keys that the cycle started with. The cache
cannot be listed, so for the cache they have to be known, which is what `known_covers` is about; for
the store it is enough that this one listing was had.

None of this looks at what happened before, except through `Tracked`.
-/

namespace Roster

/-- A manifest that a cycle may publish with a snapshot. -/
structure Manifest.Lists (m : Manifest) (snapshot : Snapshot) (cycle : UInt64) : Prop where
  cycle : m.cycle = cycle.toNat
  publishedAt : m.publishedAt < 2 ^ 64
  ascending : m.keys.Pairwise (· < ·)
  mem_keys : ∀ key, key ∈ m.keys ↔ key ∈ snapshot.names

/-- Both backends show a snapshot with its manifest, and have nothing else as far
    as they are watched. -/
structure Backends.Publishes (b : Backends) (snapshot : Snapshot) (m : Manifest)
    (watched : String → Prop) : Prop where
  entry : ∀ e ∈ snapshot.entries, ∀ backend, b.Shows backend e.key.render (some e.encode)
  manifest : ∀ backend, b.Shows backend Manifest.name (some m.encode)
  only : b.Covered watched snapshot.names

namespace Backends.Publishes

variable {b : Backends} {snapshot : Snapshot} {m : Manifest} {watched : String → Prop}
  {key : String}

theorem exists_value (h : b.Publishes snapshot m watched)
    (hkey : key ∈ snapshot.names ∨ key = Manifest.name) (backend : Backend) :
    ∃ value, b.get backend key = .ok (some value) := by
  rcases hkey with hname | rfl
  · obtain ⟨e, he, rfl⟩ := Snapshot.mem_names_iff.mp hname
    exact ⟨_, (h.entry e he backend).get⟩
  · exact ⟨_, (h.manifest backend).get⟩

theorem has_store_iff (h : b.Publishes snapshot m watched) (hw : watched key) :
    b.Has .store key ↔ key ∈ snapshot.names ∨ key = Manifest.name := by
  constructor
  · intro hhas
    by_cases hname : key = Manifest.name
    · exact .inr hname
    · exact .inl (h.only key hname (.inr ⟨hw, hhas⟩))
  · intro hkey
    obtain ⟨value, hvalue⟩ := h.exists_value hkey .store
    exact has_of_get hvalue

theorem get_store_iff (h : b.Publishes snapshot m watched) (hw : watched key) :
    (∃ value, b.get .store key = .ok (some value)) ↔
      key ∈ snapshot.names ∨ key = Manifest.name := by
  constructor
  · rintro ⟨value, hvalue⟩
    exact (h.has_store_iff hw).mp (has_of_get hvalue)
  · intro hkey
    exact h.exists_value hkey .store

theorem cache_iff (h : b.Publishes snapshot m watched) :
    (b.cache.get? key).isSome ↔ key ∈ snapshot.names ∨ key = Manifest.name := by
  constructor
  · intro hcache
    by_cases hname : key = Manifest.name
    · exact .inr hname
    · exact .inl (h.only key hname (.inl hcache))
  · intro hkey
    obtain ⟨value, hvalue⟩ := h.exists_value hkey .cache
    simp only [get, Except.ok.injEq] at hvalue
    simp [hvalue]

end Backends.Publishes

theorem Manifest.Lists.decode? {m : Manifest} {snapshot : Snapshot} {cycle : UInt64}
    (h : m.Lists snapshot cycle) : Manifest.decode? m.encode = some m := by
  refine decode?_encode ?_ h.publishedAt
  rw [h.cycle]
  exact UInt64.toNat_lt _

/-- The reserved name and the keys of a snapshot are names that a store can list. -/
theorem Snapshot.ne_empty_of_published {snapshot : Snapshot} {key : String}
    (h : key ∈ snapshot.names ∨ key = Manifest.name) : key ≠ "" := by
  rintro rfl
  rcases h with hname | hname
  · exact empty_not_mem_names snapshot hname
  · exact absurd hname (by decide)

namespace Publication

variable {p : Publication} {b : Backends} {cycle time : UInt64} {done : List Task}
  {watched : String → Prop} {report : CycleReport}

/-- The manifest of a publication lists its snapshot. -/
theorem lists_manifest (h : p.snapshot.Valid) (cycle time : UInt64) :
    (p.manifest cycle time).Lists p.snapshot cycle where
  cycle := rfl
  publishedAt := time.toNat_lt
  ascending := Diff.pairwise_mergeSort (Snapshot.nodup_names h)
  mem_keys key := by rw [manifest, List.mem_mergeSort]

/-- When all tasks are done and none has failed, both backends show the snapshot. -/
theorem Sound.shows (h : p.Sound cycle b done) (left : p.tasks = []) (ok : p.failed = []) :
    ∃ m : Manifest, m.Lists p.snapshot cycle ∧
      (∀ e ∈ p.snapshot.entries, ∀ backend, b.Shows backend e.key.render (some e.encode)) ∧
      ∀ backend, b.Shows backend Manifest.name (some m.encode) := by
  have hdone : p.whole = done := by
    rw [h.plan, left, List.append_nil]
  have settled := h.settled_of_unfailed ok
  rw [← hdone] at settled
  obtain ⟨time, hmanifest⟩ := settled .manifest manifest_mem_whole
  refine ⟨p.manifest cycle time, lists_manifest h.formed.valid cycle time, ?_, hmanifest⟩
  intro e he backend
  obtain ⟨_, hentry⟩ := settled (.entry e) (mem_whole_entry_iff.mpr he)
  exact hentry backend

/-- **When all tasks are done and none has failed, the snapshot is published.** -/
theorem Sound.publishes (h : p.Sound cycle b done) (left : p.tasks = []) (ok : p.failed = [])
    (hc : b.Covered watched (p.snapshot.names ++ p.diff.evict)) :
    ∃ m : Manifest, m.Lists p.snapshot cycle ∧ b.Publishes p.snapshot m watched := by
  obtain ⟨m, hlists, hentry, hmanifest⟩ := h.shows left ok
  refine ⟨m, hlists, hentry, hmanifest, ?_⟩
  have hnone : p.notEvicted = [] := List.subset_nil.mp (ok ▸ h.noted)
  -- The keys whose removal failed are among the failures, of which there are none.
  have hcovered := h.covered_of_done left hc
  rw [hnone] at hcovered
  exact hcovered.mono fun key _ hkey => by simpa [Synchronizer.mem_join_iff] using hkey

/-- A publication succeeds if and only if no task has failed, and reports what it had to do. -/
theorem result_eq_ok_iff : p.result cycle = .ok report ↔ p.failed = [] ∧ report =
    { cycle := cycle.toNat, rowsFetched := p.rowsFetched, rejected := p.rejected, new := p.diff.new
      changed := p.diff.changed, unchanged := p.diff.unchanged, evicted := p.evicted } := by
  unfold result
  cases p.failed with
  | nil => simp [eq_comm]
  | cons key rest => simp

end Publication

namespace RateTable

variable {t t' : RateTable} {report : CycleReport} {writes : List (UInt64 × Verdict)}

/-- The events by which a publication goes on, one for each write. -/
def writing (writes : List (UInt64 × Verdict)) : List Event :=
  writes.map fun (time, verdict) => .wrote time verdict

theorem run_writing_of_idle (h : t.synchronizer.running = none) (writes : List (UInt64 × Verdict)) :
    t.run (writing writes) = ([], t) := by
  induction writes with
  | nil => rfl
  | cons w rest ih =>
    have hstep : t.step (.wrote w.1 w.2) = (none, t) := by
      simp [step, wrote, h]
    change t.run (.wrote w.1 w.2 :: writing rest) = _
    simp [run, hstep, ih]

/-- A publication that began as `p` in `t` and has come to a report in `t'`. -/
structure Concluded (t : RateTable) (p : Publication) (report : CycleReport) (t' : RateTable)
    (p' : Publication) : Prop where
  snapshot : p'.snapshot = p.snapshot
  diff : p'.diff = p.diff
  sound : ∃ done, p'.Sound t.synchronizer.cycles t'.backends done
  left : p'.tasks = []
  result : p'.result t.synchronizer.cycles = .ok report
  synchronizer : t'.synchronizer = (t.synchronizer.conclude p').finish (.ok report)

namespace Concluded

variable {p p' : Publication}

theorem failed (h : t.Concluded p report t' p') : p'.failed = [] :=
  (Publication.result_eq_ok_iff.mp h.result).1

theorem cycle (h : t.Concluded p report t' p') : report.cycle = t.synchronizer.cycles.toNat := by
  rw [(Publication.result_eq_ok_iff.mp h.result).2]

theorem idle (h : t.Concluded p report t' p') : t'.synchronizer.running = none := by
  rw [h.synchronizer]
  rfl

theorem cycles (h : t.Concluded p report t' p') :
    t'.synchronizer.cycles = t.synchronizer.cycles := by
  rw [h.synchronizer]
  rfl

end Concluded

/-- A successful cycle from the point on at which it has something to publish. Whatever each change
    of the publication keeps holds of the backends in the end. -/
theorem concluded_of_writing {p : Publication} (inv : Backends → Prop)
    (running : t.synchronizer.running = some (.publishing p)) (hw : t.Working)
    (keeps : ∀ {p' : Publication} {b b' : Backends} {done : List Task} {time : UInt64} {w : Write},
      p'.snapshot = p.snapshot → p'.diff = p.diff → p'.Sound t.synchronizer.cycles b done →
      p'.next? t.synchronizer.cycles time = some w → b.Tried w b' → inv b → inv b')
    (hinv : inv t.backends) (hrun : t.run (writing writes) = ([.ok report], t')) :
    ∃ p', t.Concluded p report t' p' ∧ inv t'.backends := by
  induction writes generalizing t p with
  | nil => cases hrun
  | cons w rest ih =>
    obtain ⟨time, verdict⟩ := w
    change t.run (.wrote time verdict :: writing rest) = _ at hrun
    have hworking := working_step hw (.wrote time verdict)
    have htransition := transition_step t (.wrote time verdict)
    simp only [run] at hrun
    generalize hresult : (t.step (.wrote time verdict)).1 = result at hrun htransition
    generalize ht₁ : (t.step (.wrote time verdict)).2 = t₁ at hrun htransition hworking
    cases htransition with
    | ignored => exact ih running hw keeps hinv hrun
    | @advanced p₀ p₁ _ _ w l running' next advance left =>
      cases running.symm.trans running'
      obtain ⟨done, sound⟩ := hw.sound p running
      obtain ⟨hsnapshot, hdiff⟩ := p.advance_fixed w (t.backends.write w verdict).1.isOk
      rw [← advance] at hsnapshot hdiff
      obtain ⟨p', concluded, hinv'⟩ := ih rfl hworking
        (fun hs hd => keeps (hs.trans hsnapshot) (hd.trans hdiff))
        (keeps rfl rfl sound next (t.backends.tried_write w verdict) hinv) hrun
      exact ⟨p', { concluded with
        snapshot := concluded.snapshot.trans hsnapshot
        diff := concluded.diff.trans hdiff }, hinv'⟩
    | @concluded p₀ p' _ _ w l running' next advance left =>
      cases running.symm.trans running'
      obtain ⟨done, sound⟩ := hw.sound p running
      obtain ⟨hsnapshot, hdiff⟩ := p.advance_fixed w (t.backends.write w verdict).1.isOk
      obtain ⟨done', sound'⟩ := sound.advance next (t.backends.tried_write w verdict)
        Backends.shows_of_ok
      rw [← advance] at hsnapshot hdiff sound'
      -- This was the last change, so the result is this one and the state does not change any more.
      rw [run_writing_of_idle rfl] at hrun
      obtain ⟨hreport, rfl⟩ := Prod.mk.inj hrun
      have hok : p'.result t.synchronizer.cycles = .ok report := by simpa using hreport
      exact ⟨p', ⟨hsnapshot, hdiff, ⟨done', sound'⟩, left, hok, by rw [hok]⟩,
        keeps rfl rfl sound next (t.backends.tried_write w verdict) hinv⟩

/-- Writes that end in a report have published the snapshot. -/
theorem publishes_of_writing (watched : String → Prop) {p : Publication}
    (running : t.synchronizer.running = some (.publishing p)) (hw : t.Working)
    (hc : t.backends.Covered watched (p.snapshot.names ++ p.diff.evict))
    (hrun : t.run (writing writes) = ([.ok report], t')) :
    ∃ m : Manifest, m.Lists p.snapshot t.synchronizer.cycles ∧
      t'.backends.Publishes p.snapshot m watched ∧ report.cycle = t.synchronizer.cycles.toNat ∧
      t'.synchronizer.running = none ∧ t'.synchronizer.cycles = t.synchronizer.cycles := by
  obtain ⟨p', concluded, hcovered⟩ :=
    concluded_of_writing (fun b => b.Covered watched (p.snapshot.names ++ p.diff.evict)) running hw
      (fun hs hd sound next tried hcovered => by
        rw [← hs, ← hd] at hcovered ⊢
        exact sound.covered_of_tried next tried hcovered)
      hc hrun
  obtain ⟨done, sound⟩ := concluded.sound
  rw [← concluded.snapshot, ← concluded.diff] at hcovered
  obtain ⟨m, hm, hpublishes⟩ := sound.publishes concluded.left concluded.failed hcovered
  rw [concluded.snapshot] at hm hpublishes
  exact ⟨m, hm, hpublishes, concluded.cycle, concluded.idle, concluded.cycles⟩

/-! ## Whole cycles -/

/-- What happens in a cycle that is not cut off, from the call to the last change. -/
def aCycle (rows : List Row) (listing : Verdict) (writes : List (UInt64 × Verdict)) : List Event :=
  .call :: .fetched (.ok rows) :: .listed listing :: writing writes

variable {rows : List Row} {listing : Verdict}

/-- A cycle that is not refused comes to what its publication comes to. -/
theorem run_aCycle (idle : t.synchronizer.running = none) :
    t.run (aCycle rows listing writes) =
      (((t.call.2.fetched (.ok rows)).2.listed listing).2.run (writing writes)) := by
  simp [aCycle, run, step, call, idle, Synchronizer.begin, RateTable.fetched, Synchronizer.diffing,
    RateTable.listed]

theorem idle_of_run_aCycle (h : t.run (aCycle rows listing writes) = ([.ok report], t')) :
    t.synchronizer.running = none := by
  cases hr : t.synchronizer.running with
  | none => rfl
  | some phase =>
    have hresults := congrArg Prod.fst h
    simp [aCycle, run, step, call, hr] at hresults

/-- No event changes what the store can be asked for. -/
theorem store_step (t : RateTable) (e : Event) :
    (t.step e).2.backends.store.keys.isOk = t.backends.store.keys.isOk ∧
      (t.step e).2.backends.store.Tells = t.backends.store.Tells := by
  rcases t.touched_step e with hsame | ⟨p, time, w, -, -, tried⟩
  · rw [hsame]
    exact ⟨rfl, rfl⟩
  · exact ⟨tried.keys, tried.tells⟩

theorem store_run (t : RateTable) (events : List Event) :
    (t.run events).2.backends.store.keys.isOk = t.backends.store.keys.isOk ∧
      (t.run events).2.backends.store.Tells = t.backends.store.Tells := by
  refine run_induction (P := fun t' => t'.backends.store.keys.isOk = t.backends.store.keys.isOk ∧
    t'.backends.store.Tells = t.backends.store.Tells) (fun t' e h => ?_) ⟨rfl, rfl⟩
  obtain ⟨hkeys, htells⟩ := t'.store_step e
  exact ⟨hkeys.trans h.1, htells.trans h.2⟩

theorem exists_of_isOk {ε α : Type} {answer : Except ε α} (h : answer.isOk) :
    ∃ a, answer = .ok a := by
  cases answer with
  | error e => cases h
  | ok a => exact ⟨a, rfl⟩

theorem storeKeys_eq {b : Backends} (h : (b.storeKeys listing).isOk) :
    b.storeKeys listing = b.store.keys := by
  cases listing with
  | passed => rfl
  | refused error => cases h
  | lost error => cases h

/-- What is known or listed is published or on the list of what to remove. -/
theorem covered_of_listing (hc : t.backends.Covered (fun _ => False) t.synchronizer.known)
    (snapshot : Snapshot) (listing : Verdict) :
    t.backends.Covered (fun key => (t.backends.storeKeys listing).isOk ∧ t.backends.store.Tells key)
      (snapshot.names ++ Diff.toEvict snapshot
        (t.synchronizer.known ++ (t.backends.storeKeys listing).toOption.getD [])) := by
  intro key hne hhas
  -- It is enough that the key is among those that are compared with the snapshot.
  suffices hpresent : key ∈ t.synchronizer.known ++
      (t.backends.storeKeys listing).toOption.getD [] by
    rw [List.mem_append, Diff.mem_toEvict_iff]
    by_cases hname : key ∈ snapshot.names
    · exact .inl hname
    · exact .inr ⟨hpresent, hne, hname⟩
  rw [List.mem_append]
  rcases hhas with hcache | ⟨⟨hok, htells⟩, hstore⟩
  · exact .inl (hc key hne (.inl hcache))
  · obtain ⟨listed, hlisted⟩ := exists_of_isOk hok
    have hkeys := (storeKeys_eq hok).symm.trans hlisted
    rw [hlisted]
    exact .inr ((Backends.mem_keys_iff hkeys).mpr ⟨hstore, htells⟩)

/-- Where a cycle stands when it has fetched and listed: the backends are as they were, and
    everything is still to be published. -/
theorem started_of_aCycle (rows : List Row) (listing : Verdict)
    (idle : t.synchronizer.running = none) :
    ((t.call.2.fetched (.ok rows)).2.listed listing).2.backends = t.backends ∧
      ((t.call.2.fetched (.ok rows)).2.listed listing).2.synchronizer.cycles =
        t.synchronizer.cycles + 1 ∧
      ((t.call.2.fetched (.ok rows)).2.listed listing).2.synchronizer.running =
        some (.publishing (.start (Snapshot.ofRows rows).1 rows.length
          (Snapshot.ofRows rows).2.length
          (Diff.compare t.synchronizer.published (Snapshot.ofRows rows).1
            (t.synchronizer.known ++ (t.backends.storeKeys listing).toOption.getD [])))) := by
  simp [call, idle, Synchronizer.begin, RateTable.fetched, Synchronizer.diffing, RateTable.listed,
    Synchronizer.publishing]

theorem working_of_aCycle (working : t.Working) :
    ((t.call.2.fetched (.ok rows)).2.listed listing).2.Working :=
  working_step (working_step (working_step working .call) (.fetched (.ok rows))) (.listed listing)

/-- A successful cycle, whatever came before it. The store is watched if it has been listed. -/
theorem publishes_of_aCycle (tracked : t.Tracked fun _ => False) (working : t.Working)
    (hrun : t.run (aCycle rows listing writes) = ([.ok report], t')) :
    ∃ m : Manifest, m.Lists (Snapshot.ofRows rows).1 (t.synchronizer.cycles + 1) ∧
      t'.backends.Publishes (Snapshot.ofRows rows).1 m
        (fun key => (t.backends.storeKeys listing).isOk ∧ t.backends.store.Tells key) ∧
      report.cycle = (t.synchronizer.cycles + 1).toNat ∧ t'.synchronizer.running = none := by
  have idle := idle_of_run_aCycle hrun
  rw [run_aCycle idle] at hrun
  obtain ⟨hbackends, hcycles, hrunning⟩ := started_of_aCycle rows listing idle
  have hcovered := covered_of_listing tracked.known (Snapshot.ofRows rows).1 listing
  obtain ⟨m, hlists, hpublishes, hreport, hidle, -⟩ :=
    publishes_of_writing _ hrunning (working_of_aCycle working)
      (by rw [hbackends]; exact hcovered) hrun
  rw [hcycles] at hlists hreport
  exact ⟨m, hlists, hpublishes, hreport, hidle⟩

/-- A successful cycle comes to the end of the publication of its rows, with the changes that its
    comparison asks for. Whatever each of these changes keeps holds of the backends in the end. -/
theorem concluded_of_aCycle (inv : Backends → Prop) {diff : Diff}
    (hrun : t.run (aCycle rows listing writes) = ([.ok report], t'))
    (hdiff : Diff.compare t.synchronizer.published (Snapshot.ofRows rows).1
      (t.synchronizer.known ++ (t.backends.storeKeys listing).toOption.getD []) = diff)
    (keeps : ∀ {p : Publication} {b b' : Backends} {cycle time : UInt64}
      {done : List Task} {w : Write},
      p.snapshot = (Snapshot.ofRows rows).1 → p.diff = diff → p.Sound cycle b done →
      p.next? cycle time = some w → b.Tried w b' → inv b → inv b') (hinv : inv t.backends) :
    ∃ p, ((t.call.2.fetched (.ok rows)).2.listed listing).2.Concluded
        (.start (Snapshot.ofRows rows).1 rows.length (Snapshot.ofRows rows).2.length diff)
          report t' p ∧
      inv t'.backends := by
  have idle := idle_of_run_aCycle hrun
  rw [run_aCycle idle] at hrun
  obtain ⟨hbackends, -, hrunning⟩ := started_of_aCycle rows listing idle
  rw [hdiff] at hrunning
  rw [← hbackends] at hinv
  exact concluded_of_writing inv hrunning (working_of_aCycle (working_of_idle idle)) keeps hinv hrun

/-- What a successful cycle publishes is there even if nothing is known of what was there before. -/
theorem shows_of_aCycle (hrun : t.run (aCycle rows listing writes) = ([.ok report], t')) :
    ∃ m : Manifest, m.Lists (Snapshot.ofRows rows).1 (t.synchronizer.cycles + 1) ∧
      (∀ e ∈ (Snapshot.ofRows rows).1.entries, ∀ backend,
        t'.backends.Shows backend e.key.render (some e.encode)) ∧
      ∀ backend, t'.backends.Shows backend Manifest.name (some m.encode) := by
  obtain ⟨p, concluded, -⟩ :=
    concluded_of_aCycle (fun _ => True) hrun rfl (fun _ _ _ _ _ _ => trivial) trivial
  obtain ⟨done, sound⟩ := concluded.sound
  obtain ⟨m, hlists, hentry, hmanifest⟩ := sound.shows concluded.left concluded.failed
  rw [concluded.snapshot, (started_of_aCycle rows listing (idle_of_run_aCycle hrun)).2.1] at hlists
  rw [concluded.snapshot] at hentry
  exact ⟨m, hlists, hentry, hmanifest⟩

/-- **Whatever happened before, a cycle that succeeds leaves exactly its snapshot behind**: the
    cache holds its keys and the manifest, both backends hold the same octets under them, and so
    does the store, which has no other keys, if it could be listed in this cycle. -/
theorem cycle_converges (fresh : t.Fresh) (history : List Event)
    (hrun : (t.run history).2.run (aCycle rows listing writes) = ([.ok report], t')) :
    (∀ key, (t'.backends.cache.get? key).isSome ↔
        key ∈ (Snapshot.ofRows rows).1.names ∨ key = Manifest.name) ∧
      (∀ e ∈ (Snapshot.ofRows rows).1.entries, ∀ backend,
        t'.backends.get backend e.key.render = .ok (some e.encode)) ∧
      (∃ m : Manifest, Manifest.decode? m.encode = some m ∧
        (∀ backend, t'.backends.get backend Manifest.name = .ok (some m.encode)) ∧
        m.cycle = report.cycle ∧ m.cycle = ((t.run history).2.synchronizer.cycles + 1).toNat ∧
        m.keys.Pairwise (· < ·) ∧ ∀ key, key ∈ m.keys ↔ key ∈ (Snapshot.ofRows rows).1.names) ∧
      (((t.run history).2.backends.storeKeys listing).isOk →
        (∃ keys, t'.backends.store.keys = .ok keys ∧
          ∀ key, key ∈ keys ↔ key ∈ (Snapshot.ofRows rows).1.names ∨ key = Manifest.name) ∧
        ∀ key, key ≠ "" → ((∃ value, t'.backends.get .store key = .ok (some value)) ↔
          key ∈ (Snapshot.ofRows rows).1.names ∨ key = Manifest.name)) := by
  obtain ⟨m, hlists, hpublishes, hreport, -⟩ :=
    publishes_of_aCycle (fresh.tracked_after history) (fresh.working_after history) hrun
  refine ⟨fun key => hpublishes.cache_iff, fun e he backend => (hpublishes.entry e he backend).get,
    ⟨m, hlists.decode?, fun backend => (hpublishes.manifest backend).get, ?_, hlists.cycle,
      hlists.ascending, hlists.mem_keys⟩, fun hlisted => ⟨?_, fun key hne => ?_⟩⟩
  · rw [hlists.cycle, hreport]
  · -- what could be listed before can be listed now, and the same keys are told of
    obtain ⟨hisOk, htells⟩ := (t.run history).2.store_run (aCycle rows listing writes)
    rw [hrun] at hisOk htells
    rw [← storeKeys_eq hlisted, hlisted] at hisOk
    obtain ⟨keys, hkeys⟩ := exists_of_isOk hisOk
    refine ⟨keys, hkeys, fun key => ?_⟩
    rw [Backends.mem_keys_iff hkeys, htells]
    constructor
    · rintro ⟨hhas, htell⟩
      exact (hpublishes.has_store_iff ⟨hlisted, htell⟩).mp hhas
    · intro hkey
      have htell := Backends.tells_of_ne (t.run history).2.backends.store
        (Snapshot.ne_empty_of_published hkey)
      exact ⟨(hpublishes.has_store_iff ⟨hlisted, htell⟩).mpr hkey, htell⟩
  · exact hpublishes.get_store_iff ⟨hlisted, Backends.tells_of_ne _ hne⟩

theorem eq_of_map_toOption {results : List CycleResult}
    (h : results.map Except.toOption = [some report]) : results = [.ok report] := by
  obtain ⟨result, rfl, hresult⟩ := List.map_eq_singleton_iff.mp h
  cases result with
  | error e => cases hresult
  | ok r => cases hresult; rfl

/-- A cycle that removes what a cycle before it put and was cut off. -/
theorem run_after_cutCycle :
    ((blank .zero).run cutCycle).2.run
        (aCycle [rowFor "10.0.0.2"] .passed (List.replicate 6 (9, .passed))) =
      ([.ok { cycle := 2, rowsFetched := 1, rejected := 0, new := 1, changed := 0, unchanged := 0
              evicted := 1 }],
        (((blank .zero).run cutCycle).2.run
          (aCycle [rowFor "10.0.0.2"] .passed (List.replicate 6 (9, .passed)))).2) :=
  Prod.ext (eq_of_map_toOption (by decide +kernel)) rfl

theorem cycle_converges_after_cutCycle :
    ∃ report t', ((blank .zero).run cutCycle).2.run
        (aCycle [rowFor "10.0.0.2"] .passed (List.replicate 6 (9, .passed))) = ([.ok report], t') ∧
      (∀ key, (t'.backends.cache.get? key).isSome ↔
        key ∈ (Snapshot.ofRows [rowFor "10.0.0.2"]).1.names ∨ key = Manifest.name) ∧
      ∃ keys, t'.backends.store.keys = .ok keys ∧ ∀ key, key ∈ keys ↔
        key ∈ (Snapshot.ofRows [rowFor "10.0.0.2"]).1.names ∨ key = Manifest.name := by
  have hcycle := cycle_converges (fresh_blank .zero) cutCycle run_after_cutCycle
  exact ⟨_, _, run_after_cutCycle, hcycle.1, (hcycle.2.2.2 rfl).1⟩

end RateTable

end Roster
