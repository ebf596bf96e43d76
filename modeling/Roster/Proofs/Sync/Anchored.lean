import Roster.Proofs.Sync.Convergence

/-!
# Manifests and what they list

A reader that has a manifest goes on to look up the keys on it, so those keys had better be there.
As long as operations that are completed succeed, they are, between any two operations and however
cycles are cut off: `Backends.Anchored`.

The store and the cache may hold manifests of different cycles for a while, even for many cycles
that are all cut off in between, and a publication knows nothing of them. It does not have to.
Before both manifests are its own it only puts entries, which takes no key away from anybody; after
that both list the keys of its snapshot, of which it removes none. What makes this an argument is
the order of the plan, and `Sound` says what is settled when a task has its turn.

A change that was on its way when a cycle was cut is not known to have succeeded, so for it
there is only `Tried`: its key shows what it showed before or what the change was to bring
about. Either will do.
-/

namespace Roster

namespace Backends

variable {b b' : Backends} {backend : Backend} {key : String} {w : Write}

/-- A key has a value in a backend. -/
def Present (b : Backends) (backend : Backend) (key : String) : Prop :=
  ∃ value, b.get backend key = .ok (some value)

/-- The manifest that a backend holds, if it holds one. -/
def manifest? (b : Backends) (backend : Backend) : Option Manifest :=
  (b.get backend Manifest.name).toOption.join.bind Manifest.decode?

/-- Every key that is on a manifest is in the store, and also in the cache if the manifest is. -/
structure Anchored (b : Backends) : Prop where
  store : ∀ m, b.manifest? .store = some m → ∀ key ∈ m.keys, b.Present .store key
  cache : ∀ m, b.manifest? .cache = some m → ∀ key ∈ m.keys,
    b.Present .cache key ∧ b.Present .store key

theorem Shows.present {value : ByteArray} (h : b.Shows backend key (some value)) :
    b.Present backend key :=
  ⟨value, h.get⟩

theorem Shows.manifest? {m : Manifest} {snapshot : Snapshot} {cycle : UInt64}
    (h : b.Shows backend Manifest.name (some m.encode)) (hm : m.Lists snapshot cycle) :
    b.manifest? backend = some m := by
  simp [Backends.manifest?, h.get, Except.toOption, hm.decode?]

theorem Same.present (h : Same b b' backend key) :
    b'.Present backend key ↔ b.Present backend key := by
  rw [Present, Present, h.get]

theorem Same.manifest? (h : Same b b' backend Manifest.name) :
    b'.manifest? backend = b.manifest? backend := by
  rw [Backends.manifest?, Backends.manifest?, h.get]

/-- A change that puts a value takes none away. -/
theorem Tried.present (tried : b.Tried w b') (hput : w.content ≠ none) (h : b.Present backend key) :
    b'.Present backend key := by
  by_cases hown : backend = w.backend ∧ key = w.key
  · obtain ⟨rfl, rfl⟩ := hown
    rcases tried.own with hsame | hshows
    · exact hsame.present.mpr h
    · obtain ⟨value, hvalue⟩ := Option.ne_none_iff_exists'.mp hput
      rw [hvalue] at hshows
      exact hshows.present
  · exact (tried.other backend key hown).present.mpr h

/-- It is enough that a manifest that was there keeps its keys, and that one that was not has
    them. -/
theorem Anchored.kept (ha : b.Anchored)
    (manifests : ∀ backend m, b'.manifest? backend = some m →
      b.manifest? backend = some m ∨ ∀ key ∈ m.keys, ∀ backend, b'.Present backend key)
    (keys : ∀ holder m, b.manifest? holder = some m → ∀ key ∈ m.keys, ∀ backend,
      b.Present backend key → b'.Present backend key) : b'.Anchored := by
  constructor
  · intro m hm key hkey
    rcases manifests .store m hm with hbefore | hpresent
    · exact keys .store m hbefore key hkey .store (ha.store m hbefore key hkey)
    · exact hpresent key hkey .store
  · intro m hm key hkey
    rcases manifests .cache m hm with hbefore | hpresent
    · obtain ⟨hcache, hstore⟩ := ha.cache m hbefore key hkey
      exact ⟨keys .cache m hbefore key hkey .cache hcache,
        keys .cache m hbefore key hkey .store hstore⟩
    · exact ⟨hpresent key hkey .cache, hpresent key hkey .store⟩

end Backends

namespace Publication

variable {p : Publication} {b b' : Backends} {cycle time : UInt64} {done rest : List Task}
  {task : Task} {w : Write} {ok : Bool}

/-- Everything that has been tried of a publication so far has worked. -/
structure Unfailed (p : Publication) : Prop where
  failed : p.failed = []
  stored : ∀ half, p.half = some half → half.stored

theorem unfailed_start {snapshot : Snapshot} {rowsFetched rejected : Nat} {diff : Diff} :
    (start snapshot rowsFetched rejected diff).Unfailed :=
  ⟨rfl, nofun⟩

theorem Unfailed.advance (h : p.Unfailed) (w : Write) : (p.advance w true).Unfailed := by
  have settled : (p.settle true).Unfailed := by
    unfold settle
    split
    · exact h
    · exact ⟨h.failed, nofun⟩
  unfold Publication.advance
  split
  · exact h
  · next half _ hhalf =>
    rw [h.stored half hhalf]
    exact settled
  · refine ⟨h.failed, ?_⟩
    rintro half heq
    cases heq
    rfl

/-- **No change of a publication leaves a manifest with a key that is not there**, whatever
    becomes of the change. -/
theorem Sound.anchored_of_tried (h : p.Sound cycle b done) (hu : p.failed = [])
    (hw : p.next? cycle time = some w) (tried : b.Tried w b') (ha : b.Anchored) : b'.Anchored := by
  obtain ⟨task, rest, time', htasks, hkey, hcontent⟩ := h.next?_spec hw
  have settled := h.settled_of_unfailed hu
  have hplan := h.plan
  rw [htasks] at hplan
  cases task with
  | entry e =>
    -- no manifest is touched, and no key is taken away
    have hput : w.content ≠ none := by
      rw [hcontent]
      nofun
    refine ha.kept (fun backend m hm => .inl ?_) fun _ _ _ _ _ _ hpresent =>
      tried.present hput hpresent
    refine (tried.other backend Manifest.name fun hown => ?_).manifest?.symm.trans hm
    exact Key.render_ne_name e.key (hkey.symm.trans hown.2.symm)
  | manifest =>
    -- a manifest that is new lists entries that are settled
    have hput : w.content ≠ none := by
      rw [hcontent]
      nofun
    have hdone := (split_at_manifest hplan).1
    have names : ∀ key ∈ p.snapshot.names, ∀ backend, b'.Present backend key := by
      intro key hname backend
      obtain ⟨e, he, rfl⟩ := Snapshot.mem_names_iff.mp hname
      obtain ⟨_, hshows⟩ := settled (.entry e) (hdone ▸ List.mem_map_of_mem he)
      exact tried.present hput (hshows backend).present
    refine ha.kept (fun backend m hm => ?_) fun _ _ _ _ _ _ hpresent => tried.present hput hpresent
    by_cases hown : backend = w.backend
    · subst hown
      rcases tried.own with hsame | hshows
      · rw [hkey] at hsame
        exact .inl (hsame.manifest?.symm.trans hm)
      · rw [hkey, hcontent] at hshows
        have hlists := lists_manifest h.formed.valid cycle time'
        rw [hshows.manifest? hlists] at hm
        cases hm
        exact .inr fun key hmem => names key ((hlists.mem_keys key).mp hmem)
    · exact .inl ((tried.other backend Manifest.name fun h => hown h.1).manifest?.symm.trans hm)
  | evict key =>
    -- both manifests list the snapshot, which does not have the key
    obtain ⟨time'', hmanifest⟩ := settled .manifest (manifest_mem_of_split hplan)
    have hlists := lists_manifest h.formed.valid cycle time''
    have hevict : key ∈ p.diff.evict := by
      rw [← mem_whole_evict_iff, hplan]
      simp
    obtain ⟨hne, hname⟩ := h.formed.evict key hevict
    refine ha.kept (fun backend m hm => .inl ?_) ?_
    · refine (tried.other backend Manifest.name fun hown => ?_).manifest?.symm.trans hm
      exact hne (hkey.symm.trans hown.2.symm)
    · intro holder m hm listed hmem backend hpresent
      rw [(hmanifest holder).manifest? hlists] at hm
      cases hm
      refine (tried.other backend listed fun hown => hname ?_).present.mpr hpresent
      rw [← hlists.mem_keys, show key = listed from hkey.symm.trans hown.2.symm]
      exact hmem

end Publication

/-! ## Runs -/

namespace RateTable

variable {t t' : RateTable} {events : List Event}

/-- The change that an event completes, if it completes one, is a success. -/
def completes (t : RateTable) : Event → Bool
  | .wrote time verdict => (t.nextWrite? time).all fun w => (t.backends.write w verdict).1.isOk
  | _ => true

/-- Every change that is completed in a run is a success. -/
def succeeds (t : RateTable) : List Event → Bool
  | [] => true
  | e :: rest => t.completes e && (t.step e).2.succeeds rest

theorem succeeds_append {before after : List Event} :
    t.succeeds (before ++ after) ↔ t.succeeds before ∧ (t.run before).2.succeeds after := by
  induction before generalizing t with
  | nil => simp [succeeds, run]
  | cons e rest ih => simp [succeeds, run, ih, and_assoc]

/-- Whatever a table is publishing has worked so far. -/
def Unfailed (t : RateTable) : Prop :=
  ∀ p, t.synchronizer.running = some (.publishing p) → p.Unfailed

/-- What completes leaves a publication unfailed. -/
theorem Unfailed.step {e : Event} (h : t.Unfailed) (hs : t.completes e) :
    (t.step e).2.Unfailed := by
  refine of_transition fun result t' transition => ?_
  cases transition with
  | ignored => exact h
  | refused => exact h
  | listed =>
    rintro p hr
    cases hr
    exact Publication.unfailed_start
  | @advanced p p' time verdict w l running next advance left =>
    rintro p₁ hr
    cases hr
    have hok : (t.backends.write w verdict).1.isOk := by
      simpa [completes, nextWrite?, running, next] using hs
    rw [advance, hok]
    exact (h p running).advance w
  | _ => nofun

/-- An event leaves the backends anchored while nothing has failed. -/
theorem anchored_step (h : t.backends.Anchored) (hw : t.Working) (hu : t.Unfailed) (e : Event) :
    (t.step e).2.backends.Anchored := by
  rcases t.touched_step e with hsame | ⟨p, time, w, running, next, tried⟩
  · rw [hsame]
    exact h
  · obtain ⟨done, sound⟩ := hw.sound p running
    exact sound.anchored_of_tried (hu p running).failed next tried h

theorem anchored_run (h : t.backends.Anchored) (hw : t.Working) (hu : t.Unfailed)
    (hs : t.succeeds events) : (t.run events).2.backends.Anchored := by
  induction events generalizing t with
  | nil => exact h
  | cons e rest ih =>
    obtain ⟨hcompletes, hrest⟩ := (Bool.and_eq_true _ _).mp hs
    exact ih (anchored_step h hw hu e) (working_step hw e) (hu.step hcompletes) hrest

/-- **No manifest ever has a key on it that is not there**, in any state of a run in which whatever
    is completed succeeds, wherever its cycles are cut off: the keys on the manifest of the store
    are in the store, and those on the manifest of the cache are in both. -/
theorem manifest_never_dangles (hcache : ∀ key, t.backends.cache.get? key = none)
    (idle : t.synchronizer.running = none)
    (hstore : ∀ m, t.backends.manifest? .store = some m →
      ∀ key ∈ m.keys, t.backends.Present .store key)
    (before after : List Event) (hs : t.succeeds (before ++ after)) :
    (∀ m, (t.run before).2.backends.manifest? .store = some m → ∀ key ∈ m.keys,
      (t.run before).2.backends.Present .store key) ∧
    ∀ m, (t.run before).2.backends.manifest? .cache = some m → ∀ key ∈ m.keys,
      (t.run before).2.backends.Present .cache key ∧
      (t.run before).2.backends.Present .store key := by
  have hnone : t.backends.manifest? .cache = none := by
    rw [Backends.manifest?, Backends.get, hcache]
    rfl
  have anchored : t.backends.Anchored := by
    refine ⟨hstore, fun m hm => ?_⟩
    rw [hnone] at hm
    cases hm
  have unfailed : t.Unfailed := by
    intro p hr
    rw [idle] at hr
    cases hr
  obtain ⟨hstore', hcache'⟩ :=
    anchored_run anchored (working_of_idle idle) unfailed (succeeds_append.mp hs).1
  exact ⟨hstore', hcache'⟩

/-- A cycle that is cut off between its two manifests. -/
def cutManifest : List Event :=
  [.call, .fetched (.ok [rowFor "10.0.0.1"]), .listed .passed, .wrote 1 .passed, .wrote 1 .passed,
    .wrote 2 .passed, .expired none]

/-- The cycle after it, which is cut off when the entry of the first one has gone from the store. -/
def cutRemoval : List Event :=
  [.call, .fetched (.ok [rowFor "10.0.0.2"]), .listed .passed] ++
    List.replicate 5 (.wrote 3 .passed) ++ [.dropped none]

theorem manifest_never_dangles_cutRemoval :
    (blank .zero).succeeds (cutManifest ++ cutRemoval) ∧
      ∀ m, ((blank .zero).run (cutManifest ++ cutRemoval)).2.backends.manifest? .cache = some m →
        ∀ key ∈ m.keys,
          ((blank .zero).run (cutManifest ++ cutRemoval)).2.backends.Present .cache key ∧
          ((blank .zero).run (cutManifest ++ cutRemoval)).2.backends.Present .store key := by
  have hs : (blank .zero).succeeds (cutManifest ++ cutRemoval ++ []) := by decide +kernel
  have hnone : ∀ m, (blank .zero).backends.manifest? .store = some m →
      ∀ key ∈ m.keys, (blank .zero).backends.Present .store key := nofun
  have hcycles := manifest_never_dangles (fun _ => rfl) rfl hnone (cutManifest ++ cutRemoval) [] hs
  exact ⟨(succeeds_append.mp hs).1, hcycles.2⟩

end RateTable

end Roster
