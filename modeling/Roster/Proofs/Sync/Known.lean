import Roster.Proofs.Sync.Transition

/-!
# The known keys

A synchronizer removes what it finds under keys that it knows or that the store lists, so a key that
drops out of `known` while something is still under it may stay for good. The listing does not help
where it is needed most: the cache cannot be asked for its keys, and the store may refuse.

So what is kept is one inclusion, `Backends.Covered`: whatever is in the cache, and whatever is in
the store and *watched*, is on a list. Which keys of the store are watched is a parameter, since the
list is meant to be complete for different keys at different times: the ones that were put by this
synchronizer in any run, and all of them in a cycle that has seen a listing.

While a publication runs there are two lists. The known keys are one. The other is what the
publication works off, the names of the snapshot and the keys to remove; it is the one that shrinks
to the next known keys when all tasks are done (`covered_of_done`), because a key whose removal
failed in only one of the backends is noted, and one whose removal did not fail is in neither.
-/

namespace Roster

/-- Whatever is in the cache, or is watched and in the store, is on the list; the
    reserved name apart. -/
def Backends.Covered (b : Backends) (watched : String → Prop) (keys : List String) : Prop :=
  ∀ key, key ≠ Manifest.name → b.Has .cache key ∨ watched key ∧ b.Has .store key → key ∈ keys

namespace Backends

variable {b b' : Backends} {watched watched' : String → Prop} {keys keys' : List String} {w : Write}

/-- What is there after a change was there before, unless the change put it there. -/
theorem Tried.has {backend : Backend} {key : String} (tried : b.Tried w b')
    (h : b'.Has backend key) : b.Has backend key ∨ key = w.key ∧ w.content ≠ none := by
  by_cases hown : backend = w.backend ∧ key = w.key
  · obtain ⟨rfl, rfl⟩ := hown
    rcases tried.own with hsame | hshows
    · exact .inl (hsame.has.mp h)
    · exact .inr ⟨rfl, fun hnone => hshows.not_has hnone h⟩
  · exact .inl ((tried.other backend key hown).has.mp h)

/-- A write of something that is watched leaves everything covered. -/
theorem Covered.tried (h : b.Covered watched keys) (tried : b.Tried w b')
    (hw : w.content ≠ none → w.key ∈ keys ∨ w.key = Manifest.name) : b'.Covered watched keys := by
  intro key hne hhas
  -- Only a change that puts something can make the list too short.
  have put : key = w.key ∧ w.content ≠ none → key ∈ keys := by
    rintro ⟨rfl, hcontent⟩
    exact (hw hcontent).resolve_right hne
  rcases hhas with hcache | ⟨hwatched, hstore⟩
  · rcases tried.has hcache with hbefore | hput
    · exact h key hne (.inl hbefore)
    · exact put hput
  · rcases tried.has hstore with hbefore | hput
    · exact h key hne (.inr ⟨hwatched, hbefore⟩)
    · exact put hput

theorem Covered.watch (h : b.Covered watched keys)
    (hw : ∀ key, key ≠ Manifest.name → watched' key → watched key ∨ key ∈ keys) :
    b.Covered watched' keys := by
  intro key hne hhas
  rcases hhas with hcache | ⟨hwatched, hstore⟩
  · exact h key hne (.inl hcache)
  · rcases hw key hne hwatched with hbefore | hmem
    · exact h key hne (.inr ⟨hbefore, hstore⟩)
    · exact hmem

theorem Covered.mono (h : b.Covered watched keys)
    (hk : ∀ key, key ≠ Manifest.name → key ∈ keys → key ∈ keys') : b.Covered watched keys' :=
  fun key hne hhas => hk key hne (h key hne hhas)

end Backends

theorem Synchronizer.mem_join_iff {known added : List String} {key : String} :
    key ∈ join known added ↔ key ∈ known ∨ key ∈ added := by
  simp only [join, List.mem_append, List.mem_filter]
  grind

/-! ## Publications -/

namespace Publication

variable {p : Publication} {b : Backends} {cycle time : UInt64} {done : List Task} {w : Write}
  {watched : String → Prop}

/-- What a publication puts goes under a key of its snapshot or under the reserved name. -/
theorem Sound.key_of_put (h : p.Sound cycle b done) (hw : p.next? cycle time = some w)
    (hput : w.content ≠ none) : w.key ∈ p.snapshot.names ∨ w.key = Manifest.name := by
  obtain ⟨task, rest, time', htasks, hkey, hcontent⟩ := h.next?_spec hw
  have hmem : task ∈ p.whole := by simp [h.plan, htasks]
  rw [hkey]
  cases task with
  | entry e => exact .inl (Snapshot.mem_names_iff.mpr ⟨e, mem_whole_entry_iff.mp hmem, rfl⟩)
  | manifest => exact .inr rfl
  | evict key => exact absurd hcontent hput

theorem Sound.covered_of_tried {b' : Backends} (h : p.Sound cycle b done)
    (hw : p.next? cycle time = some w) (tried : b.Tried w b')
    (hc : b.Covered watched (p.snapshot.names ++ p.diff.evict)) :
    b'.Covered watched (p.snapshot.names ++ p.diff.evict) := by
  refine hc.tried tried fun hput => ?_
  exact (h.key_of_put hw hput).imp_left fun hname => List.mem_append_left _ hname

/-- **When all tasks are done, the keys of the snapshot and those that could not be removed are
    all that is left.** -/
theorem Sound.covered_of_done (h : p.Sound cycle b done) (left : p.tasks = [])
    (hc : b.Covered watched (p.snapshot.names ++ p.diff.evict)) :
    b.Covered watched (Synchronizer.join p.snapshot.names p.notEvicted) := by
  intro key hne hhas
  rw [Synchronizer.mem_join_iff]
  rcases List.mem_append.mp (hc key hne hhas) with hname | hevict
  · exact .inl hname
  · have hdone : .evict key ∈ done := by
      have hwhole := h.plan
      rw [left, List.append_nil] at hwhole
      exact hwhole ▸ mem_whole_evict_iff.mpr hevict
    -- It is noted as not removed, or gone from both backends and so not there at all.
    rcases h.settled _ hdone with hnoted | ⟨time, hshows⟩
    · exact .inr (hnoted.2 rfl)
    · rcases hhas with hcache | ⟨-, hstore⟩
      · exact absurd hcache ((hshows .cache).not_has rfl)
      · exact absurd hstore ((hshows .store).not_has rfl)

end Publication

/-! ## Runs -/

/-- When the next change of the publication was asked for, if it was. -/
def Event.askedAt? : Event → Option UInt64
  | .wrote time _ => some time
  | .expired onItsWay => onItsWay
  | .dropped onItsWay => onItsWay
  | _ => none

namespace RateTable

variable {t t' : RateTable} {e : Event} {watched : String → Prop}

/-- The key that the store is asked to put by an event, whatever comes of it. -/
def storePut? (t : RateTable) (e : Event) : Option String :=
  match e.askedAt?.bind t.nextWrite? with
  | some (.put .store key _) => some key
  | _ => none

/-- The keys that the store is asked to put in a run. -/
def keysPut (t : RateTable) : List Event → List String
  | [] => []
  | e :: rest => (t.storePut? e).toList ++ (t.step e).2.keysPut rest

/-- A table with an empty cache and a synchronizer that has done nothing yet. What the store holds,
    and what may have been written there before, is open. -/
structure Fresh (t : RateTable) : Prop where
  cache : ∀ key, t.backends.cache.get? key = none
  known : t.synchronizer.known = []
  idle : t.synchronizer.running = none

/-- A table with nothing in its store, its cache and its memory. -/
def blank (timeout : Duration) : RateTable :=
  { synchronizer := { timeout } }

theorem fresh_blank (timeout : Duration) : (blank timeout).Fresh :=
  ⟨fun _ => rfl, rfl, rfl⟩

/-- The known keys cover what is there, and so does what a publication under way is about. -/
structure Tracked (watched : String → Prop) (t : RateTable) : Prop where
  known : t.backends.Covered watched t.synchronizer.known
  names : ∀ p, t.synchronizer.running = some (.publishing p) →
    p.snapshot.names ⊆ t.synchronizer.known
  plan : ∀ p, t.synchronizer.running = some (.publishing p) →
    t.backends.Covered watched (p.snapshot.names ++ p.diff.evict)

theorem Fresh.tracked (h : t.Fresh) : t.Tracked fun _ => False := by
  refine ⟨?_, ?_, ?_⟩
  · intro key hne hhas
    simp [Backends.Has, h.cache] at hhas
  · intro p hr
    rw [h.idle] at hr
    cases hr
  · intro p hr
    rw [h.idle] at hr
    cases hr

/-- More may be watched, if it is being published. -/
theorem Tracked.watch {watched' : String → Prop} (h : t.Tracked watched)
    (hw : ∀ key, key ≠ Manifest.name → watched' key → watched key ∨
      ∃ p, t.synchronizer.running = some (.publishing p) ∧ key ∈ p.snapshot.names) :
    t.Tracked watched' := by
  refine ⟨h.known.watch fun key hne hkey => ?_, h.names, fun p hr => ?_⟩
  · rcases hw key hne hkey with hbefore | ⟨p, hr, hname⟩
    · exact .inl hbefore
    · exact .inr (h.names p hr hname)
  · refine (h.plan p hr).watch fun key hne hkey => ?_
    rcases hw key hne hkey with hbefore | ⟨p', hr', hname⟩
    · exact .inl hbefore
    · rw [hr] at hr'
      cases hr'
      exact .inr (List.mem_append_left _ hname)

/-- The store is asked to put keys of the snapshot only, and the reserved name. -/
theorem name_of_storePut? {key : String} (hw : t.Working) (h : t.storePut? e = some key)
    (hne : key ≠ Manifest.name) :
    ∃ p, t.synchronizer.running = some (.publishing p) ∧ key ∈ p.snapshot.names := by
  unfold storePut? at h
  split at h
  · next put value hput =>
    cases h
    obtain ⟨time, -, hnext⟩ := Option.bind_eq_some_iff.mp hput
    unfold nextWrite? at hnext
    split at hnext
    · next p hr =>
      obtain ⟨done, sound⟩ := hw.sound p hr
      exact ⟨p, hr, (sound.key_of_put hnext nofun).resolve_right hne⟩
    · cases hnext
  · cases h

/-- What is tried in an event is about a known key. -/
theorem Tracked.covered_step (h : t.Tracked watched) (hw : t.Working) (e : Event) :
    (t.step e).2.backends.Covered watched t.synchronizer.known := by
  rcases t.touched_step e with hsame | ⟨p, time, w, running, next, tried⟩
  · rw [hsame]
    exact h.known
  · obtain ⟨done, sound⟩ := hw.sound p running
    refine h.known.tried tried fun hput => ?_
    exact (sound.key_of_put next hput).imp_left fun hname => h.names p running hname

/-- **No event makes anything drop out of sight.** -/
theorem Tracked.step (h : t.Tracked watched) (hw : t.Working) (e : Event) :
    (t.step e).2.Tracked watched := by
  refine of_transition (P := fun t' => t'.backends.Covered watched t.synchronizer.known →
    t'.Tracked watched) (fun result t' transition covered => ?_) (h.covered_step hw e)
  cases transition with
  | ignored => exact h
  | refused => exact h
  | begun => exact ⟨h.known, nofun, nofun⟩
  | notFetched => exact ⟨h.known, nofun, nofun⟩
  | fetched => exact ⟨h.known, nofun, nofun⟩
  | @listed snapshot rowsFetched rejected verdict l running =>
    refine ⟨h.known.mono fun key _ hkey => ?_, ?_, ?_⟩
    · exact Synchronizer.mem_join_iff.mpr (.inl hkey)
    · rintro p hr
      cases hr
      exact fun key hkey => Synchronizer.mem_join_iff.mpr (.inr hkey)
    · rintro p hr
      cases hr
      refine h.known.mono fun key hne hkey => ?_
      simp only [Publication.start, Diff.compare, List.mem_append, Diff.mem_toEvict_iff]
      -- What was known is published again or else is to be removed: the comparison
      -- leaves out nothing.
      by_cases hname : key ∈ snapshot.names
      · exact .inl hname
      · exact .inr ⟨.inl hkey, hne, hname⟩
  | @advanced p p' time verdict w l running next advance left =>
    obtain ⟨done, sound⟩ := hw.sound p running
    obtain ⟨hsnapshot, hdiff⟩ := p.advance_fixed w (t.backends.write w verdict).1.isOk
    refine ⟨covered, ?_, ?_⟩
    · rintro p₁ hr
      cases hr
      rw [advance, hsnapshot]
      exact h.names p running
    · rintro p₁ hr
      cases hr
      rw [advance, hsnapshot, hdiff]
      exact sound.covered_of_tried next (t.backends.tried_write w verdict) (h.plan p running)
  | @concluded p p' time verdict w l running next advance left =>
    refine ⟨?_, nofun, nofun⟩
    obtain ⟨done, sound⟩ := hw.sound p running
    have tried := t.backends.tried_write w verdict
    obtain ⟨hsnapshot, hdiff⟩ := p.advance_fixed w (t.backends.write w verdict).1.isOk
    obtain ⟨done', sound'⟩ := sound.advance next tried Backends.shows_of_ok
    rw [← advance] at sound' hsnapshot hdiff
    -- The known keys are replaced here, by what is left of the list of the publication.
    refine sound'.covered_of_done left ?_
    rw [hsnapshot, hdiff]
    exact sound.covered_of_tried next tried (h.plan p running)
  | expired => exact ⟨covered, nofun, nofun⟩
  | dropped => exact ⟨covered, nofun, nofun⟩

/-- A run leaves everything tracked that was, and all that it puts. -/
theorem tracked_run {events : List Event} (h : t.Tracked watched) (hw : t.Working) :
    (t.run events).2.Tracked fun key => watched key ∨ key ∈ t.keysPut events := by
  induction events generalizing t watched with
  | nil => exact h.watch fun key _ hkey => .inl (by simpa [keysPut] using hkey)
  | cons e rest ih =>
    -- what the event puts is watched from before it is put
    have hwatch : t.Tracked fun key => watched key ∨ t.storePut? e = some key :=
      h.watch fun key hne hkey => hkey.imp_right fun hput => name_of_storePut? hw hput hne
    exact (ih (hwatch.step hw e) (working_step hw e)).watch fun key _ hkey =>
      .inl (by simpa [keysPut, or_assoc] using hkey)

theorem Fresh.working_after (h : t.Fresh) (events : List Event) : (t.run events).2.Working :=
  run_induction (fun _ e ht => working_step ht e) (working_of_idle h.idle)

theorem Fresh.tracked_after (h : t.Fresh) (events : List Event) :
    (t.run events).2.Tracked fun _ => False :=
  (tracked_run h.tracked (working_of_idle h.idle)).watch nofun

/-- **Whatever this synchronizer may have to remove is known**, in every state of every run: all
    that is in the cache, and all that is in the store under a key that the synchronizer has put
    there. And the manifest is never among what is removed. -/
theorem known_covers (fresh : t.Fresh) (events : List Event) :
    (∀ key, key ≠ Manifest.name →
      ((t.run events).2.backends.cache.get? key).isSome ∨
        key ∈ t.keysPut events ∧ (t.run events).2.backends.Has .store key →
      key ∈ (t.run events).2.synchronizer.known) ∧
    ∀ p, (t.run events).2.synchronizer.running = some (.publishing p) →
      Manifest.name ∉ p.diff.evict := by
  constructor
  · intro key hne hkey
    have tracked := @tracked_run t _ events fresh.tracked (working_of_idle fresh.idle)
    exact tracked.known key hne (hkey.imp_right fun h => ⟨.inr h.1, h.2⟩)
  · intro p hr hmem
    obtain ⟨done, sound⟩ := (fresh.working_after events).sound p hr
    exact (sound.formed.evict _ hmem).1 rfl

/-- The row of an entry for `ndt` that is found everywhere. -/
def rowFor (target : String) : Row :=
  { path := "ndt", target, probability := 1.0, requestsPerDay := 24 }

/-- A cycle that is cut off when its entry is in the store and on its way to the cache. -/
def cutCycle : List Event :=
  [.call, .fetched (.ok [rowFor "10.0.0.1"]), .listed .passed, .wrote 1 .passed, .expired (some 2)]

theorem known_covers_cutCycle :
    (∀ key, key ≠ Manifest.name →
      (((blank .zero).run cutCycle).2.backends.cache.get? key).isSome ∨
        key ∈ (blank .zero).keysPut cutCycle ∧
          ((blank .zero).run cutCycle).2.backends.Has .store key →
      key ∈ ((blank .zero).run cutCycle).2.synchronizer.known) ∧
    ∀ p, ((blank .zero).run cutCycle).2.synchronizer.running = some (.publishing p) →
      Manifest.name ∉ p.diff.evict :=
  known_covers (fresh_blank .zero) cutCycle

end RateTable

end Roster
