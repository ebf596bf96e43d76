import Roster.Proofs.Sync.Convergence

/-!
# What readers come across

A reader asks for single keys, each in either of the backends and in whatever state the table is in
by then. So what it can be told is a matter of single answers, and `Backends.Serves` says of every
one of them, for some snapshots and a key that is in all of these: a value is an entry of one of the
snapshots or a manifest of one, and neither the key nor the manifest is ever missing.

This holds after a successful cycle that has seen a listing, as the table then shows one snapshot
and nothing else, and it is kept by every change of every publication of the snapshots, in whatever
order the changes come and whatever becomes of them: a change either leaves the answer to its key as
it was or makes it what the task says. No task removes the key, as the key is in the snapshot that
the task belongs to.
-/

namespace Roster

variable {snapshots : List Snapshot} {k : Key}

/-- What a reader may be told about a written key. -/
def Honest (snapshots : List Snapshot) (k : Key) (name : String) :
    Except StoreError (Option ByteArray) → Prop
  | .error _ => True
  | .ok none => name ≠ Manifest.name ∧ name ≠ k.render
  | .ok (some value) =>
    if name = Manifest.name then
      ∃ s ∈ snapshots, ∃ (cycle : UInt64) (m : Manifest), m.Lists s cycle ∧ m.encode = value
    else name ≠ "" → ∃ s ∈ snapshots, ∃ e ∈ s.entries, e.key.render = name ∧ e.encode = value

/-- Whatever a backend says about a key is something that a reader may be told. -/
def Backends.Serves (b : Backends) (snapshots : List Snapshot) (k : Key) : Prop :=
  ∀ backend name, Honest snapshots k name (b.get backend name)

namespace Publication

variable {p : Publication} {b b' : Backends} {cycle time : UInt64} {done : List Task} {w : Write}

/-- What a publication writes next is honest. -/
theorem Sound.honest (h : p.Sound cycle b done) (hw : p.next? cycle time = some w)
    (hs : p.snapshot ∈ snapshots) (hk : k ∈ p.snapshot.keys) :
    Honest snapshots k w.key (.ok w.content) := by
  obtain ⟨task, rest, time', htasks, hkey, hcontent⟩ := h.next?_spec hw
  have hmem : task ∈ p.whole := by simp [h.plan, htasks]
  rw [hkey, hcontent]
  cases task with
  | entry e =>
    have hname : e.key.render ≠ Manifest.name := Key.render_ne_name e.key
    change Honest snapshots k e.key.render (.ok (some e.encode))
    rw [Honest, if_neg hname]
    exact fun _ => ⟨p.snapshot, hs, e, mem_whole_entry_iff.mp hmem, rfl, rfl⟩
  | manifest =>
    change Honest snapshots k Manifest.name (.ok (some (p.manifest cycle time').encode))
    rw [Honest, if_pos rfl]
    exact ⟨p.snapshot, hs, cycle, _, lists_manifest h.formed.valid cycle time', rfl⟩
  | evict name =>
    -- Nothing will be said of this name, which is neither of the two that must not be missing.
    obtain ⟨hne, hname⟩ := h.formed.evict name (mem_whole_evict_iff.mp hmem)
    refine ⟨hne, ?_⟩
    rintro rfl
    exact hname (List.mem_map_of_mem hk)

/-- **Whatever becomes of a change, what can be told stays what may be told.** -/
theorem Sound.serves_of_tried (h : p.Sound cycle b done) (hw : p.next? cycle time = some w)
    (hs : p.snapshot ∈ snapshots) (hk : k ∈ p.snapshot.keys) (tried : b.Tried w b')
    (hb : b.Serves snapshots k) : b'.Serves snapshots k := by
  intro backend name
  by_cases hown : backend = w.backend ∧ name = w.key
  · obtain ⟨rfl, rfl⟩ := hown
    rcases tried.own with hsame | hshows
    · rw [hsame.get]
      exact hb w.backend w.key
    · rw [hshows.get]
      exact h.honest hw hs hk
  · rw [(tried.other backend name hown).get]
    exact hb backend name

end Publication

/-- When one snapshot is published and there is nothing else, this is all that is told. -/
theorem Backends.Publishes.serves {b : Backends} {s : Snapshot} {m : Manifest} {cycle : UInt64}
    {watched : String → Prop} (h : b.Publishes s m watched) (hm : m.Lists s cycle)
    (hw : ∀ name, name ≠ "" → watched name) (hs : s ∈ snapshots) (hk : k ∈ s.keys) :
    b.Serves snapshots k := by
  intro backend name
  by_cases hname : name = Manifest.name
  · rw [hname, (h.manifest backend).get, Honest, if_pos rfl]
    exact ⟨s, hs, cycle, m, hm, rfl⟩
  cases hget : b.get backend name with
  | error e => trivial
  | ok found =>
    cases found with
    | none =>
      refine ⟨hname, ?_⟩
      rintro rfl
      obtain ⟨e, he, rfl⟩ := List.mem_map.mp hk
      -- The key is in the snapshot and so has its entry in either backend.
      rw [(h.entry e he backend).get] at hget
      cases hget
    | some value =>
      rw [Honest, if_neg hname]
      intro hne
      have hhas := has_of_get hget
      have hmem : name ∈ s.names := by
        refine h.only name hname ?_
        cases backend with
        | cache => exact .inl hhas
        | store => exact .inr ⟨hw name hne, hhas⟩
      obtain ⟨e, he, rfl⟩ := Snapshot.mem_names_iff.mp hmem
      rw [(h.entry e he backend).get] at hget
      cases hget
      exact ⟨s, hs, e, he, rfl, rfl⟩

/-! ## Runs -/

namespace RateTable

variable {t t' u : RateTable} {e : Event} {events : List Event}

/-- The snapshot that an event forms, if it forms one. -/
def forms? (t : RateTable) (e : Event) : Option Snapshot :=
  match t.synchronizer.running, e with
  | some .fetching, .fetched (.ok rows) => some (Snapshot.ofRows rows).1
  | _, _ => none

/-- The snapshots that are formed in a run, in this order. -/
def formed (t : RateTable) : List Event → List Snapshot
  | [] => []
  | e :: rest => (t.forms? e).toList ++ (t.step e).2.formed rest

theorem formed_append (t : RateTable) (before after : List Event) :
    t.formed (before ++ after) = t.formed before ++ (t.run before).2.formed after := by
  induction before generalizing t with
  | nil => rfl
  | cons e rest ih => simp [formed, run, ih]

theorem formed_congr (hb : u.backends = t.backends) (hs : u.synchronizer = t.synchronizer)
    (events : List Event) : u.formed events = t.formed events := by
  induction events generalizing t u with
  | nil => rfl
  | cons e rest ih =>
    obtain ⟨hb', hs'⟩ := step_congr hb hs e
    simp only [formed, forms?, hs, ih hb' hs']

theorem valid_of_mem_formed {s : Snapshot} (h : s ∈ t.formed events) : s.Valid := by
  induction events generalizing t with
  | nil => cases h
  | cons e rest ih =>
    rcases List.mem_append.mp h with hforms | hrest
    · unfold forms? at hforms
      split at hforms
      · next rows _ =>
        obtain rfl : s = (Snapshot.ofRows rows).1 := by simpa using hforms
        exact Snapshot.valid_ofRows rows
      · cases hforms
    · exact ih hrest

/-- The snapshot that the running cycle is about, once it has formed one. -/
def current? (t : RateTable) : Option Snapshot :=
  match t.synchronizer.running with
  | some (.diffing s _ _) => some s
  | some (.publishing p) => some p.snapshot
  | _ => none

/-- Readers are told what they may be told, and the running cycle is about one of the snapshots. -/
structure Served (snapshots : List Snapshot) (k : Key) (t : RateTable) : Prop where
  backends : t.backends.Serves snapshots k
  current : ∀ s, t.current? = some s → s ∈ snapshots

/-- An event leaves the backends serving the key. -/
theorem serves_step (h : t.Served snapshots k) (hw : t.Working) (hk : ∀ s ∈ snapshots, k ∈ s.keys)
    (e : Event) : (t.step e).2.backends.Serves snapshots k := by
  rcases t.touched_step e with hsame | ⟨p, time, w, running, next, tried⟩
  · rw [hsame]
    exact h.backends
  · obtain ⟨done, sound⟩ := hw.sound p running
    have hs := h.current p.snapshot (by rw [current?, running])
    exact sound.serves_of_tried next hs (hk _ hs) tried h.backends

theorem current_step (h : t.Served snapshots k) (hf : ∀ s ∈ t.forms? e, s ∈ snapshots) :
    ∀ s, (t.step e).2.current? = some s → s ∈ snapshots := by
  refine of_transition (P := fun t' => ∀ s, t'.current? = some s → s ∈ snapshots)
    fun result t' transition s hs => ?_
  cases transition with
  | ignored => exact h.current s hs
  | refused => exact h.current s hs
  | @fetched rows l running =>
    obtain rfl : (Snapshot.ofRows rows).1 = s := Option.some.inj hs
    exact hf _ (by simp [forms?, running])
  | @listed snapshot rowsFetched rejected verdict l running =>
    obtain rfl : snapshot = s := Option.some.inj hs
    exact h.current snapshot (by rw [current?, running])
  | @advanced p p' time verdict w l running next advance left =>
    obtain rfl : p'.snapshot = s := Option.some.inj hs
    rw [advance, (p.advance_fixed w _).1]
    exact h.current p.snapshot (by rw [current?, running])
  | _ => cases hs

/-- An event leaves a table that serves the key one that does. -/
theorem Served.step (h : t.Served snapshots k) (hw : t.Working) (hk : ∀ s ∈ snapshots, k ∈ s.keys)
    (hf : ∀ s ∈ t.forms? e, s ∈ snapshots) : (t.step e).2.Served snapshots k :=
  ⟨serves_step h hw hk e, current_step h hf⟩

/-- **In every state of a run readers are told what they may be told.** -/
theorem Served.run (h : t.Served snapshots k) (hw : t.Working) (hk : ∀ s ∈ snapshots, k ∈ s.keys)
    (hf : ∀ s ∈ t.formed events, s ∈ snapshots) : (t.run events).2.Served snapshots k := by
  induction events generalizing t with
  | nil => exact h
  | cons e rest ih =>
    refine ih (h.step hw hk fun s hs => hf s ?_) (working_step hw e) fun s hs => hf s ?_
    · exact List.mem_append_left _ (Option.mem_toList.mpr hs)
    · exact List.mem_append_right _ hs

end RateTable

end Roster
