import Roster.Proofs.Read.Lookup

/-!
# Readers of a published snapshot

When a snapshot has been published and nothing is written meanwhile, readers find it, whatever
the cache does. What makes them independent of the cache is said first, for any two backends: as
long as they stay as they are (`Still`), a lookup gives the answer of the store, or else the
value that the cache has.

So where both have each published value (`Rests`), every name that is published is looked up
with the same answer, and the candidates are the decoded entries, one for each key of the
manifest and in its order.
-/

namespace Roster

/-- The cache may do what it wants, but the store answers, and nothing is written. -/
def Moment.Calm (moment : Moment) : Prop :=
  moment.events = [] ∧ moment.store = .passed

namespace RateTable

variable {b : Backends} {snapshot : Snapshot} {m : Manifest} {cycle : UInt64} {t : RateTable}
  {moments : List Moment} {name : String} {value : ByteArray} {e : Entry}

/-! ## At rest -/

/-- The backends are these, and stay so. -/
structure Still (b : Backends) (σ : RateTable × List Moment) : Prop where
  backends : σ.1.backends = b
  calm : ∀ moment ∈ σ.2, moment.Calm

/-- **A lookup gives the answer of the store, or the value that the cache has.** -/
theorem still_lookup (name : String) :
    Keeps (Still b) (amid.lookup name) fun answer => answer = b.get .store name ∨
      ∃ found, b.get .cache name = .ok (some found) ∧ answer = .ok (some found) := by
  rintro ⟨t, moments⟩ ⟨rfl, calm⟩
  obtain ⟨ledger, hrun⟩ := run_lookup (t := t) (fun moment hm => (calm moment hm).1) name
  rw [hrun]
  exact ⟨Backends.answer_reading fun moment hm => (calm moment hm).2, rfl,
    fun moment hm => calm moment (Backends.mem_of_mem_reading hm)⟩

/-! ## A published snapshot -/

/-- What is published under a name. -/
inductive Published (snapshot : Snapshot) (m : Manifest) : String → ByteArray → Prop where
  | manifest : Published snapshot m Manifest.name m.encode
  | entry {e : Entry} (he : e ∈ snapshot.entries) : Published snapshot m e.key.render e.encode

/-- A table with a published snapshot, and a reader whom nothing disturbs. -/
structure Rests (snapshot : Snapshot) (m : Manifest) (σ : RateTable × List Moment) : Prop where
  holds : ∀ name value, Published snapshot m name value →
    ∀ backend, σ.1.backends.get backend name = .ok (some value)
  calm : ∀ moment ∈ σ.2, moment.Calm

theorem rests_of_aCycle {t' : RateTable} {rows : List Row} {listing : Verdict}
    {writes : List (UInt64 × Verdict)} {report : CycleReport}
    (hrun : t.run (aCycle rows listing writes) = ([.ok report], t'))
    (calm : ∀ moment ∈ moments, moment.Calm) :
    ∃ m : Manifest, m.Lists (Snapshot.ofRows rows).1 (t.synchronizer.cycles + 1) ∧
      Rests (Snapshot.ofRows rows).1 m (t', moments) := by
  obtain ⟨m, hlists, hentry, hmanifest⟩ := shows_of_aCycle hrun
  refine ⟨m, hlists, ?_, calm⟩
  rintro name value published backend
  cases published with
  | manifest => exact (hmanifest backend).get
  | entry he => exact (hentry _ he backend).get

theorem Rests.withLedger (h : Rests snapshot m (t, moments)) (l : Ledger) :
    Rests snapshot m ({ t with ledger := l }, moments) :=
  ⟨h.holds, h.calm⟩

/-- **What is published is found**, whatever the cache does. -/
theorem rests_lookup (published : Published snapshot m name value) :
    Keeps (Rests snapshot m) (amid.lookup name) (· = .ok (some value)) := by
  intro σ h
  obtain ⟨hanswer, hbackends, calm⟩ := still_lookup name σ ⟨rfl, h.calm⟩
  refine ⟨?_, by rw [hbackends]; exact h.holds, calm⟩
  rcases hanswer with hstore | ⟨found, hcache, hfound⟩
  · exact hstore.trans (h.holds name value published .store)
  · exact (hfound.trans hcache.symm).trans (h.holds name value published .cache)

/-! ## What the reader makes of it -/

/-- At rest the manifest is found that has been published. -/
theorem rests_manifest (hm : m.Lists snapshot cycle) :
    Keeps (Rests snapshot m) amid.manifest (· = .ok (some m)) := by
  refine (rests_lookup .manifest).bind fun answer hanswer => ?_
  subst hanswer
  simp only [hm.decode?]
  exact .pure rfl

/-- At rest each published entry is found. -/
theorem rests_entry (hv : snapshot.Valid) (he : e ∈ snapshot.entries) :
    Keeps (Rests snapshot m) (amid.entry e.key) fun answer =>
      ∃ d, answer = .ok (some d) ∧ Entry.decode e.encode = .ok d := by
  refine (rests_lookup (.entry he)).bind fun answer hanswer => ?_
  subst hanswer
  obtain ⟨p, -, hdecode⟩ := Entry.decode_encode (hv e he)
  simp only [hdecode]
  exact .pure ⟨_, rfl, rfl⟩

/-- Of the keys of entries none is left out: each gives its entry, as it is read back. -/
theorem rests_entries (hv : snapshot.Valid) {keys : List Key}
    (hkeys : ∀ key ∈ keys, key ∈ snapshot.keys) :
    Keeps (Rests snapshot m) (amid.entries keys) fun answer => ∃ selected entries,
      answer = .ok entries ∧ selected.map Entry.key = keys ∧ selected ⊆ snapshot.entries ∧
      selected.map (fun e => Entry.decode e.encode) = entries.map .ok := by
  induction keys with
  | nil => exact .pure ⟨[], [], rfl, rfl, List.nil_subset _, List.map_nil.trans List.map_nil.symm⟩
  | cons key rest ih =>
    obtain ⟨e, he, rfl⟩ := List.mem_map.mp (hkeys key List.mem_cons_self)
    refine (rests_entry hv he).bind fun answer hanswer => ?_
    obtain ⟨d, rfl, hdecode⟩ := hanswer
    refine (ih fun key hkey => hkeys key (List.mem_cons_of_mem _ hkey)).bind
      fun answer hanswer => ?_
    obtain ⟨selected, entries, rfl, hselected, hsubset, hentries⟩ := hanswer
    refine .pure ⟨e :: selected, d :: entries, rfl, ?_, List.cons_subset.mpr ⟨he, hsubset⟩, ?_⟩
    · rw [List.map_cons, hselected]
    · rw [List.map_cons, List.map_cons, hdecode, hentries]

/-- The candidates are read back of the entries whose keys the manifest lists for the
    path and the policy. -/
theorem rests_candidates (hv : snapshot.Valid) (hm : m.Lists snapshot cycle)
    (path policy : String) :
    Keeps (Rests snapshot m) (amid.candidates path policy) fun answer =>
      ∃ selected entries, answer = .ok entries ∧
        selected.map Entry.key = Access.keysOf path policy m.keys ∧ selected ⊆ snapshot.entries ∧
        selected.map (fun e => Entry.decode e.encode) = entries.map .ok := by
  refine (rests_manifest hm).bind fun answer hanswer => ?_
  subst hanswer
  refine rests_entries hv fun key hkey => ?_
  obtain ⟨hfault, hname, -, -⟩ := mem_keysOf_iff.mp hkey
  obtain ⟨e, he, hrender⟩ := Snapshot.mem_names_iff.mp ((hm.mem_keys _).mp hname)
  rw [← Key.render_injective (hv e he).key hfault hrender]
  exact List.mem_map_of_mem he

/-- The entries that are selected by the keys of a path and a policy are those that have these. -/
theorem mem_selected_iff (hv : snapshot.Valid) (hm : m.Lists snapshot cycle) {path policy : String}
    {selected : List Entry} (hselected : selected.map Entry.key = Access.keysOf path policy m.keys)
    (hsubset : selected ⊆ snapshot.entries) :
    e ∈ selected ↔ e ∈ snapshot.entries ∧ e.key.path = path ∧ e.key.policy = policy := by
  constructor
  · intro he
    have hkey : e.key ∈ Access.keysOf path policy m.keys := hselected ▸ List.mem_map_of_mem he
    exact ⟨hsubset he, (mem_keysOf_iff.mp hkey).2.2⟩
  · rintro ⟨he, hpath, hpolicy⟩
    have hlisted : e.key.render ∈ m.keys :=
      (hm.mem_keys _).mpr (Snapshot.mem_names_iff.mpr ⟨e, he, rfl⟩)
    have hkey : e.key ∈ selected.map Entry.key := by
      rw [hselected, mem_keysOf_iff]
      exact ⟨(hv e he).key, hlisted, hpath, hpolicy⟩
    obtain ⟨e', he', heq⟩ := List.mem_map.mp hkey
    -- there is one entry with this key
    rwa [Snapshot.eq_of_render_eq hv he (hsubset he') (congrArg Key.render heq.symm)]

/-- **A reader of a published snapshot finds exactly its entries of a path and a policy**, as
    they are read back. -/
theorem candidates_of_rests (hv : snapshot.Valid) (hm : m.Lists snapshot cycle)
    (h : Rests snapshot m (t, moments)) (path policy : String) :
    ∃ entries, t.candidatesAmid moments path policy = .ok entries ∧
      ∀ d, d ∈ entries ↔ ∃ e ∈ snapshot.entries, e.key.path = path ∧ e.key.policy = policy ∧
        Entry.decode e.encode = .ok d := by
  obtain ⟨⟨selected, entries, hread, hselected, hsubset, hentries⟩, -⟩ :=
    rests_candidates hv hm path policy (t, moments) h
  refine ⟨entries, hread, fun d => ?_⟩
  have hmem : d ∈ entries ↔ ∃ e ∈ selected, Entry.decode e.encode = .ok d := by
    rw [← List.mem_map_of_injective (f := Except.ok) fun _ _ => Except.ok.inj, ← hentries,
      List.mem_map]
  simp only [hmem, mem_selected_iff hv hm hselected hsubset, and_assoc]

end RateTable

end Roster
