import Roster.Proofs.Read.AtRest

/-!
# From a published snapshot back to its entries

Writer and reader have nothing in common but texts: keys are written, listed in order, read again,
chosen by two of their parts, and written once more to be looked up. This file says that nothing
comes of all this. What a reader finds is the entries of the snapshot, one for one and in the order
of their written keys (`candidates_of_published`); and what it does not find is not there, if the
cycle saw a listing of the store. Only what a row cannot keep is left out of it, which is the last
place of a probability.

The manifest is in ascending order, and no step of the reader changes the order of what is
left. So the keys that are looked up need not be compared with the snapshot's in any other
way than as members.
-/

namespace Roster

/-- An entry apart from its probability. -/
def Entry.withoutProbability (e : Entry) : Entry :=
  { e with probability := 0.0 }

namespace Access

/-- Choosing keys keeps their order. -/
theorem keysOf_sublist (path policy : String) (names : List String) :
    ((keysOf path policy names).map Key.render).Sublist names := by
  rw [RateTable.map_render_keysOf]
  exact List.filter_sublist

end Access

namespace RateTable

variable {snapshot : Snapshot} {m : Manifest} {cycle : UInt64} {t t' : RateTable}
  {moments : List Moment} {rows : List Row} {listing : Verdict} {writes : List (UInt64 × Verdict)}
  {report : CycleReport}

/-- What a reader is told about one key, with the given moments to come. -/
def entryAmid (t : RateTable) (moments : List Moment) (key : Key) :
    Except ReadError (Option Entry) :=
  ((amid.entry key).run (t, moments)).run.1

/-! ## What is found -/

/-- What is selected by the keys of a path and a policy: every entry that has these, once. -/
theorem selected_perm (hv : snapshot.Valid) (hm : m.Lists snapshot cycle) {path policy : String}
    {selected : List Entry} (hselected : selected.map Entry.key = Access.keysOf path policy m.keys)
    (hsubset : selected ⊆ snapshot.entries) :
    (selected.map fun e => e.key.render).Pairwise (· < ·) ∧
      selected.Perm (snapshot.entries.filter fun e => e.key.path = path ∧
        e.key.policy = policy) := by
  have ascending : (selected.map fun e => e.key.render).Pairwise (· < ·) := by
    have hnames : selected.map (fun e => e.key.render) =
        (Access.keysOf path policy m.keys).map Key.render := by
      rw [← hselected, List.map_map]
      rfl
    rw [hnames]
    exact hm.ascending.sublist (Access.keysOf_sublist path policy m.keys)
  have nodup : selected.Nodup := by
    apply List.Nodup.of_map fun e : Entry => e.key.render
    exact ascending.imp fun hlt => hlt.ne
  have nodup' : snapshot.entries.Nodup := List.Nodup.of_map _ snapshot.nodup
  refine ⟨ascending, (List.perm_ext_iff_of_nodup nodup (nodup'.filter _)).mpr fun e => ?_⟩
  rw [mem_selected_iff hv hm hselected hsubset, List.mem_filter, decide_eq_true_iff]

/-- What is read back of the entries of rows is what they are, apart from the probabilities. -/
theorem withoutProbability_of_decode {selected entries : List Entry}
    (hrows : ∀ row ∈ rows, row.requestsPerDay < 2 ^ 63)
    (hsubset : selected ⊆ (Snapshot.ofRows rows).1.entries)
    (hentries : selected.map (fun e => Entry.decode e.encode) = entries.map .ok) :
    entries.map Entry.withoutProbability = selected.map Entry.withoutProbability := by
  induction selected generalizing entries with
  | nil =>
    rw [List.map_nil, eq_comm, List.map_eq_nil_iff] at hentries
    rw [hentries]
  | cons e rest ih =>
    obtain ⟨he, hrest⟩ := List.cons_subset.mp hsubset
    obtain ⟨row, hrow, hentry⟩ := Snapshot.exists_row_of_mem_ofRows he
    have hvalid := Entry.valid_of_ofRow hentry
    obtain ⟨p, hnumber, hlow, hhigh⟩ := Decimal.proportion_toNumber? hvalid.nonneg hvalid.le_one
    have hdecode := Entry.decode_encode_of_row hentry (hrows row hrow) hnumber hlow hhigh
    cases entries with
    | nil =>
      rw [List.map_cons, List.map_nil] at hentries
      cases hentries
    | cons d more =>
      rw [List.map_cons, List.map_cons, List.cons.injEq, hdecode, Except.ok.injEq] at hentries
      rw [List.map_cons, List.map_cons, ih hrest hentries.2, ← hentries.1]
      rfl

/-! ## What is not found -/

/-- A key with nothing under it is not found, whatever the cache does. -/
theorem entryAmid_of_not_has {b : Backends} {key : Key} (h : Still b (t, moments))
    (hcache : b.get .cache key.render = .ok none) :
    (b.get .store key.render = .ok none → t.entryAmid moments key = .ok none) ∧
      ∀ fault, b.get .store key.render = .error fault →
        t.entryAmid moments key = .error (.store fault) := by
  have looked : Keeps (Still b) (amid.lookup key.render) (· = b.get .store key.render) := by
    intro σ hσ
    refine (still_lookup key.render σ hσ).imp_left fun hanswer => ?_
    rcases hanswer with hstore | ⟨found, hfound, -⟩
    · exact hstore
    · rw [hcache] at hfound
      cases hfound
  constructor
  · intro hstore
    have missing : Keeps (Still b) (amid.entry key) (· = .ok none) := by
      refine looked.bind fun answer hanswer => ?_
      rw [hanswer, hstore]
      exact .pure rfl
    exact (missing _ h).1
  · intro fault hstore
    have failing : Keeps (Still b) (amid.entry key) (· = .error (.store fault)) := by
      refine looked.bind fun answer hanswer => ?_
      rw [hanswer, hstore]
      exact .pure rfl
    exact (failing _ h).1

/-- Where a snapshot is published and the store is watched, keys of no entry have
    nothing under them. -/
theorem entryAmid_of_publishes {watched : String → Prop} {key : Key}
    (h : t.backends.Publishes snapshot m watched) (hw : watched key.render)
    (calm : ∀ moment ∈ moments, moment.Calm) (hkey : key.render ∉ snapshot.names) :
    (t.backends.store.Admits key.render → t.entryAmid moments key = .ok none) ∧
      (¬ t.backends.store.Admits key.render →
        t.entryAmid moments key = .error (.store (.system .nameTooLong))) := by
  have absent : ¬ (key.render ∈ snapshot.names ∨ key.render = Manifest.name) := by
    rintro (hname | hname)
    · exact hkey hname
    · exact key.render_ne_name hname
  have hcache : t.backends.get .cache key.render = .ok none := by
    have hnone := mt h.cache_iff.mp absent
    rw [Option.not_isSome_iff_eq_none] at hnone
    rw [Backends.get, hnone]
  obtain ⟨hnone, hfault⟩ :=
    Backends.get_of_not_has (h.manifest .store).get (mt (h.has_store_iff hw).mp absent)
  obtain ⟨missing, failing⟩ := entryAmid_of_not_has ⟨rfl, calm⟩ hcache
  exact ⟨fun admits => missing (hnone admits), fun hnot => failing _ (hfault hnot)⟩

/-! ## Runs -/

/-- **A snapshot that a cycle has published is read back as it is.** For every path and policy the
    reader finds one entry for each entry of the snapshot that has these, in the ascending order of
    the written keys, and each with everything of that entry but the probability. And if the store
    could be listed in the cycle, a key that is written as none of the snapshot's has no entry; a
    store in files that has no name for the key says so instead. -/
theorem candidates_of_published (fresh : t.Fresh) (history : List Event)
    (hrun : (t.run history).2.run (aCycle rows listing writes) = ([.ok report], t'))
    (hrows : ∀ row ∈ rows, row.requestsPerDay < 2 ^ 63) (calm : ∀ moment ∈ moments, moment.Calm) :
    (∀ path policy, ∃ selected entries : List Entry, t'.candidatesAmid moments path policy =
        .ok entries ∧ selected.Perm ((Snapshot.ofRows rows).1.entries.filter fun e =>
          e.key.path = path ∧ e.key.policy = policy) ∧
        (selected.map fun e => e.key.render).Pairwise (· < ·) ∧
        entries.map Entry.withoutProbability = selected.map Entry.withoutProbability) ∧
      (((t.run history).2.backends.storeKeys listing).isOk →
        ∀ key : Key, key.render ∉ (Snapshot.ofRows rows).1.names →
          (t'.backends.store.Admits key.render → t'.entryAmid moments key = .ok none) ∧
          (¬ t'.backends.store.Admits key.render →
            t'.entryAmid moments key = .error (.store (.system .nameTooLong)))) := by
  have hvalid := Snapshot.valid_ofRows rows
  constructor
  · intro path policy
    obtain ⟨m, hlists, hrests⟩ := rests_of_aCycle hrun calm
    obtain ⟨⟨selected, entries, hread, hselected, hsubset, hentries⟩, -⟩ :=
      rests_candidates hvalid hlists path policy (t', moments) hrests
    obtain ⟨ascending, hperm⟩ := selected_perm hvalid hlists hselected hsubset
    exact ⟨selected, entries, hread, hperm, ascending,
      withoutProbability_of_decode hrows hsubset hentries⟩
  · intro hlisted key hkey
    obtain ⟨m, -, hpublishes, -⟩ :=
      publishes_of_aCycle (fresh.tracked_after history) (fresh.working_after history) hrun
    exact entryAmid_of_publishes hpublishes
      ⟨hlisted, Backends.tells_of_ne _ key.render_ne_empty⟩ calm hkey

/-- The cache fails at the manifest, and misses the entry; the key of the cycle
    before has been removed. -/
theorem candidates_of_published_after_cutCycle :
    ∃ report t', ((blank .zero).run cutCycle).2.run
        (aCycle [rowFor "10.0.0.2"] .passed (List.replicate 6 (9, .passed))) = ([.ok report], t') ∧
      (∃ entries, t'.candidatesAmid [{ cache := .fails }, {}, { cache := .misses }] "ndt" "" =
        .ok entries) ∧
      t'.entryAmid [{ cache := .fails }] (rowFor "10.0.0.1").key = .ok none := by
  have hrows : ∀ row ∈ [rowFor "10.0.0.2"], row.requestsPerDay < 2 ^ 63 := by decide
  have calm : ∀ moment ∈ [({ cache := .fails } : Moment), {}, { cache := .misses }],
      moment.Calm := by
    simp [Moment.Calm]
  have calm' : ∀ moment ∈ [({ cache := .fails } : Moment)], moment.Calm := by
    simp [Moment.Calm]
  have hread := candidates_of_published (fresh_blank .zero) cutCycle run_after_cutCycle hrows calm
  have hmissing :=
    candidates_of_published (fresh_blank .zero) cutCycle run_after_cutCycle hrows calm'
  obtain ⟨_, entries, hentries, -⟩ := hread.1 "ndt" ""
  refine ⟨_, _, run_after_cutCycle, ⟨entries, hentries⟩, ?_⟩
  exact (hmissing.2 rfl (rowFor "10.0.0.1").key (by decide +kernel)).1 (by decide +kernel)

/-! ## A key without a file name -/

/-- A new table whose store is a folder on a disk. -/
def inFolder : RateTable :=
  { backends := { store := .files ⟨["data"]⟩ ⟨[(["data"], .folder)]⟩ }
    synchronizer := { timeout := .zero } }

/-- A key whose file would have too long a name. -/
def longKey : Key :=
  ⟨"", String.ofList (List.replicate 300 'a'), "", "10.0.0.1"⟩

theorem fresh_inFolder : inFolder.Fresh :=
  ⟨fun _ => rfl, rfl, rfl⟩

theorem run_inFolder :
    (inFolder.run []).2.run (aCycle [rowFor "10.0.0.1"] .passed (List.replicate 4 (9, .passed))) =
      ([.ok { cycle := 1, rowsFetched := 1, rejected := 0, new := 1, changed := 0, unchanged := 0
              evicted := 0 }],
        (inFolder.run (aCycle [rowFor "10.0.0.1"] .passed (List.replicate 4 (9, .passed)))).2) :=
  Prod.ext (eq_of_map_toOption (by decide +kernel)) rfl

/-- The key is that of no entry, the store has been listed, and still the answer is not
    that there is none. -/
theorem entry_of_longKey :
    ∃ report t', inFolder.run (aCycle [rowFor "10.0.0.1"] .passed (List.replicate 4 (9, .passed))) =
        ([.ok report], t') ∧
      (inFolder.backends.storeKeys .passed).isOk ∧
      longKey.render ∉ (Snapshot.ofRows [rowFor "10.0.0.1"]).1.names ∧
      t'.entryAmid [] longKey = .error (.store (.system .nameTooLong)) := by
  have habsent : longKey.render ∉ (Snapshot.ofRows [rowFor "10.0.0.1"]).1.names := by decide +kernel
  obtain ⟨m, -, hpublishes, -⟩ := publishes_of_aCycle (fresh_inFolder.tracked_after [])
    (fresh_inFolder.working_after []) run_inFolder
  have hwatched := Backends.tells_of_ne inFolder.backends.store longKey.render_ne_empty
  have hentry := entryAmid_of_publishes hpublishes ⟨rfl, hwatched⟩ (List.forall_mem_nil _) habsent
  exact ⟨_, _, run_inFolder, rfl, habsent, hentry.2 (by decide +kernel)⟩

end RateTable

end Roster
