import Roster.Proofs.Read.Uncached

/-!
# Readings of a table

How the records came into the backends does not matter here, and they need not be records: any
octets may stand under any name, in the store or in the cache, and the cache may contradict the
store. Only nothing is written while the reader is under way. What it finds then is put
together from single readings, that of the manifest (`listing`) and one for each name of a key
that it wants (`listed`).

A reading is good, or it finds nothing, or nothing that can be decoded, or it failed. Only the last
concerns the other records. So a reader that gets through has what the good readings hold, whatever
lies between them (`candidates_of_readings`).
-/

namespace Roster

namespace Reading

/-- The fault of a lookup that failed. -/
def fault? (r : Reading) : Option StoreError :=
  match r.answer with
  | .error fault => some fault
  | .ok _ => none

/-- The octets that a lookup has found. -/
def octets? (r : Reading) : Option ByteArray :=
  r.answer.toOption.join

/-- The lookup has ended in a fault. -/
def Fails (r : Reading) : Prop :=
  ∃ fault, r = failed fault

instance (r : Reading) : Decidable r.Fails :=
  match r with
  | failed fault => isTrue ⟨fault, rfl⟩
  | cached _ => isFalse nofun
  | stored _ => isFalse nofun

/-- The entry that is found, if anything is found that is one. -/
def entry? (r : Reading) : Option Entry :=
  r.octets?.bind fun octets => (Entry.decode octets).toOption

/-- The manifest that is found, if anything is found that is one. -/
def manifest? (r : Reading) : Option Manifest :=
  r.octets?.bind Manifest.decode?

variable {r : Reading} {fault : StoreError}

theorem answer_eq_error_iff : r.answer = .error fault ↔ r = failed fault := by
  cases r <;> simp [answer]

theorem octets?_eq_some_iff {octets : ByteArray} :
    r.octets? = some octets ↔ r.answer = .ok (some octets) := by
  rw [octets?]
  cases r.answer with
  | error fault => exact iff_of_false nofun nofun
  | ok found => simp [Except.toOption]

theorem fault?_eq_some_iff : r.fault? = some fault ↔ r = failed fault := by
  rw [← answer_eq_error_iff, fault?]
  cases r.answer <;> simp

theorem manifest?_eq_some_iff {m : Manifest} :
    r.manifest? = some m ↔ ∃ octets, r.answer = .ok (some octets) ∧
      Manifest.decode? octets = some m := by
  simp only [manifest?, Option.bind_eq_some_iff, octets?_eq_some_iff]

end Reading

/-- The names of a manifest that are keys of the path and the policy, in its order and as
    often as it lists them. -/
def Manifest.namesOf (m : Manifest) (path policy : String) : List String :=
  m.keys.filter fun name => (Key.parse? name).any fun key => key.path = path && key.policy = policy

namespace Backends

/-- The first lookup of a reader. -/
def listing (b : Backends) (moments : List Moment) : Reading :=
  (b.reading Manifest.name moments).1

/-- Names are looked up one after the other. -/
def readings (b : Backends) : List String → List Moment → List Reading
  | [], _ => []
  | name :: names, moments =>
    (b.reading name moments).1 :: readings b names (b.reading name moments).2

/-- The lookups of a reader that has found the manifest. -/
def listed (b : Backends) (moments : List Moment) (m : Manifest) (path policy : String) :
    List Reading :=
  b.readings (m.namesOf path policy) (b.reading Manifest.name moments).2

end Backends

namespace RateTable

variable {t : RateTable} {moments : List Moment}

/-! ## What readings come to -/

/-- The answer of a reader whose lookups of entries are these. -/
def answerOf (readings : List Reading) : Except ReadError (List Entry) :=
  match readings.findSome? Reading.fault? with
  | some fault => .error (.store fault)
  | none => .ok (readings.filterMap Reading.entry?)

/-- A list of lookups ends in an error if and only if one of them failed. -/
theorem answerOf_eq_error_iff {readings : List Reading} :
    (∃ e, answerOf readings = .error e) ↔ ∃ r ∈ readings, r.Fails := by
  have hfails : (∃ r ∈ readings, r.Fails) ↔
      ∃ fault, readings.findSome? Reading.fault? = some fault := by
    rw [← Option.isSome_iff_exists, List.findSome?_isSome_iff]
    simp only [Option.isSome_iff_exists, Reading.fault?_eq_some_iff, Reading.Fails]
  rw [hfails, answerOf]
  cases readings.findSome? Reading.fault? with
  | some fault => exact iff_of_true ⟨_, rfl⟩ ⟨fault, rfl⟩
  | none => exact iff_of_false nofun nofun

/-- Lookups that do not fail give the entries that can be decoded. -/
theorem answerOf_of_not_fails {readings : List Reading} (h : ∀ r ∈ readings, ¬ r.Fails) :
    answerOf readings = .ok (readings.filterMap Reading.entry?) := by
  have hnone : readings.findSome? Reading.fault? = none := by
    rw [List.findSome?_eq_none_iff]
    intro r hr
    rw [Option.eq_none_iff_forall_ne_some]
    exact fun fault hfault => h r hr ⟨fault, Reading.fault?_eq_some_iff.mp hfault⟩
  rw [answerOf, hnone]

theorem answerOf_cons (r : Reading) (rest : List Reading) :
    answerOf (r :: rest) = match r.answer with
      | .error fault => .error (.store fault)
      | .ok _ => (answerOf rest).map (r.entry?.toList ++ ·) := by
  cases ha : r.answer with
  | error fault =>
    have hfault : r.fault? = some fault := by rw [Reading.fault?, ha]
    rw [answerOf, List.findSome?_cons, hfault]
  | ok found =>
    have hfault : r.fault? = none := by rw [Reading.fault?, ha]
    rw [answerOf, List.findSome?_cons, hfault]
    dsimp only [answerOf]
    cases rest.findSome? Reading.fault? with
    | some fault => rfl
    | none =>
      cases he : r.entry? with
      | none => rw [List.filterMap_cons_none he]; rfl
      | some e => rw [List.filterMap_cons_some he]; rfl

/-- The answer of a reader that is told this of the manifest. -/
def answerTo (listing : Reading) (listed : Manifest → List Reading) :
    Except ReadError (List Entry) :=
  match listing.answer with
  | .error fault => .error (.store fault)
  | .ok none => .ok []
  | .ok (some octets) =>
    match Manifest.decode? octets with
    | none => .error .corruptManifest
    | some m => answerOf (listed m)

/-- A reader fails at a listing that fails, at one that is no manifest, and at a
    key that it wants. -/
theorem answerTo_eq_error_iff {listing : Reading} {listed : Manifest → List Reading} :
    (∃ e, answerTo listing listed = .error e) ↔
      listing.Fails ∨
      (∃ octets, listing.octets? = some octets ∧ Manifest.decode? octets = none) ∨
      ∃ m, listing.manifest? = some m ∧ ∃ r ∈ listed m, r.Fails := by
  -- A listing that fails is told apart by its answer, as all else here is.
  have hfails : listing.Fails ↔ ∃ fault, listing.answer = .error fault := by
    simp only [Reading.answer_eq_error_iff, Reading.Fails]
  simp only [answerTo, hfails, Reading.manifest?_eq_some_iff, Reading.octets?_eq_some_iff]
  rcases listing.answer with fault | found
  · exact iff_of_true ⟨_, rfl⟩ (.inl ⟨fault, rfl⟩)
  · rcases found with - | octets
    · refine iff_of_false nofun ?_
      rintro (⟨_, ⟨⟩⟩ | ⟨_, ⟨⟩, -⟩ | ⟨_, ⟨_, ⟨⟩, -⟩, -⟩)
    · cases hd : Manifest.decode? octets with
      | none => exact iff_of_true ⟨_, by simp only [hd]; rfl⟩ (.inr (.inl ⟨octets, rfl, hd⟩))
      | some m =>
        simp only [hd]
        rw [answerOf_eq_error_iff]
        constructor
        · exact fun h => .inr (.inr ⟨m, ⟨octets, rfl, hd⟩, h⟩)
        · rintro (⟨_, ⟨⟩⟩ | ⟨_, ⟨⟩, hnone⟩ | ⟨_, ⟨_, ⟨⟩, hm⟩, h⟩)
          · rw [hd] at hnone
            cases hnone
          · cases hd.symm.trans hm
            exact h

/-! ## The reader -/

/-- One more key before the others. -/
theorem run_entries_cons {σ τ : RateTable × List Moment} {r : Reading} {key : Key} (rest : List Key)
    (hlookup : (amid.lookup key.render).run σ = (r.answer, τ)) :
    ((amid.entries (key :: rest)).run σ).run.1 = match r.answer with
      | .error fault => .error (.store fault)
      | .ok _ => ((amid.entries rest).run τ).run.1.map (r.entry?.toList ++ ·) := by
  have skipped (answer : Except ReadError (List Entry)) : answer = answer.map ([] ++ ·) := by
    cases answer <;> rfl
  simp only [Access.entries, Access.entry, run_bind, hlookup]
  match ha : r.answer with
  | .error fault => rfl
  | .ok none =>
    have hentry : r.entry? = none := by rw [Reading.entry?, Reading.octets?, ha]; rfl
    rw [hentry]
    exact skipped _
  | .ok (some octets) =>
    have hentry : r.entry? = (Entry.decode octets).toOption := by
      rw [Reading.entry?, Reading.octets?, ha]; rfl
    rw [hentry]
    cases hd : Entry.decode octets with
    | error e =>
      simp only [hd]
      exact skipped _
    | ok e =>
      simp only [hd]
      rfl

/-- A reading of entries answers as its lookups say. -/
theorem run_entries (quiet : ∀ moment ∈ moments, moment.events = []) (keys : List Key) :
    ((amid.entries keys).run (t, moments)).run.1 =
      answerOf (t.backends.readings (keys.map Key.render) moments) := by
  -- The moments are any, as those of the first lookup are gone when the others begin.
  induction keys generalizing t moments with
  | nil => rfl
  | cons key rest ih =>
    obtain ⟨ledger, hlookup⟩ := run_lookup (t := t) quiet key.render
    have quiet' : ∀ moment ∈ (t.backends.reading key.render moments).2, moment.events = [] :=
      fun m hm => quiet m (Backends.mem_of_mem_reading hm)
    rw [run_entries_cons rest hlookup, ih quiet', List.map_cons, Backends.readings, answerOf_cons]

/-- What a reader answers, in terms of what it is told. -/
theorem candidatesAmid_eq_answerTo (quiet : ∀ moment ∈ moments, moment.events = [])
    (path policy : String) :
    t.candidatesAmid moments path policy =
      answerTo (t.backends.listing moments) fun m => t.backends.listed moments m path policy := by
  obtain ⟨ledger, hlookup⟩ := run_lookup (t := t) quiet Manifest.name
  have quiet' : ∀ moment ∈ (t.backends.reading Manifest.name moments).2, moment.events = [] :=
    fun m hm => quiet m (Backends.mem_of_mem_reading hm)
  rw [candidatesAmid, Backends.listing, answerTo]
  simp only [Access.candidates, Access.manifest, run_bind, hlookup]
  rcases (t.backends.reading Manifest.name moments).1.answer with fault | found
  · rfl
  · rcases found with - | octets
    · rfl
    · cases hd : Manifest.decode? octets with
      | none =>
        simp only [hd]
        rfl
      | some m =>
        simp only [hd]
        rw [Backends.listed, Manifest.namesOf, ← map_render_keysOf]
        exact run_entries (t := { t with ledger }) quiet' _

/-- **One bad record hides no other.** A reader fails exactly if the store fails it, at the manifest
    or at a key that it wants, or if what it finds for the manifest is none. Otherwise it answers
    with the good records of the keys that it wants, as they come in the manifest and as often, and
    where there is no manifest with no entries. -/
theorem candidates_of_readings (quiet : ∀ moment ∈ moments, moment.events = [])
    (path policy : String) :
    ((∃ e, t.candidatesAmid moments path policy = .error e) ↔
        (t.backends.listing moments).Fails ∨
        (∃ octets, (t.backends.listing moments).octets? = some octets ∧
          Manifest.decode? octets = none) ∨
        ∃ m, (t.backends.listing moments).manifest? = some m ∧
          ∃ r ∈ t.backends.listed moments m path policy, r.Fails) ∧
      (t.backends.listing moments = .stored none → t.candidatesAmid moments path policy = .ok []) ∧
      ∀ m, (t.backends.listing moments).manifest? = some m →
        (∀ r ∈ t.backends.listed moments m path policy, ¬ r.Fails) →
        t.candidatesAmid moments path policy =
          .ok ((t.backends.listed moments m path policy).filterMap Reading.entry?) := by
  rw [candidatesAmid_eq_answerTo quiet]
  refine ⟨answerTo_eq_error_iff, fun hnone => ?_, fun m hm hgood => ?_⟩
  · rw [hnone]
    rfl
  · obtain ⟨octets, hoctets, hdecode⟩ := Reading.manifest?_eq_some_iff.mp hm
    simp only [answerTo, hoctets, hdecode]
    exact answerOf_of_not_fails hgood

/-! ## A table in disorder -/

/-- A key twice, a name that is no key, the keys of a corrupt and of a missing record, and one
    of another policy. -/
def disorder : Manifest :=
  ⟨8, 1700000000,
    ["#ndt##10.0.0.1", "ndt", "#ndt##10.0.0.2", "#ndt##10.0.0.1", "#ndt##10.0.0.3",
      "#ndt#geo#10.0.0.1"]⟩

/-- The cache has a record of its own where the store has none, and it is corrupt too. -/
def disorderly : RateTable where
  backends := {
    store := .memory (patchyRecords.put Manifest.name disorder.encode)
    cache := Records.empty.put "#ndt##10.0.0.3" "no row".toUTF8 }
  synchronizer := { timeout := .zero }

/-- The cache fails at the manifest, and misses the first key. -/
def hindered : List Moment :=
  [{ cache := .fails }, {}, { cache := .misses }]

/-- The same, and later the store refuses to tell of the corrupt record. -/
def refusing : List Moment :=
  hindered ++ [({} : Moment), {}, { store := .refused .decode }]

/-- Of the six names four are looked up, and the one entry is found twice. If the store fails
    at one, nothing is. -/
theorem candidates_of_readings_disorderly :
    (∀ moment ∈ refusing, moment.events = []) ∧
      (∃ entries, disorderly.candidatesAmid hindered "ndt" "" = .ok entries ∧
        entries.map (fun e => e.key.target) = ["10.0.0.1", "10.0.0.1"]) ∧
      ∃ e, disorderly.candidatesAmid refusing "ndt" "" = .error e := by
  have quiet : ∀ moment ∈ refusing, moment.events = [] := by simp [refusing, hindered]
  have quiet' : ∀ moment ∈ hindered, moment.events = [] :=
    fun m hm => quiet m (List.mem_append_left _ hm)
  have hentries := (candidates_of_readings (t := disorderly) quiet' "ndt" "").2.2 disorder
    (by decide +kernel) (by decide +kernel)
  have hfault := (candidates_of_readings (t := disorderly) quiet "ndt" "").1.mpr
    (.inr (.inr ⟨disorder, by decide +kernel, by decide +kernel⟩))
  exact ⟨quiet, ⟨_, hentries, by decide +kernel⟩, hfault⟩

end RateTable

end Roster
