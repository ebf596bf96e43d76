import Roster.Proofs.Read.Alongside
import Roster.Proofs.Read.Published

/-!
# Readers without a cache

The cache is there to be fast, and nothing that a reader finds should come from it. For that it is
enough that the cache is `Coherent`, that it has nothing under a key but what the store has. It may
have less, down to nothing at all, and it may fail at any lookup or be late. What it has is not
looked at: a record that nobody can decode, or one that stands under a key of its own choosing, is
the same record in both.

The comparison is with a reader of the store alone (`Store.alone`), which is the same program over
another `Access`. So there is one thing to prove, that a lookup goes alike (`lookup_alone`), and
`Alongside` carries it through the reader, however many keys the manifest lists.

Whether the store answers well is not asked. A fault of the store is found by both.
-/

namespace Roster

/-- The way of a reader to a store that has no cache beside it. -/
def Store.alone : Access (StateM Store) where
  cache _ := pure .miss
  store key s := (s.get key, s)
  record _ := pure ()

namespace Store

/-- The manifest that the store alone tells of. -/
def readManifest (s : Store) : Except ReadError (Option Manifest) :=
  (alone.manifest.run s).run.1

/-- The entry that the store alone tells of. -/
def readEntry (s : Store) (key : Key) : Except ReadError (Option Entry) :=
  ((alone.entry key).run s).run.1

/-- The candidates that the store alone tells of. -/
def readCandidates (s : Store) (path policy : String) : Except ReadError (List Entry) :=
  ((alone.candidates path policy).run s).run.1

end Store

/-- Whatever the cache has under a key, the store has there too. -/
def Backends.Coherent (b : Backends) : Prop :=
  ∀ key value, b.cache.get? key = some value → b.store.get key = .ok (some value)

namespace RateTable

variable {b : Backends} {t : RateTable} {moments : List Moment}

/-- What a reader is told about the manifest, with the given moments to come. -/
def manifestAmid (t : RateTable) (moments : List Moment) : Except ReadError (Option Manifest) :=
  (amid.manifest.run (t, moments)).run.1

/-! ## Lookups -/

/-- A reader of a table whose backends stay as they are, beside a reader of the store alone. -/
structure Aided (b : Backends) (σ : RateTable × List Moment) (s : Store) : Prop where
  still : Still b σ
  store : s = b.store

/-- **A lookup finds what the store has**, whatever the cache does meanwhile. -/
theorem lookup_alone (coherent : b.Coherent) (name : String) :
    Alongside (Aided b) (amid.lookup name) (Store.alone.lookup name) := by
  rintro σ s ⟨still, rfl⟩
  obtain ⟨hanswer, still'⟩ := still_lookup name σ still
  refine ⟨?_, still', rfl⟩
  change _ = b.store.get name
  rcases hanswer with hstore | ⟨found, hcache, hfound⟩
  · exact hstore
  · -- the answer is the cache's, and that is no other than the store's
    rw [hfound]
    exact (coherent name found (Except.ok.inj hcache)).symm

theorem aided (calm : ∀ moment ∈ moments, moment.Calm) :
    Aided t.backends (t, moments) t.backends.store :=
  ⟨⟨rfl, calm⟩, rfl⟩

/-! ## Readers -/

/-- The manifest is read as if there were no cache. -/
theorem manifestAmid_eq (coherent : t.backends.Coherent) (calm : ∀ moment ∈ moments, moment.Calm) :
    t.manifestAmid moments = t.backends.store.readManifest :=
  (Alongside.manifest (lookup_alone coherent) _ _ (aided calm)).1

/-- An entry is read as if there were no cache. -/
theorem entryAmid_eq (coherent : t.backends.Coherent) (calm : ∀ moment ∈ moments, moment.Calm)
    (key : Key) :
    t.entryAmid moments key = t.backends.store.readEntry key :=
  (Alongside.entry (lookup_alone coherent) key _ _ (aided calm)).1

/-- Candidates are read as if there were no cache. -/
theorem candidatesAmid_eq (coherent : t.backends.Coherent) (calm : ∀ moment ∈ moments, moment.Calm)
    (path policy : String) :
    t.candidatesAmid moments path policy = t.backends.store.readCandidates path policy :=
  (Alongside.candidates (lookup_alone coherent) path policy _ _ (aided calm)).1

/-- **The cache never changes an answer.** Two readers of the same backends find the same manifest,
    the same entries and the same candidates, however the cache takes each of their lookups, and so
    does a reader of the store alone. -/
theorem cache_changes_nothing (coherent : t.backends.Coherent) (first second : List Moment)
    (calm : ∀ moment ∈ first ++ second, moment.Calm) :
    (t.manifestAmid first = t.manifestAmid second ∧
      t.manifestAmid first = t.backends.store.readManifest) ∧
      (∀ key, t.entryAmid first key = t.entryAmid second key ∧
        t.entryAmid first key = t.backends.store.readEntry key) ∧
      ∀ path policy, t.candidatesAmid first path policy = t.candidatesAmid second path policy ∧
        t.candidatesAmid first path policy = t.backends.store.readCandidates path policy := by
  obtain ⟨hfirst, hsecond⟩ := List.forall_mem_append.mp calm
  refine ⟨⟨?_, manifestAmid_eq coherent hfirst⟩, fun key => ⟨?_, entryAmid_eq coherent hfirst key⟩,
    fun path policy => ⟨?_, candidatesAmid_eq coherent hfirst path policy⟩⟩
  · rw [manifestAmid_eq coherent hfirst, manifestAmid_eq coherent hsecond]
  · rw [entryAmid_eq coherent hfirst, entryAmid_eq coherent hsecond]
  · rw [candidatesAmid_eq coherent hfirst, candidatesAmid_eq coherent hsecond]

/-! ## A cache with gaps -/

/-- Three keys are listed: one has an entry, the record of one is corrupt, and one has none. -/
def patchyRecords : Records :=
  ((Records.empty.put Manifest.name
      (Manifest.encode ⟨7, 1700000000, ["#ndt##10.0.0.1", "#ndt##10.0.0.2", "#ndt##10.0.0.3"]⟩)).put
    "#ndt##10.0.0.1" (Json.write (rowFor "10.0.0.1").toJson).toUTF8).put "#ndt##10.0.0.2"
      "no row".toUTF8

/-- The cache has all that the store has but the manifest. -/
def patchyTable : RateTable where
  backends := { store := .memory patchyRecords, cache := patchyRecords.erase Manifest.name }
  synchronizer := { timeout := .zero }

theorem coherent_patchyTable : patchyTable.backends.Coherent := by
  intro key value hcache
  change (patchyRecords.erase Manifest.name).get? key = some value at hcache
  rw [Records.get?_erase] at hcache
  split at hcache
  · cases hcache
  · exact congrArg Except.ok hcache

/-- Two readers to whom the cache is of use at different lookups find the one entry that there
    is. -/
theorem cache_changes_nothing_patchyTable :
    patchyTable.backends.Coherent ∧
      patchyTable.candidatesAmid [{ cache := .fails }] "ndt" "" =
        patchyTable.candidatesAmid
          [({} : Moment), {}, { cache := .fails }, {}, { cache := .misses }] "ndt" "" ∧
      patchyTable.candidatesAmid [{ cache := .fails }] "ndt" "" =
        patchyTable.backends.store.readCandidates "ndt" "" ∧
      (patchyTable.backends.store.readCandidates "ndt" "").toOption.map List.length = some 1 := by
  have calm : ∀ moment ∈ [({ cache := .fails } : Moment)] ++
      [({} : Moment), {}, { cache := .fails }, {}, { cache := .misses }], moment.Calm := by
    simp [Moment.Calm]
  have hsame := (cache_changes_nothing coherent_patchyTable _ _ calm).2.2 "ndt" ""
  exact ⟨coherent_patchyTable, hsame.1, hsame.2, by decide +kernel⟩

end RateTable

end Roster
