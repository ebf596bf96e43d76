import Roster.Table.Entry

/-!
# Snapshots

A snapshot is the set of entries that one analytics result describes, at most one for each key. Rows
are taken one by one: a malformed row is set aside, and a later row replaces an earlier one with the
same key. Entries stand in the order in which they were last given.
-/

namespace Roster

/-- Entries, no two of them with the same key. -/
structure Snapshot where
  entries : List Entry
  nodup : (entries.map Entry.key).Nodup

namespace Snapshot

/-- No entries. -/
def empty : Snapshot :=
  ⟨[], List.nodup_nil⟩

/-- The entries of all other keys. -/
def others (entries : List Entry) (k : Key) : List Entry :=
  entries.filter fun e => e.key ≠ k

/-- None of the others has the key. -/
theorem not_mem_keys_others (entries : List Entry) (k : Key) :
    k ∉ (others entries k).map Entry.key := by
  simp [others]

theorem nodup_others {entries : List Entry} (k : Key) (h : (entries.map Entry.key).Nodup) :
    ((others entries k).map Entry.key).Nodup :=
  (List.filter_sublist.map Entry.key).nodup h

/-- Adds an entry in the place of one with the same key. -/
def insert (s : Snapshot) (e : Entry) : Snapshot where
  entries := others s.entries e.key ++ [e]
  nodup := by
    rw [List.map_append, List.nodup_append]
    refine ⟨nodup_others e.key s.nodup, by simp, ?_⟩
    intro a ha b hb
    simp only [List.map_cons, List.map_nil, List.mem_singleton] at hb
    rintro rfl
    exact not_mem_keys_others s.entries e.key (hb ▸ ha)

/-- Of the entries with the same key the last one counts. -/
def ofEntries (entries : List Entry) : Snapshot :=
  entries.foldl insert empty

/-- The rows that are entries, and the faults of the others, each in order. -/
def sort (rows : List Row) : List Entry × List Entry.Malformed :=
  (rows.filterMap fun r => (Entry.ofRow r).toOption,
    rows.filterMap fun r => match Entry.ofRow r with
      | .error m => some m
      | .ok _ => none)

/-- The snapshot of a list of rows, and the faults of the rows that it does not hold. -/
def ofRows (rows : List Row) : Snapshot × List Entry.Malformed :=
  (ofEntries (sort rows).1, (sort rows).2)

/-- The entry of a key. -/
def get? (s : Snapshot) (k : Key) : Option Entry :=
  s.entries.find? fun e => e.key = k

/-- There is an entry of a key. -/
def contains (s : Snapshot) (k : Key) : Bool :=
  (s.get? k).isSome

/-- The number of entries. -/
def size (s : Snapshot) : Nat :=
  s.entries.length

/-- There are no entries. -/
def isEmpty (s : Snapshot) : Bool :=
  s.entries.isEmpty

/-- The keys of the entries. -/
def keys (s : Snapshot) : List Key :=
  s.entries.map Entry.key

/-- The keys in writing. -/
def names (s : Snapshot) : List String :=
  s.keys.map Key.render

end Snapshot

end Roster
