import Mathlib.Data.List.Nodup
import Roster.Proofs.Table.Entry
import Roster.Proofs.Table.Key
import Roster.Table.Snapshot

/-!
# What a snapshot holds

Entries reach a snapshot one by one through `insert`, and from rows only, so whatever holds of every
entry of a row holds throughout a snapshot that was formed from rows. `Snapshot.Valid` is that for
`Entry.Valid`. Of a valid snapshot the written keys tell the entries apart, which is what makes it
possible to speak of a key in a backend and to mean an entry.
-/

namespace Roster.Snapshot

variable {s : Snapshot} {k : Key} {e e' : Entry} {rows : List Row} {name : String}

/-- Every entry is one that a row can give. -/
def Valid (s : Snapshot) : Prop :=
  ∀ e ∈ s.entries, e.Valid

/-- An insertion replaces the entries with its key. -/
theorem mem_insert_iff : e' ∈ (s.insert e).entries ↔ e' = e ∨ e' ∈ s.entries ∧ e'.key ≠ e.key := by
  simp only [insert, others, List.mem_append, List.mem_filter, List.mem_singleton,
    decide_eq_true_eq]
  exact or_comm

theorem mem_keys_insert_iff : k ∈ (s.insert e).keys ↔ k = e.key ∨ k ∈ s.keys := by
  simp only [keys, List.mem_map, mem_insert_iff]
  constructor
  · rintro ⟨e', rfl | ⟨hmem, -⟩, rfl⟩
    · exact .inl rfl
    · exact .inr ⟨e', hmem, rfl⟩
  · rintro (rfl | ⟨e', hmem, rfl⟩)
    · exact ⟨e, .inl rfl, rfl⟩
    · by_cases h : e'.key = e.key
      · exact ⟨e, .inl rfl, h.symm⟩
      · exact ⟨e', .inr ⟨hmem, h⟩, rfl⟩

/-- A snapshot has its entries under their keys. -/
theorem get?_of_mem (h : e ∈ s.entries) : s.get? e.key = some e := by
  cases hfound : s.get? e.key with
  | none => exact absurd (decide_eq_true rfl) (List.find?_eq_none.mp hfound e h)
  | some e' =>
    have hkey : e'.key = e.key := by simpa using List.find?_some hfound
    rw [List.inj_on_of_nodup_map s.nodup (List.mem_of_find?_eq_some hfound) h hkey]

/-- What is found for a key is the entry that has it. -/
theorem get?_eq_some_iff : s.get? k = some e ↔ e ∈ s.entries ∧ e.key = k := by
  constructor
  · intro h
    exact ⟨List.mem_of_find?_eq_some h, by simpa using List.find?_some h⟩
  · rintro ⟨hmem, rfl⟩
    exact get?_of_mem hmem

/-- The entries of a snapshot are among those that it is made of. -/
theorem mem_of_mem_ofEntries {entries : List Entry} (h : e ∈ (ofEntries entries).entries) :
    e ∈ entries := by
  -- The induction is over what is still to be inserted, so it has to start from any snapshot.
  suffices ∀ (entries : List Entry) (s : Snapshot), e ∈ (entries.foldl insert s).entries →
      e ∈ s.entries ∨ e ∈ entries by
    rcases this entries empty h with hempty | hmem
    · cases hempty
    · exact hmem
  intro entries
  induction entries with
  | nil => exact fun s h => .inl h
  | cons first rest ih =>
    intro s h
    rcases ih (s.insert first) h with hins | hrest
    · rcases mem_insert_iff.mp hins with rfl | ⟨hs, -⟩
      · exact .inr List.mem_cons_self
      · exact .inl hs
    · exact .inr (List.mem_cons_of_mem first hrest)

/-- **Every entry of a snapshot comes from one of its rows.** -/
theorem exists_row_of_mem_ofRows (h : e ∈ (ofRows rows).1.entries) :
    ∃ r ∈ rows, Entry.ofRow r = .ok e := by
  obtain ⟨r, hr, hopt⟩ := List.mem_filterMap.mp (mem_of_mem_ofEntries h)
  refine ⟨r, hr, ?_⟩
  cases hrow : Entry.ofRow r with
  | error m => rw [hrow] at hopt; cases hopt
  | ok e' => rw [hrow] at hopt; cases hopt; rfl

/-- What is made of rows is valid. -/
theorem valid_ofRows (rows : List Row) : (ofRows rows).1.Valid := by
  intro e he
  obtain ⟨r, -, hrow⟩ := exists_row_of_mem_ofRows he
  exact Entry.valid_of_ofRow hrow

/-! ## Written keys -/

theorem mem_names_iff : name ∈ s.names ↔ ∃ e ∈ s.entries, e.key.render = name := by
  simp [names, keys]

/-- No entry is stored under the name of the manifest. -/
theorem name_not_mem_names (s : Snapshot) : Manifest.name ∉ s.names := by
  intro h
  obtain ⟨e, -, hname⟩ := mem_names_iff.mp h
  exact Key.render_ne_name e.key hname

theorem empty_not_mem_names (s : Snapshot) : "" ∉ s.names := by
  intro h
  obtain ⟨e, -, hname⟩ := mem_names_iff.mp h
  exact Key.render_ne_empty e.key hname

/-- **No two entries of a valid snapshot are written under one key.** -/
theorem eq_of_render_eq (hs : s.Valid) (he : e ∈ s.entries) (he' : e' ∈ s.entries)
    (h : e.key.render = e'.key.render) : e = e' :=
  List.inj_on_of_nodup_map s.nodup he he' (Key.render_injective (hs e he).key (hs e' he').key h)

/-- Entries are stored under different names. -/
theorem nodup_names (hs : s.Valid) : s.names.Nodup := by
  rw [names, keys, List.map_map]
  refine List.Nodup.map_on ?_ (List.Nodup.of_map _ s.nodup)
  intro e he e' he' h
  exact eq_of_render_eq hs he he' h

end Roster.Snapshot
