/-!
# Records

Octets under names, at most one value for each name. A record that is put replaces the one under the
same name. `get?` is the view: `get?_put` and `get?_erase` say what it shows afterwards, and
`mem_keys_iff` that the keys are the names that have a value.
-/

namespace Roster

/-- Names with values, none of them twice. -/
structure Records where
  items : List (String × ByteArray)
  nodup : (items.map Prod.fst).Nodup

namespace Records

/-- No records. -/
def empty : Records :=
  ⟨[], List.nodup_nil⟩

instance : Inhabited Records := ⟨empty⟩

/-- The value of a name. -/
def get? (r : Records) (name : String) : Option ByteArray :=
  r.items.lookup name

/-- The records of all other names. -/
def others (items : List (String × ByteArray)) (name : String) : List (String × ByteArray) :=
  items.filter fun item => item.1 ≠ name

theorem not_mem_others (items : List (String × ByteArray)) (name : String) :
    name ∉ (others items name).map Prod.fst := by
  simp [others]

theorem nodup_others {items : List (String × ByteArray)} (name : String)
    (h : (items.map Prod.fst).Nodup) : ((others items name).map Prod.fst).Nodup :=
  (List.filter_sublist.map Prod.fst).nodup h

/-- Gives a name a value, instead of the one that it had. -/
def put (r : Records) (name : String) (value : ByteArray) : Records where
  items := (name, value) :: others r.items name
  nodup := by
    rw [List.map_cons, List.nodup_cons]
    exact ⟨not_mem_others r.items name, nodup_others name r.nodup⟩

/-- Takes a name away. -/
def erase (r : Records) (name : String) : Records where
  items := others r.items name
  nodup := nodup_others name r.nodup

/-- The names that have values. -/
def keys (r : Records) : List String :=
  r.items.map Prod.fst

/-- The records beside a name are those that there were, without that name. -/
theorem lookup_others (items : List (String × ByteArray)) (name other : String) :
    (others items name).lookup other = if other = name then none else items.lookup other := by
  induction items with
  | nil => simp [others]
  | cons item rest ih =>
    obtain ⟨k, v⟩ := item
    simp only [others, List.filter_cons] at ih ⊢
    by_cases hk : k = name <;> by_cases ho : other = k <;> grind

@[simp] theorem get?_empty (name : String) : empty.get? name = none := rfl

/-- Putting a record replaces that record alone. -/
theorem get?_put (r : Records) (name other : String) (value : ByteArray) :
    (r.put name value).get? other = if other = name then some value else r.get? other := by
  by_cases h : other = name
  · simp [get?, put, h]
  · simp [get?, put, h, List.lookup_cons, lookup_others, beq_eq_false_iff_ne.mpr h]

/-- Erasing a record removes that record alone. -/
theorem get?_erase (r : Records) (name other : String) :
    (r.erase name).get? other = if other = name then none else r.get? other :=
  lookup_others r.items name other

/-- The keys are the names under which something is found. -/
theorem mem_keys_iff (r : Records) (name : String) : name ∈ r.keys ↔ (r.get? name).isSome := by
  simp only [keys, get?]
  induction r.items with
  | nil => simp
  | cons item rest ih => by_cases h : name = item.1 <;> grind

/-- No key is listed twice. -/
theorem nodup_keys (r : Records) : r.keys.Nodup :=
  r.nodup

end Records

end Roster
