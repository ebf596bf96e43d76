import Roster.Proofs.Json.RoundTrip

/-!
# Records that were written

A record is written as an object that has each of its fields once, in their order, and this is all
that its reader needs to know: `record?_fields` gives the fields back for any names that are
distinct. What the fields are read as is for each record to say.
-/

namespace Roster.Json

variable {members : List (String × Json)} {name : String} {x : Json}

/-! ## What can be written -/

theorem wf_text (text : String) : Wf (Json.text text) :=
  rfl

theorem wf_nat (n : Nat) : Wf (Json.nat n) :=
  Decimal.wf_ofNat n

theorem wf_int (n : Int) : Wf (Json.int n) :=
  Decimal.wf_ofInt n

theorem wf_float (x : Float) : Wf (Json.float x) :=
  Decimal.wf_ofFloat .json x

/-- A list of texts is well formed. -/
theorem wf_texts (items : List String) : Wf (texts items) := by
  change WfElements (items.map text)
  induction items with
  | nil => trivial
  | cons item rest ih => exact ⟨wf_text item, ih⟩

/-- An object is well formed if each of its fields is. -/
theorem wf_fields (h : ∀ m ∈ members, Wf m.2) : Wf (fields members) := by
  change WfMembers (members.map fun m => (some m.1, m.2))
  induction members with
  | nil => trivial
  | cons m rest ih =>
    exact ⟨rfl, h m List.mem_cons_self, ih fun m' hm => h m' (List.mem_cons_of_mem m hm)⟩

/-! ## Fields -/

/-- A field of an object that names each of its fields once is found. -/
theorem memberOnce_map (hn : (members.map Prod.fst).Nodup) (hm : (name, x) ∈ members) :
    Tree.memberOnce name (members.map fun (name, x) => (some name, x)) = some (some x) := by
  suffices hfilter : (members.map fun (name, x) => (some name, x)).filter
      (fun m => m.1 == some name) = [(some name, x)] by
    rw [Tree.memberOnce, hfilter]
  induction members with
  | nil => cases hm
  | cons m rest ih =>
    obtain ⟨first, y⟩ := m
    rw [List.map_cons, List.nodup_cons] at hn
    obtain ⟨hfirst, hn⟩ := hn
    rcases List.mem_cons.mp hm with heq | hm
    · cases heq
      -- No later field has the name again.
      have hnone : (rest.map fun (name, x) => (some name, x)).filter
          (fun m => m.1 == some name) = [] := by
        rw [List.filter_eq_nil_iff]
        rintro m hmem heq
        obtain ⟨⟨other, z⟩, hother, rfl⟩ := List.mem_map.mp hmem
        simp only [beq_iff_eq, Option.some.injEq] at heq
        exact hfirst (List.mem_map.mpr ⟨(other, z), hother, heq⟩)
      rw [List.map_cons, List.filter_cons, if_pos (by simp), hnone]
    -- The name is of a later field and so is not that of the first.
    · have hne : first ≠ name := by
        rintro rfl
        exact hfirst (List.mem_map.mpr ⟨(first, x), hm, rfl⟩)
      rw [List.map_cons, List.filter_cons, if_neg (by simpa using hne), ih hn hm]

/-- The fields of an object are found in their order. -/
theorem mapM_fst {f : String → Option (Option Json)}
    (h : ∀ m ∈ members, f m.1 = some (some m.2)) :
    (members.map Prod.fst).mapM f = some (members.map fun m => some m.2) := by
  induction members with
  | nil => rfl
  | cons m rest ih =>
    rw [List.map_cons, List.mapM_cons, h m List.mem_cons_self,
      ih fun m' hm => h m' (List.mem_cons_of_mem m hm)]
    rfl

/-- **A record with distinct fields is read as the fields that it was written with.** -/
theorem record?_fields (h : (members.map Prod.fst).Nodup) :
    (fields members).record? (members.map Prod.fst) = some (members.map fun m => some m.2) := by
  have hnames : ((members.map fun (name, x) => (some name, x)).any fun m => m.1.isNone) =
      false := by
    simp
  change Tree.object? _ (fields members) = _
  simp only [Tree.object?, fields, Tree.members?, Option.bind_eq_bind, Option.bind_some, hnames,
    Bool.false_eq_true, if_false]
  exact mapM_fst fun m hm => memberOnce_map h hm

end Roster.Json
