import Mathlib.Algebra.Group.Nat.Defs
import Roster.Proofs.Json.Record
import Roster.Table.Manifest

/-!
# Stored manifests

A manifest is read back from its octets if its two numbers fit 64 bits, which is what the reader
accepts. The keys may be any texts.
-/

namespace Roster.Manifest

variable {m : Manifest} {n : Nat}

theorem int?_nat (h : n < UInt64.size) : (Json.nat n).int? = some (n : Int) := by
  change (Decimal.Numeral.ofNat n).toNumber?.bind Decimal.Number.toInt? = some (n : Int)
  rw [Decimal.toNumber?_ofNat h]
  rfl

/-- A number that is small enough is read back. -/
theorem natBelow?_nat {bits : Nat} (hsize : n < UInt64.size) (h : n < 2 ^ bits) :
    Tree.natBelow? bits (Json.nat n) = some n := by
  have hfits : (0 : Int) ≤ n ∧ (n : Int) < Nat.pow 2 bits :=
    ⟨Int.natCast_nonneg n, Int.ofNat_lt.mpr h⟩
  rw [Tree.natBelow?, int?_nat hsize]
  simp only [Option.bind_eq_bind, Option.bind_some]
  rw [if_pos hfits, Int.toNat_natCast]

/-- A list of texts is read back. -/
theorem list?_texts (items : List String) :
    Tree.list? Tree.text? (Json.texts items) = some items := by
  change (items.map Json.text).mapM Tree.text? = some items
  induction items with
  | nil => rfl
  | cons item rest ih =>
    rw [List.map_cons, List.mapM_cons, ih]
    rfl

/-- **A manifest is read back.** -/
theorem decode?_encode (hc : m.cycle < 2 ^ 64) (hp : m.publishedAt < 2 ^ 64) :
    decode? m.encode = some m := by
  have wf : Json.Wf m.toJson := by
    refine Json.wf_fields ?_
    simp only [List.forall_mem_cons, List.not_mem_nil, false_implies, implies_true, and_true]
    exact ⟨Json.wf_nat _, Json.wf_nat _, Json.wf_texts _⟩
  have hrecord : m.toJson.record? ["cycle", "published_at", "keys"] =
      some [some (Json.nat m.cycle), some (Json.nat m.publishedAt), some (Json.texts m.keys)] := by
    have hnames : ([("cycle", Json.nat m.cycle), ("published_at", Json.nat m.publishedAt),
        ("keys", Json.texts m.keys)].map Prod.fst).Nodup := by
      simp
    exact Json.record?_fields hnames
  rw [decode?, encode, Json.read?_write wf, Option.bind_some, ofTree?, hrecord]
  simp [Tree.required, natBelow?_nat hc hc, natBelow?_nat hp hp, list?_texts]

end Roster.Manifest
