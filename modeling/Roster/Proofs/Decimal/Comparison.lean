import Roster.Proofs.Decimal.Operations

/-!
# Comparing any two doubles

`Roster.Proofs.Decimal.Operations` compares doubles of which the sign is known. Here the two are any
doubles, infinities and what is no number included, and only this is said: how `<`, `≤` and `==`
hang together. They are three readings of one comparison, which turns round with its arguments
(`compare_swap`) and can also have no answer. So `¬y < x` is `x ≤ y` only where there is an order at
all (`le_of_not_lt`), and two doubles that are in order both ways are `==`, which is less than being
one double: zero has two signs (`eq_or_zero_of_beq`).
-/

namespace Roster.Decimal

open Float.Model (UnpackedFloat)
open Float.Model.UnpackedFloat (Sign)

variable {x y : Float} {u v : UnpackedFloat}

/-- Comparing the other way round turns the answer round. -/
theorem compare_swap (u v : UnpackedFloat) : v.compare u = (u.compare v).map Ordering.swap := by
  cases u with
  | notANumber => cases v <;> rfl
  | infinity s => cases v with
    | notANumber => rfl
    | infinity t => cases s <;> cases t <;> rfl
    | zero t => cases s <;> rfl
    | finite t n f hn => cases s <;> rfl
  | zero s => cases v with
    | notANumber => rfl
    | infinity t => cases t <;> rfl
    | zero t => rfl
    | finite t n f hn => cases t <;> rfl
  | finite s m e hm => cases v with
    | notANumber => cases s <;> rfl
    | infinity t => cases t <;> rfl
    | zero t => cases s <;> rfl
    | finite t n f hn =>
      have hswap : (compare f e).then (compare n m) = ((compare e f).then (compare m n)).swap := by
        rw [Ordering.swap_then, ← Std.OrientedCmp.eq_swap, ← Std.OrientedCmp.eq_swap]
      cases s <;> cases t
      · exact congrArg (fun o => some (Ordering.swap o)) hswap
      · rfl
      · rfl
      · exact congrArg some hswap

/-- What compares as equal is the same, but for the sign of zero. -/
theorem eq_or_zero_of_compare (h : u.compare v = some .eq) :
    u = v ∨ ∃ s t, u = .zero s ∧ v = .zero t := by
  have hparts {e f : ℤ} {m n : ℕ} (h : (compare e f).then (compare m n) = .eq) : e = f ∧ m = n := by
    rw [Ordering.then_eq_eq] at h
    exact ⟨compare_eq_iff_eq.mp h.1, compare_eq_iff_eq.mp h.2⟩
  cases u with
  | notANumber => cases v <;> cases h
  | infinity s => cases v with
    | notANumber => cases h
    | infinity t =>
      cases s <;> cases t
      · exact .inl rfl
      · cases h
      · cases h
      · exact .inl rfl
    | zero t => cases s <;> cases h
    | finite t n f hn => cases s <;> cases h
  | zero s => cases v with
    | notANumber => cases h
    | infinity t => cases t <;> cases h
    | zero t => exact .inr ⟨s, t, rfl, rfl⟩
    | finite t n f hn => cases t <;> cases h
  | finite s m e hm => cases v with
    | notANumber => cases s <;> cases h
    | infinity t => cases t <;> cases h
    | zero t => cases s <;> cases h
    | finite t n f hn =>
      cases s <;> cases t
      · obtain ⟨rfl, rfl⟩ := hparts (Ordering.swap_eq_eq.mp (Option.some.inj h))
        exact .inl rfl
      · cases h
      · cases h
      · obtain ⟨rfl, rfl⟩ := hparts (Option.some.inj h)
        exact .inl rfl

/-- Doubles are equal by the order of what their bits stand for. -/
theorem beq_iff (x y : Float) : x == y ↔ x.toModel.unpack.compare y.toModel.unpack = some .eq := by
  change x.toModel.unpack.beq y.toModel.unpack ↔ _
  rw [UnpackedFloat.beq, beq_iff_eq]

/-- What the bits of a double stand for determines the double. -/
theorem unpack_injective (h : x.toModel.unpack = y.toModel.unpack) : x = y := by
  refine Float.toBits_inj.mp (UInt64.toBitVec_inj.mp ?_)
  have hx : UnpackedFloat.pack .binary64 x.toModel.unpack = x.toBits.toBitVec :=
    UnpackedFloat.pack_unpack_of_valid x.toModel.valid
  rw [h] at hx
  exact hx.symm.trans (UnpackedFloat.pack_unpack_of_valid y.toModel.valid)

theorem unpack_zero (s : Sign) : (double s .zero).toModel.unpack = .zero s := by
  rw [unpack_double finite_zero]
  exact Binary.unpacked_of_eq_zero s rfl

theorem eq_double_zero {s : Sign} (h : x.toModel.unpack = .zero s) : x = double s .zero :=
  unpack_injective (h.trans (unpack_zero s).symm)

/-- Doubles that compare as equal are the same, but for the sign of zero. -/
theorem eq_or_zero_of_beq (h : x == y) : x = y ∨ ∃ s t, x = double s .zero ∧ y = double t .zero :=
  (eq_or_zero_of_compare ((beq_iff x y).mp h)).imp unpack_injective
    fun ⟨s, t, hs, ht⟩ => ⟨s, t, eq_double_zero hs, eq_double_zero ht⟩

/-- Equal doubles of one sign are the same. -/
theorem eq_of_beq_of_sign (h : x == y) (hsign : sign x = sign y) : x = y := by
  obtain hsame | ⟨s, t, rfl, rfl⟩ := eq_or_zero_of_beq h
  · exact hsame
  · rw [(ofFloat_double finite_zero s).2, (ofFloat_double finite_zero t).2] at hsign
    rw [hsign]

/-- Equal doubles are the same, unless one of them is the negative zero. -/
theorem eq_of_beq (h : x == y) (hx : x ≠ -0.0) (hy : y ≠ -0.0) : x = y := by
  have hpositive {s : Sign} (hne : double s .zero ≠ -0.0) : s = .positive := by
    cases s with
    | positive => rfl
    | negative =>
      refine absurd ?_ hne
      rw [← double_zero, neg_double finite_zero]
      rfl
  obtain hsame | ⟨s, t, rfl, rfl⟩ := eq_or_zero_of_beq h
  · exact hsame
  · rw [hpositive hx, hpositive hy]

theorem option_eq_of_beq {x y : Option Float} (h : x == y) (hx : x ≠ some (-0.0))
    (hy : y ≠ some (-0.0)) :
    x = y := by
  cases x with
  | none =>
    cases y with
    | none => rfl
    | some y => cases h
  | some x =>
    cases y with
    | none => cases h
    | some y => rw [eq_of_beq h (mt (congrArg some) hx) (mt (congrArg some) hy)]

theorem le_iff_compare (x y : Float) :
    x ≤ y ↔ ∃ o, x.toModel.unpack.compare y.toModel.unpack = some o ∧ o.isLE := by
  rw [le_iff, UnpackedFloat.le, Option.any_eq_true]

/-- No double is both above and below another one. -/
theorem not_lt_of_le (h : x ≤ y) : ¬y < x := by
  obtain ⟨o, ho, hle⟩ := (le_iff_compare x y).mp h
  rw [lt_iff, UnpackedFloat.lt, compare_swap x.toModel.unpack, ho]
  cases o with
  | lt => exact Bool.false_ne_true
  | eq => exact Bool.false_ne_true
  | gt => cases hle

theorem le_of_not_lt (h : ¬y < x) (hordered : x ≤ y ∨ y ≤ x) : x ≤ y := by
  refine hordered.elim id fun hle => ?_
  obtain ⟨o, ho, hisle⟩ := (le_iff_compare y x).mp hle
  rw [lt_iff, UnpackedFloat.lt, ho] at h
  rw [le_iff_compare, compare_swap y.toModel.unpack, ho]
  cases o with
  | lt => exact absurd rfl h
  | eq => exact ⟨.eq, rfl, rfl⟩
  | gt => cases hisle

/-- Numbers that are in order either way are one number, which may be zero with two signs. -/
theorem beq_of_le_of_le (h : x ≤ y) (h' : y ≤ x) : x == y := by
  obtain ⟨o, ho, hle⟩ := (le_iff_compare x y).mp h
  obtain ⟨o', ho', hle'⟩ := (le_iff_compare y x).mp h'
  rw [compare_swap x.toModel.unpack, ho] at ho'
  cases ho'
  rw [beq_iff, ho]
  cases o with
  | lt => cases hle'
  | eq => rfl
  | gt => cases hle

end Roster.Decimal
