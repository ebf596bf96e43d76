import Mathlib.Data.List.Perm.Basic
import Roster.Proofs.Decimal.Proportion
import Roster.Query.Random

/-!
# What chance can do

Of a shuffle only this is used: whatever the words are, it gives the same elements in some order.
Each step puts one more element somewhere among those before, so there is no need to know which
indices are drawn, and not even that they are in range. The words after it are those of the same
source (`shuffle_word`). And of the numbers that coins are flipped with, only that they are not
negative and below one: an entry that is taken has a greater probability, so it is positive, and an
entry of probability one is always taken. Waits are drawn with what is left to one of such a number,
and there it matters that this is never nothing (`one_sub_unit`).
-/

namespace Roster.Dice

open Decimal
open scoped List

variable {α : Type}

/-! ## Shuffling -/

theorem place_perm (done : List α) (index : ℕ) (x : α) : place done index x ~ x :: done := by
  unfold place
  split
  · next y hindex =>
    obtain ⟨hlt, rfl⟩ := List.getElem?_eq_some_iff.mp hindex
    calc
      done.set index x ++ [done[index]] ~ done[index] :: done.set index x :=
        List.perm_append_singleton _ _
      _ ~ done[index] :: x :: done.eraseIdx index := (List.set_perm_cons_eraseIdx hlt x).cons _
      _ ~ x :: done[index] :: done.eraseIdx index := List.Perm.swap _ _ _
      _ ~ x :: done := (List.getElem_cons_eraseIdx_perm hlt).cons x
  · exact List.perm_append_singleton x done

/-- A shuffle is a permutation. -/
theorem shuffleFrom_perm (done rest : List α) (c : Chunk) (d : Dice) :
    (shuffleFrom done rest c d).1 ~ done ++ rest := by
  induction rest generalizing done c d with
  | nil =>
    rw [List.append_nil]
    rfl
  | cons x rest ih =>
    rw [shuffleFrom]
    exact (ih _ _ _).trans (((place_perm done _ x).append_right rest).trans List.perm_middle.symm)

/-- **A shuffle loses nothing and invents nothing.** -/
theorem shuffle_perm (d : Dice) (xs : List α) : (d.shuffle xs).1 ~ xs := by
  unfold shuffle
  split
  · exact .refl xs
  · exact shuffleFrom_perm [] xs _ d

theorem below_word (d : Dice) (bound : ℕ) : (d.below bound).2.word = d.word := by
  unfold below
  dsimp only
  split <;> rfl

theorem nextIndex_word (d : Dice) (c : Chunk) (n : ℕ) : (d.nextIndex c n).2.2.word = d.word := by
  unfold nextIndex
  dsimp only
  split
  · split
    · exact below_word d _
    · exact below_word d _
  · split <;> rfl

/-- A shuffle leaves the words as they are. -/
theorem shuffleFrom_word (done rest : List α) (c : Chunk) (d : Dice) :
    (shuffleFrom done rest c d).2.word = d.word := by
  induction rest generalizing done c d with
  | nil => rfl
  | cons x rest ih =>
    rw [shuffleFrom]
    exact (ih _ _ _).trans (nextIndex_word d c _)

/-- A shuffle takes words from the source, which stays the same. -/
theorem shuffle_word (d : Dice) (xs : List α) : (d.shuffle xs).2.word = d.word := by
  unfold shuffle
  split
  · rfl
  · exact shuffleFrom_word [] xs _ d

/-! ## Numbers -/

/-- The distance of the numbers that are drawn. -/
def unitStep : Binary :=
  .ofParts (2 ^ 52) (-105)

theorem finite_unitStep : unitStep.Finite :=
  ⟨Binary.canonical_ofParts (by norm_num) (by norm_num) (.inl le_rfl),
    by simp [unitStep, Binary.ofParts]⟩

theorem value_unitStep : unitStep.value = 1 / 2 ^ 53 := by
  norm_num [Binary.value, unitStep, Binary.ofParts]

theorem double_unitStep : double .positive unitStep = Float.ofBits 0x3CA0000000000000 :=
  rfl

/-- The last number that can be drawn. -/
def lastUnit : Binary :=
  .ofParts (2 ^ 53 - 1) (-53)

theorem canonical_lastUnit : lastUnit.Canonical :=
  Binary.canonical_ofParts (by norm_num) (by norm_num) (.inl (by norm_num))

theorem value_lastUnit : lastUnit.value = 1 - 1 / 2 ^ 53 := by
  norm_num [Binary.value, lastUnit, Binary.ofParts]

/-- The numbers that are drawn are not negative, and at least a step below one. -/
theorem exists_unit (w : UInt64) :
    ∃ c : Binary, c.Finite ∧ c.value ≤ 1 - 1 / 2 ^ 53 ∧ unit w = double .positive c := by
  have hbits : (w >>> 11).toNat < 2 ^ 53 := by
    rw [UInt64.toNat_shiftRight, Nat.shiftRight_eq_div_pow]
    exact Nat.div_lt_of_lt_mul w.toNat_lt
  obtain ⟨a, ha, hvalue⟩ := exists_value_eq hbits
  have hfloat : (w >>> 11).toFloat = double .positive a := by
    have hrounded := rounded_toFloat (w >>> 11)
    rw [← hvalue] at hrounded
    exact hrounded.eq_double ha.toCanonical
  have hrounded : Rounded _ .positive (double .positive a * double .positive unitStep) :=
    rounded_mul ha finite_unitStep
  obtain ⟨c, hc, hproduct, hdouble⟩ := hrounded
  have hle : a.value * unitStep.value ≤ lastUnit.value := by
    have hcast : ((w >>> 11).toNat : ℚ) ≤ 2 ^ 53 - 1 := by
      have hnat : (w >>> 11).toNat + 1 ≤ 2 ^ 53 := hbits
      have hsucc : ((w >>> 11).toNat : ℚ) + 1 ≤ 2 ^ 53 := by exact_mod_cast hnat
      linarith
    rw [hvalue, value_unitStep, value_lastUnit]
    linarith
  have hbound := hproduct.mono lastUnit.takes_value hc canonical_lastUnit hle
  rw [value_lastUnit] at hbound hle
  have hone : a.value * unitStep.value ≤ 10 ^ 308 := by
    refine hle.trans (le_of_le_size ?_)
    norm_num
  refine ⟨c, hproduct.finite hc hone, hbound, ?_⟩
  rw [unit, hfloat, ← double_unitStep, hdouble]

/-- A number that is drawn is below one, so that what has the probability one is never refused. -/
theorem unit_lt_one (w : UInt64) : unit w < 1.0 := by
  obtain ⟨c, hc, hle, hunit⟩ := exists_unit w
  rw [hunit, ← double_one, double_lt_iff hc Binary.finite_one, Binary.value_one]
  exact hle.trans_lt (by norm_num)

/-- What is left to one of a number that is drawn: a step at least, and all at most. -/
theorem one_sub_unit (w : UInt64) :
    Float.ofBits 0x3CA0000000000000 ≤ 1.0 - unit w ∧ 1.0 - unit w ≤ 1.0 := by
  obtain ⟨c, hc, hle, hunit⟩ := exists_unit w
  have hone : c.value ≤ Binary.one.value := by
    rw [Binary.value_one]
    exact hle.trans (by norm_num)
  obtain ⟨d, hd, htakes, hdifference⟩ := rounded_sub Binary.finite_one hc hone
  rw [Binary.value_one] at htakes
  have hhigh := htakes.mono Binary.takes_one hd Binary.finite_one.toCanonical
    (sub_le_self 1 c.value_nonneg)
  have hlow := unitStep.takes_value.mono htakes finite_unitStep.toCanonical hd (by
    rw [value_unitStep]
    linarith)
  have hfinite : d.Finite := by
    refine htakes.finite hd ?_
    exact (sub_le_self 1 c.value_nonneg).trans (one_le_pow₀ (by norm_num))
  rw [hunit, ← double_one, hdifference, ← double_unitStep]
  exact ⟨(double_le_iff finite_unitStep hfinite).mpr hlow,
    (double_le_iff hfinite Binary.finite_one).mpr hhigh⟩

/-- What a number that is drawn falls short of is positive. -/
theorem zero_lt_of_unit_lt {w : UInt64} {y : Float} (h : unit w < y) : 0.0 < y := by
  obtain ⟨c, hc, -, hunit⟩ := exists_unit w
  rw [hunit] at h
  exact zero_lt_of_lt hc h

end Roster.Dice
