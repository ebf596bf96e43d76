import Mathlib.MeasureTheory.Measure.Lebesgue.Basic
import Roster.Proofs.Query.Selection

/-!
# The shares of a draw

That a draw is fair can be said of exact numbers only. Doubles round, and the room that an entry
gets on the line is not quite its probability. So the draw is stated here once for the numbers of
any arithmetic: with doubles it is the draw that runs (`weightedPick_eq`), and with real numbers it
gives each entry its share.

Exactly the rooms lie end to end. The room of the item at place `i` goes from the sum of the weights
before it up to the sum through it, and the point that is left once the weights before it are
subtracted is in the first room of the rest (`itemAt_of_room`). An item without weight has a room
without points, so nothing need be said about passing it over, and the item that was last is never
asked for. With doubles it is, and this is all that rounding changes: which entry is drawn near the
edges of the rooms, but not that one is, nor that it is positive.
-/

namespace Roster

open Decimal MeasureTheory

/-- The probability as the number that the double stands for. -/
noncomputable def Entry.proportion (e : Entry) : ℝ :=
  ((Binary.ofFloat e.probability).value : ℚ)

namespace Selector

/-! ## A draw in any arithmetic -/

section Arithmetic

variable {α β N : Type}

/-- The item at a point of the line on which the weights of the items are laid end to end. With the
    probabilities of entries and in the arithmetic of doubles this is `entryAt`. -/
def itemAt [Zero N] [Sub N] [LT N] [DecidableLT N] (weight : α → N) :
    N → Option α → List α → Option α
  | _, last, [] => last
  | point, last, x :: rest =>
    if 0 < weight x then
      if point < weight x then some x else itemAt weight (point - weight x) (some x) rest
    else itemAt weight point last rest

/-- The sum of the weights, from left to right. -/
def totalWeight [Zero N] [Add N] (weight : α → N) (items : List α) : N :=
  items.foldl (fun total x => total + weight x) 0

theorem itemAt_map [Zero N] [Sub N] [LT N] [DecidableLT N] (f : β → α) (weight : α → N) (point : N)
    (last : Option β) (items : List β) :
    itemAt weight point (last.map f) (items.map f) =
      (itemAt (weight ∘ f) point last items).map f := by
  induction items generalizing point last with
  | nil => rfl
  | cons x rest ih =>
    simp only [List.map_cons, itemAt, Function.comp_apply]
    split
    · split
      · rfl
      · exact ih _ (some x)
    · exact ih point last

theorem totalWeight_map [Zero N] [Add N] (f : β → α) (weight : α → N) (items : List β) :
    totalWeight weight (items.map f) = totalWeight (weight ∘ f) items :=
  List.foldl_map

theorem totalWeight_get [Zero N] [Add N] (weight : α → N) (items : List α) :
    totalWeight (weight ∘ items.get) (List.finRange items.length) = totalWeight weight items := by
  rw [← totalWeight_map, List.map_get_finRange]

variable [Zero N] [Add N] [Sub N] [Mul N] [LT N] [LE N] [DecidableLT N] [DecidableLE N]

/-- One of the items, for a number that is drawn. -/
def pick (weight : α → N) (x : N) (items : List α) : Option α :=
  if totalWeight weight items ≤ 0 then none
  else itemAt weight (x * totalWeight weight items) none items

/-- The place in the list of the item that is picked, which tells apart items that are alike. -/
def position (weight : α → N) (x : N) (items : List α) : Option (Fin items.length) :=
  pick (weight ∘ items.get) x (List.finRange items.length)

theorem pick_map (f : β → α) (weight : α → N) (x : N) (items : List β) :
    pick weight x (items.map f) = (pick (weight ∘ f) x items).map f := by
  unfold pick
  rw [totalWeight_map]
  split
  · rfl
  · exact itemAt_map f weight _ none items

theorem pick_eq_map_position (weight : α → N) (x : N) (items : List α) :
    pick weight x items = (position weight x items).map items.get := by
  rw [position, ← pick_map, List.map_get_finRange]

end Arithmetic

/-! ## The draw that runs -/

theorem entryAt_eq (point : Float) (last : Option Entry) (entries : List Entry) :
    entryAt point last entries = itemAt Entry.probability point last entries := by
  induction entries generalizing point last with
  | nil => rfl
  | cons e rest ih =>
    simp only [entryAt, itemAt, ih]
    rfl

theorem weightedPick_eq (entries : List Entry) (d : Dice) :
    (weightedPick entries d).1 = pick Entry.probability (Dice.unit (d.word d.drawn)) entries := by
  unfold weightedPick pick
  simp only [entryAt_eq, apply_ite Prod.fst]
  rfl

theorem weightedPick_eq_none_iff {entries : List Entry} (h : Proportionate entries) (d : Dice) :
    (weightedPick entries d).1 = none ↔ ¬ ∃ e ∈ entries, 0.0 < e.probability := by
  refine ⟨fun hnone hpos => weightedPick_ne_none h hpos hnone, fun hzero => ?_⟩
  by_contra hsome
  obtain ⟨e, he⟩ := Option.ne_none_iff_exists'.mp hsome
  exact hzero ⟨e, weightedPick_mem he⟩

/-! ## Rooms -/

section Rooms

variable {α N : Type}

/-- Where on the line the room of the item at a place begins, and that of the item before it
    ends. -/
def startOf [Add N] [Zero N] (weight : α → N) (items : List α) (i : ℕ) : N :=
  ((items.take i).map weight).sum

/-- The places of the items have the rooms of the items. -/
theorem startOf_get [Add N] [Zero N] (weight : α → N) (items : List α) (i : ℕ) :
    startOf (weight ∘ items.get) (List.finRange items.length) i = startOf weight items i := by
  rw [startOf, ← List.map_map, List.map_take, List.map_get_finRange, startOf]

theorem startOf_cons [Add N] [Zero N] (weight : α → N) (y : α) (rest : List α) (i : ℕ) :
    startOf weight (y :: rest) (i + 1) = weight y + startOf weight rest i := by
  rw [startOf, List.take_succ_cons, List.map_cons, List.sum_cons, startOf]

variable [Ring N]

theorem totalWeight_eq_sum (weight : α → N) (items : List α) :
    totalWeight weight items = (items.map weight).sum := by
  rw [List.sum_eq_foldl, List.foldl_map]
  rfl

theorem startOf_length (weight : α → N) (items : List α) :
    startOf weight items items.length = totalWeight weight items := by
  rw [startOf, List.take_length, totalWeight_eq_sum]

theorem startOf_succ (weight : α → N) (items : List α) (i : Fin items.length) :
    startOf weight items (i + 1) = startOf weight items i + weight items[i] := by
  rw [startOf, List.take_succ_eq_append_getElem i.isLt, List.map_append, List.sum_append,
    List.map_singleton, List.sum_singleton, startOf, Fin.getElem_fin]

variable [LinearOrder N] {weight : α → N} {items : List α} {point x : N} {last : Option α} {i : ℕ}

theorem position_eq_none (h : ¬ 0 < totalWeight weight items) : position weight x items = none := by
  rw [position, pick, totalWeight_get, if_pos (not_lt.mp h)]

variable [IsStrictOrderedRing N]

theorem startOf_mono (h : ∀ y ∈ items, 0 ≤ weight y) : Monotone (startOf weight items) := by
  intro i j hij
  refine ((List.take_sublist_take_left hij).map weight).sum_le_sum fun w hw => ?_
  obtain ⟨y, hy, rfl⟩ := List.mem_map.mp hw
  exact h y (List.mem_of_mem_take hy)

theorem startOf_nonneg (h : ∀ y ∈ items, 0 ≤ weight y) (i : ℕ) : 0 ≤ startOf weight items i :=
  startOf_mono h (Nat.zero_le i)

theorem startOf_le_total (h : ∀ y ∈ items, 0 ≤ weight y) (hi : i ≤ items.length) :
    startOf weight items i ≤ totalWeight weight items :=
  (startOf_mono h hi).trans_eq (startOf_length weight items)

theorem weight_pos_of_room {i : Fin items.length} (hlow : startOf weight items i ≤ point)
    (hhigh : point < startOf weight items (i + 1)) : 0 < weight items[i] := by
  rw [startOf_succ] at hhigh
  exact pos_of_lt_add_right (hlow.trans_lt hhigh)

/-- A point in the room of an item leads to that item. -/
theorem itemAt_of_room (h : ∀ y ∈ items, 0 ≤ weight y) (hi : i < items.length)
    (hlow : startOf weight items i ≤ point) (hhigh : point < startOf weight items (i + 1)) :
    itemAt weight point last items = some items[i] := by
  induction items generalizing point last i with
  | nil => cases hi
  | cons y rest ih =>
    rw [List.forall_mem_cons] at h
    rw [startOf_cons] at hhigh
    cases i with
    | zero =>
      have hstart : startOf weight (y :: rest) 0 = 0 := rfl
      have hend : startOf weight rest 0 = 0 := rfl
      rw [hstart] at hlow
      rw [hend, add_zero] at hhigh
      rw [itemAt, if_pos (hlow.trans_lt hhigh), if_pos hhigh, List.getElem_cons_zero]
    | succ i =>
      rw [startOf_cons] at hlow
      rw [List.getElem_cons_succ]
      have hi' : i < rest.length := Nat.lt_of_succ_lt_succ hi
      by_cases hpos : 0 < weight y
      · have hbeyond : weight y ≤ point :=
          (le_add_of_nonneg_right (startOf_nonneg h.2 i)).trans hlow
        rw [itemAt, if_pos hpos, if_neg hbeyond.not_gt]
        exact ih h.2 hi' (le_sub_iff_add_le'.mpr hlow) (sub_lt_iff_lt_add'.mpr hhigh)
      -- an item without weight takes no room
      · have hzero : weight y = 0 := le_antisymm (not_lt.mp hpos) h.1
        rw [hzero, zero_add] at hlow hhigh
        rw [itemAt, if_neg hpos]
        exact ih h.2 hi' hlow hhigh

/-- The rooms of the items cover the line. -/
theorem exists_room (hlow : 0 ≤ point) (hhigh : point < startOf weight items items.length) :
    ∃ i : Fin items.length, startOf weight items i ≤ point ∧
      point < startOf weight items (i + 1) := by
  induction items generalizing point with
  | nil => exact absurd hhigh hlow.not_gt
  | cons y rest ih =>
    rw [List.length_cons, startOf_cons] at hhigh
    by_cases hfirst : point < weight y
    · refine ⟨⟨0, Nat.succ_pos _⟩, hlow, ?_⟩
      rw [startOf_cons]
      exact hfirst.trans_eq (add_zero _).symm
    · obtain ⟨i, hstart, hend⟩ :=
        ih (sub_nonneg.mpr (not_lt.mp hfirst)) (sub_lt_iff_lt_add'.mpr hhigh)
      refine ⟨i.succ, ?_, ?_⟩
      · rw [Fin.val_succ, startOf_cons]
        exact le_sub_iff_add_le'.mp hstart
      · rw [Fin.val_succ, startOf_cons]
        exact sub_lt_iff_lt_add'.mp hend

/-- Some item has weight if all of them together have. -/
theorem total_pos_iff (h : ∀ y ∈ items, 0 ≤ weight y) :
    0 < totalWeight weight items ↔ ∃ y ∈ items, 0 < weight y := by
  refine ⟨fun hpos => ?_, fun ⟨y, hy, hpos⟩ => ?_⟩
  · rw [← startOf_length] at hpos
    -- whose room has the first point of the line
    obtain ⟨i, hlow, hhigh⟩ := exists_room le_rfl hpos
    exact ⟨items[i], List.getElem_mem i.isLt, weight_pos_of_room hlow hhigh⟩
  · obtain ⟨i, hi, rfl⟩ := List.getElem_of_mem hy
    have hroom := startOf_succ weight items ⟨i, hi⟩
    calc 0 < weight items[i] := hpos
      _ ≤ startOf weight items (i + 1) := hroom ▸ le_add_of_nonneg_left (startOf_nonneg h i)
      _ ≤ totalWeight weight items := startOf_le_total h hi

theorem position_of_room (h : ∀ y ∈ items, 0 ≤ weight y) {i : Fin items.length}
    (hlow : startOf weight items i ≤ x * totalWeight weight items)
    (hhigh : x * totalWeight weight items < startOf weight items (i + 1)) :
    position weight x items = some i := by
  have htotal : 0 < totalWeight weight items :=
    (startOf_nonneg h i).trans_lt ((hlow.trans_lt hhigh).trans_le (startOf_le_total h i.isLt))
  have hweights : ∀ j ∈ List.finRange items.length, 0 ≤ (weight ∘ items.get) j :=
    fun j _ => h _ (items.get_mem j)
  rw [position, pick, totalWeight_get, if_neg htotal.not_ge]
  rw [← startOf_get] at hlow hhigh
  have hi : (i : ℕ) < (List.finRange items.length).length :=
    i.isLt.trans_eq List.length_finRange.symm
  rw [itemAt_of_room hweights hi hlow hhigh, List.getElem_finRange]
  rfl

/-- Some item is at every point, if the total is positive. -/
theorem exists_position (h : ∀ y ∈ items, 0 ≤ weight y) (hx : 0 ≤ x) (hx1 : x < 1)
    (htotal : 0 < totalWeight weight items) :
    ∃ i : Fin items.length, position weight x items = some i ∧
      startOf weight items i ≤ x * totalWeight weight items ∧
      x * totalWeight weight items < startOf weight items (i + 1) := by
  have hpoint : x * totalWeight weight items < startOf weight items items.length := by
    rw [startOf_length]
    exact mul_lt_of_lt_one_left htotal hx1
  obtain ⟨i, hlow, hhigh⟩ := exists_room (mul_nonneg hx htotal.le) hpoint
  exact ⟨i, position_of_room h hlow hhigh, hlow, hhigh⟩

/-- **The item that is picked is the one in whose room the point is.** -/
theorem position_eq_some_iff (h : ∀ y ∈ items, 0 ≤ weight y) (hx : 0 ≤ x) (hx1 : x < 1)
    {i : Fin items.length} :
    position weight x items = some i ↔
      startOf weight items i ≤ x * totalWeight weight items ∧
        x * totalWeight weight items < startOf weight items (i + 1) := by
  refine ⟨fun hsome => ?_, fun ⟨hlow, hhigh⟩ => position_of_room h hlow hhigh⟩
  by_cases htotal : 0 < totalWeight weight items
  · obtain ⟨j, hposition, hroom⟩ := exists_position h hx hx1 htotal
    rw [hposition] at hsome
    exact Option.some.inj hsome ▸ hroom
  · rw [position_eq_none htotal] at hsome
    cases hsome

/-- Nothing is picked if and only if no item has a share. -/
theorem pick_eq_none_iff (h : ∀ y ∈ items, 0 ≤ weight y) (hx : 0 ≤ x) (hx1 : x < 1) :
    pick weight x items = none ↔ ¬ ∃ y ∈ items, 0 < weight y := by
  rw [← total_pos_iff h, pick_eq_map_position, Option.map_eq_none_iff]
  refine ⟨fun hnone htotal => ?_, position_eq_none⟩
  obtain ⟨i, hsome, -⟩ := exists_position h hx hx1 htotal
  rw [hnone] at hsome
  cases hsome

theorem weight_pos_of_position (h : ∀ y ∈ items, 0 ≤ weight y) (hx : 0 ≤ x) (hx1 : x < 1)
    {i : Fin items.length} (hposition : position weight x items = some i) :
    0 < weight items[i] := by
  obtain ⟨hlow, hhigh⟩ := (position_eq_some_iff h hx hx1).mp hposition
  exact weight_pos_of_room hlow hhigh

end Rooms

/-! ## Shares -/

section Shares

variable {α : Type} {weight : α → ℝ} {items : List α}

/-- **Of all draws an item gets the share that its weight has in the total.** -/
theorem volume_position (h : ∀ y ∈ items, 0 ≤ weight y) (i : Fin items.length) :
    volume {x : ℝ | x ∈ Set.Ico 0 1 ∧ position weight x items = some i} =
      ENNReal.ofReal (weight items[i] / totalWeight weight items) := by
  by_cases htotal : 0 < totalWeight weight items
  · have hdraws : {x : ℝ | x ∈ Set.Ico 0 1 ∧ position weight x items = some i} =
        Set.Ico (startOf weight items i / totalWeight weight items)
          (startOf weight items (i + 1) / totalWeight weight items) := by
      ext x
      rw [Set.mem_ofPred_eq, Set.mem_Ico, Set.mem_Ico, div_le_iff₀ htotal, lt_div_iff₀ htotal]
      refine ⟨fun ⟨hx, hsome⟩ => (position_eq_some_iff h hx.1 hx.2).mp hsome, fun hroom => ?_⟩
      have hx : 0 ≤ x := nonneg_of_mul_nonneg_left ((startOf_nonneg h i).trans hroom.1) htotal
      have hx1 : x < 1 :=
        (mul_lt_iff_lt_one_left htotal).mp (hroom.2.trans_le (startOf_le_total h i.isLt))
      exact ⟨⟨hx, hx1⟩, (position_eq_some_iff h hx hx1).mpr hroom⟩
    rw [hdraws, Real.volume_Ico, ← sub_div, startOf_succ, add_sub_cancel_left]
  · have hdraws : {x : ℝ | x ∈ Set.Ico 0 1 ∧ position weight x items = some i} = ∅ :=
      Set.eq_empty_of_forall_notMem fun x ⟨_, hsome⟩ => by
        rw [position_eq_none htotal] at hsome
        cases hsome
    have hzero : totalWeight weight items = 0 := by
      refine le_antisymm (not_lt.mp htotal) ?_
      rw [← startOf_length]
      exact startOf_nonneg h _
    rw [hdraws, measure_empty, hzero, div_zero, ENNReal.ofReal_zero]

variable {e : Entry}

theorem proportion_nonneg (e : Entry) : 0 ≤ e.proportion :=
  Rat.cast_nonneg.mpr (Binary.value_nonneg _)

theorem proportion_pos_iff (hlow : 0.0 ≤ e.probability) (hhigh : e.probability ≤ 1.0) :
    0 < e.proportion ↔ 0.0 < e.probability := by
  obtain ⟨s, b, hb, hs, -, hdouble⟩ := exists_of_proportion hlow hhigh
  rw [Entry.proportion, hdouble, (ofFloat_double hb s).1, zero_lt_double_iff hb, Rat.cast_pos,
    b.value_nonneg.lt_iff_ne', Ne, Binary.value_eq_zero_iff]
  exact ⟨fun hm => ⟨hs.resolve_right hm, hm⟩, And.right⟩

theorem exists_proportion_pos_iff {entries : List Entry} (h : Proportionate entries) :
    (∃ e ∈ entries, 0 < e.proportion) ↔ ∃ e ∈ entries, 0.0 < e.probability :=
  exists_congr fun e => and_congr_right fun he => proportion_pos_iff (h e he).1 (h e he).2

/-- **A draw gives every entry its share and nothing to an entry of probability zero.** Exactly,
    the entry is the one in whose room the point is, and of the draws it gets what its probability
    is of the total. In doubles, with which the draw runs, it ends at a positive entry all the
    same, if there is one. -/
theorem weightedPick_shares (entries : List Entry)
    (h : ∀ e ∈ entries, 0.0 ≤ e.probability ∧ e.probability ≤ 1.0) :
    (∀ x : ℝ, 0 ≤ x → x < 1 →
      (pick Entry.proportion x entries = none ↔ ¬ ∃ e ∈ entries, 0.0 < e.probability) ∧
      pick Entry.proportion x entries = (position Entry.proportion x entries).map entries.get ∧
      ∀ i : Fin entries.length, position Entry.proportion x entries = some i ↔
        0.0 < entries[i].probability ∧
        ((entries.take i).map Entry.proportion).sum ≤ x * (entries.map Entry.proportion).sum ∧
        x * (entries.map Entry.proportion).sum <
          ((entries.take (i + 1)).map Entry.proportion).sum) ∧
    (∀ i : Fin entries.length,
      volume {x : ℝ | x ∈ Set.Ico 0 1 ∧ position Entry.proportion x entries = some i} =
        ENNReal.ofReal (entries[i].proportion / (entries.map Entry.proportion).sum)) ∧
    ∀ d : Dice,
      (weightedPick entries d).1 = pick Entry.probability (Dice.unit (d.word d.drawn)) entries ∧
      ((weightedPick entries d).1 = none ↔ ¬ ∃ e ∈ entries, 0.0 < e.probability) ∧
      ∀ e, (weightedPick entries d).1 = some e → e ∈ entries ∧ 0.0 < e.probability := by
  have hweights : ∀ e ∈ entries, 0 ≤ e.proportion := fun e _ => proportion_nonneg e
  refine ⟨fun x hx hx1 => ⟨?_, pick_eq_map_position _ _ _, fun i => ?_⟩, fun i => ?_,
    fun d => ⟨weightedPick_eq entries d, weightedPick_eq_none_iff h d, fun e => weightedPick_mem⟩⟩
  · rw [pick_eq_none_iff hweights hx hx1, exists_proportion_pos_iff h]
  · have hiff := position_eq_some_iff hweights hx hx1 (i := i)
    rw [totalWeight_eq_sum] at hiff
    refine ⟨fun hsome => ⟨?_, hiff.mp hsome⟩, fun hroom => hiff.mpr hroom.2⟩
    obtain ⟨hlow, hhigh⟩ := h entries[i] (List.getElem_mem i.isLt)
    exact (proportion_pos_iff hlow hhigh).mp (weight_pos_of_position hweights hx hx1 hsome)
  · rw [← totalWeight_eq_sum]
    exact volume_position hweights i

/-- Of three entries the first has no room and the last has two thirds of the line, from the edge
    on. -/
theorem weightedPick_shares_thirds :
    let entries := [entryOf "10.0.0.1" 0.0, entryOf "10.0.0.2" 0.25, entryOf "10.0.0.3" 0.5]
    let third : Fin entries.length := ⟨2, by decide⟩
    (∀ e ∈ entries, 0.0 ≤ e.probability ∧ e.probability ≤ 1.0) ∧
      position Entry.proportion (1 / 3 : ℝ) entries = some third ∧
      volume {x : ℝ | x ∈ Set.Ico 0 1 ∧ position Entry.proportion x entries = some third} =
        ENNReal.ofReal (2 / 3) ∧
      ∀ d : Dice, (weightedPick entries d).1 ≠ none := by
  intro entries third
  have hproportions : ∀ e ∈ entries, 0.0 ≤ e.probability ∧ e.probability ≤ 1.0 := by decide
  have hnone : (entryOf "10.0.0.1" 0.0).proportion = 0 := by
    have hfloat : Binary.ofFloat (entryOf "10.0.0.1" 0.0).probability = .zero := rfl
    rw [Entry.proportion, hfloat, Binary.value_zero, Rat.cast_zero]
  have hquarter : (entryOf "10.0.0.2" 0.25).proportion = 1 / 4 := by
    have hfloat : Binary.ofFloat (entryOf "10.0.0.2" 0.25).probability = .ofParts (2 ^ 52) (-54) :=
      rfl
    norm_num [Entry.proportion, hfloat, Binary.value, Binary.ofParts]
  have hhalf : (entryOf "10.0.0.3" 0.5).proportion = 1 / 2 := by
    have hfloat : Binary.ofFloat (entryOf "10.0.0.3" 0.5).probability = .ofParts (2 ^ 52) (-53) :=
      rfl
    norm_num [Entry.proportion, hfloat, Binary.value, Binary.ofParts]
  have hbefore : ((entries.take third).map Entry.proportion).sum = 1 / 4 := by
    simp [entries, third, hnone, hquarter]
  have htotal : (entries.map Entry.proportion).sum = 3 / 4 := by
    norm_num [entries, hnone, hquarter, hhalf]
  have hpositive : ∃ e ∈ entries, 0.0 < e.probability :=
    ⟨entries[third], List.getElem_mem _, by decide⟩
  obtain ⟨hexact, hshares, hdoubles⟩ := weightedPick_shares entries hproportions
  refine ⟨hproportions, ?_, ?_, fun d hd => (hdoubles d).2.1.mp hd hpositive⟩
  · have hthrough : ((entries.take (third + 1)).map Entry.proportion).sum = 3 / 4 := htotal
    refine ((hexact (1 / 3) (by norm_num) (by norm_num)).2.2 third).mpr ⟨by decide, ?_, ?_⟩
    · rw [hbefore, htotal]
      norm_num
    · rw [hthrough, htotal]
      norm_num
  · rw [hshares third, htotal, show entries[third].proportion = 1 / 2 from hhalf]
    norm_num

end Shares

end Selector

end Roster
