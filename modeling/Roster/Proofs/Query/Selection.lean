import Roster.Proofs.Decimal.Sum
import Roster.Proofs.Query.Dice
import Roster.Query.Selection

/-!
# What is selected

Chance decides which of the entries that fit are taken, but not that one is: `Chosen` says what a
choice among entries may be, and it holds of every selection whatever the words are
(`chosen_select`). Its last part is where a selection could go wrong. The walk can refuse every
entry, and then the draw has to end at an entry, although the point it looks for is found by
subtractions that are rounded. It does so because the end of the line falls to the last positive
entry, so that it is enough for the total to be positive.
-/

namespace Roster.Selector

open Decimal
open scoped List

variable {policy : Policy} {client : Client} {e : Entry} {n : ℕ} {entries selected : List Entry}

/-! ## Entries that fit -/

/-- An entry may serve a client under a policy, its probability apart. -/
structure Fits (policy : Policy) (client : Client) (e : Entry) : Prop where
  requester : e.matchesRequester client.address
  family : ∀ wanted, client.family = some wanted → e.family = none ∨ e.family = some wanted
  metro : policy = .metro → ∃ metro, client.metro = some metro ∧ sameIgnoringCase e.metro metro

theorem familyFits_iff : familyFits client e ↔
    ∀ wanted, client.family = some wanted → e.family = none ∨ e.family = some wanted := by
  unfold familyFits
  cases client.family <;> cases e.family <;> simp [eq_comm]

theorem metroFits_iff : metroFits policy client e ↔
    (policy = .metro → ∃ metro, client.metro = some metro ∧ sameIgnoringCase e.metro metro) := by
  unfold metroFits
  cases policy <;> cases client.metro <;> simp

/-- Eligible are the entries that fit the policy and the client. -/
theorem eligible_iff : eligible policy client e ↔ Fits policy client e := by
  rw [eligible, Bool.and_eq_true, Bool.and_eq_true, familyFits_iff, metroFits_iff]
  exact ⟨fun ⟨⟨hrequester, hfamily⟩, hmetro⟩ => ⟨hrequester, hfamily, hmetro⟩,
    fun h => ⟨⟨h.requester, h.family⟩, h.metro⟩⟩

instance : Decidable (Fits policy client e) :=
  decidable_of_iff _ eligible_iff

/-- The probability is one, which the checks of rows see to. -/
def Proportionate (entries : List Entry) : Prop :=
  ∀ e ∈ entries, 0.0 ≤ e.probability ∧ e.probability ≤ 1.0

/-! ## Choices -/

/-- A choice of at most `n` among entries: each positive, none twice, and empty only if none is
    positive. -/
structure Chosen (n : ℕ) (entries selected : List Entry) : Prop where
  subperm : selected <+~ entries
  positive : ∀ e ∈ selected, 0.0 < e.probability
  length_le : selected.length ≤ n
  exhaustive : selected = [] → ∀ e ∈ entries, ¬ 0.0 < e.probability

theorem Chosen.of_perm {others : List Entry} (h : Chosen n entries selected)
    (hperm : entries ~ others) :
    Chosen n others selected where
  subperm := h.subperm.trans hperm.subperm
  positive := h.positive
  length_le := h.length_le
  exhaustive hempty e he := h.exhaustive hempty e (hperm.mem_iff.mpr he)

/-! ## The walk -/

/-- A walk takes some of the entries, in their order. -/
theorem walk_sublist (n : ℕ) (entries : List Entry) (d : Dice) :
    (walk n entries d).1 <+ entries := by
  fun_induction walk n entries d with
  | case1 => exact List.nil_sublist _
  | case2 => exact List.nil_sublist _
  | case3 n e rest d x d' hdraw htaken taken d'' hwalk ih =>
    rw [hwalk] at ih
    exact ih.cons_cons e
  | case4 n e rest d x d' hdraw hrefused ih => exact ih.cons e

theorem length_walk_le (n : ℕ) (entries : List Entry) (d : Dice) :
    (walk n entries d).1.length ≤ n := by
  fun_induction walk n entries d with
  | case1 => exact le_rfl
  | case2 => exact Nat.zero_le _
  | case3 n e rest d x d' hdraw htaken taken d'' hwalk ih =>
    rw [hwalk] at ih
    exact Nat.succ_le_succ ih
  | case4 n e rest d x d' hdraw hrefused ih => exact ih

/-- An entry that chance takes has more than the number that was drawn. -/
theorem walk_positive (n : ℕ) (entries : List Entry) (d : Dice) :
    ∀ e ∈ (walk n entries d).1, 0.0 < e.probability := by
  fun_induction walk n entries d with
  | case1 => exact nofun
  | case2 => exact nofun
  | case3 n e rest d x d' hdraw htaken taken d'' hwalk ih =>
    rw [hwalk] at ih
    intro f hf
    rcases List.mem_cons.mp hf with rfl | hrest
    · cases hdraw
      exact Dice.zero_lt_of_unit_lt htaken
    · exact ih f hrest
  | case4 n e rest d x d' hdraw hrefused ih => exact ih

/-! ## The draw -/

/-- A draw gives a positive entry, of the line or the one that was last before it. -/
theorem entryAt_cases (point : Float) (last : Option Entry) (entries : List Entry)
    (h : entryAt point last entries = some e) :
    last = some e ∨ e ∈ entries ∧ 0.0 < e.probability := by
  fun_induction entryAt point last entries with
  | case1 => exact .inl h
  | case2 point last f rest hpos hlt =>
    cases h
    exact .inr ⟨List.mem_cons_self, hpos⟩
  | case3 point last f rest hpos hge ih =>
    rcases ih h with hlast | ⟨hrest, hpositive⟩
    · cases hlast
      exact .inr ⟨List.mem_cons_self, hpos⟩
    · exact .inr ⟨List.mem_cons_of_mem f hrest, hpositive⟩
  | case4 point last f rest hzero ih =>
    exact (ih h).imp_right fun ⟨hrest, hpositive⟩ => ⟨List.mem_cons_of_mem f hrest, hpositive⟩

/-- Wherever the point is, the draw ends at an entry if there is a positive one. -/
theorem entryAt_ne_none (point : Float) (last : Option Entry) (entries : List Entry)
    (h : last ≠ none ∨ ∃ e ∈ entries, 0.0 < e.probability) : entryAt point last entries ≠ none := by
  fun_induction entryAt point last entries with
  | case1 => exact h.resolve_right fun ⟨e, he, _⟩ => nomatch he
  | case2 => exact Option.some_ne_none _
  | case3 point last f rest hpos hge ih => exact ih (.inl (Option.some_ne_none f))
  | case4 point last f rest hzero ih =>
    refine ih (h.imp_right fun ⟨e, he, hpos⟩ => ?_)
    rcases List.mem_cons.mp he with rfl | hrest
    · exact absurd hpos hzero
    · exact ⟨e, hrest, hpos⟩

theorem weightedPick_mem {d : Dice} (h : (weightedPick entries d).1 = some e) :
    e ∈ entries ∧ 0.0 < e.probability := by
  unfold weightedPick at h
  dsimp only at h
  split at h
  · cases h
  · exact (entryAt_cases _ _ _ h).resolve_left nofun

/-- Something is drawn if anything can be. -/
theorem weightedPick_ne_none {d : Dice} (h : Proportionate entries)
    (hpos : ∃ e ∈ entries, 0.0 < e.probability) : (weightedPick entries d).1 ≠ none := by
  have htotal : ¬ totalProbability entries ≤ 0.0 := sum_pos h hpos
  unfold weightedPick
  dsimp only
  rw [if_neg htotal]
  exact entryAt_ne_none _ _ _ (.inr hpos)

theorem chosen_weightedPick {d : Dice} (h : Proportionate entries) (hn : 1 ≤ n) :
    Chosen n entries (weightedPick entries d).1.toList := by
  cases hpick : (weightedPick entries d).1 with
  | none =>
    refine ⟨List.nil_subperm, nofun, Nat.zero_le n, fun _ e he hpos => ?_⟩
    exact weightedPick_ne_none h ⟨e, he, hpos⟩ hpick
  | some e =>
    obtain ⟨he, hpos⟩ := weightedPick_mem hpick
    refine ⟨List.singleton_subperm_iff.mpr he, fun f hf => ?_, hn, nofun⟩
    rwa [List.mem_singleton.mp hf]

/-! ## The selection -/

/-- Arranging is a permutation. -/
theorem arrange_perm (s : Selector) (policy : Policy) (client : Client) (entries : List Entry) :
    s.arrange policy client entries ~ entries := by
  unfold arrange
  split
  · exact List.mergeSort_perm _ _
  · exact List.mergeSort_perm _ _
  · exact .refl entries

theorem listing_perm (entries : List Entry) :
    listing entries ~ entries.filter fun e => 0.0 < e.probability :=
  List.mergeSort_perm _ _

theorem one_le_wanted (s : Selector) (policy : Policy) : 1 ≤ s.wanted policy := by
  unfold wanted
  split
  · exact le_max_right _ _
  · exact le_rfl

/-- A listing chooses everything that can be chosen. -/
theorem chosen_listing (h : entries.length ≤ n) : Chosen n entries (listing entries) := by
  have hperm := listing_perm entries
  refine ⟨hperm.subperm.trans List.filter_sublist.subperm, fun e he => ?_, ?_,
    fun hempty e he hpos => ?_⟩
  · exact of_decide_eq_true (List.mem_filter.mp (hperm.mem_iff.mp he)).2
  · exact hperm.length_eq.trans_le ((List.length_filter_le _ _).trans h)
  · have hlisted := hperm.mem_iff.mpr (List.mem_filter.mpr ⟨he, decide_eq_true hpos⟩)
    rw [hempty] at hlisted
    cases hlisted

/-- Without a metro of the client there is nothing that fits. -/
theorem chosen_nil (hmetro : policy = .metro) (hclient : client.metro.isNone)
    (candidates : List Entry) :
    Chosen n (candidates.filter (eligible policy client)) [] := by
  refine ⟨List.nil_subperm, nofun, Nat.zero_le n, fun _ e he _ => ?_⟩
  obtain ⟨metro, hsome, -⟩ := (eligible_iff.mp (List.mem_filter.mp he).2).metro hmetro
  rw [hsome] at hclient
  cases hclient

/-- The walk, and the draw after it if it has come to nothing. -/
def walkOrDraw (n : ℕ) (entries : List Entry) (d : Dice) : List Entry :=
  let (taken, d) := walk n entries d
  if taken.isEmpty then (weightedPick entries d).1.toList else taken

theorem chosen_walkOrDraw (d : Dice) (h : Proportionate entries) (hn : 1 ≤ n) :
    Chosen n entries (walkOrDraw n entries d) := by
  unfold walkOrDraw
  dsimp only
  split
  · exact chosen_weightedPick h hn
  · next htaken =>
    refine ⟨(walk_sublist n entries d).subperm, walk_positive n entries d,
      length_walk_le n entries d, ?_⟩
    intro hempty
    rw [hempty] at htaken
    exact absurd rfl htaken

theorem select_eq (s : Selector) (d : Dice) (candidates : List Entry) (hall : policy ≠ .all)
    (hclient : ¬ (policy = .metro ∧ client.metro.isNone)) :
    (s.select policy candidates client d).1 =
      let (shuffled, d) := d.shuffle (candidates.filter (eligible policy client))
      walkOrDraw (s.wanted policy) (s.arrange policy client shuffled) d := by
  unfold select
  split
  · exact absurd rfl hall
  · rw [if_neg hclient]
    dsimp only [walkOrDraw]
    rw [apply_ite Prod.fst]

/-- The most that a policy offers of the candidates. -/
def bound (s : Selector) (policy : Policy) (candidates : List Entry) : ℕ :=
  if policy = .all then candidates.length else s.wanted policy

/-- **A selection is a choice among the candidates that fit, whatever the words are.** -/
theorem chosen_select (s : Selector) (policy : Policy) (client : Client) (d : Dice)
    {candidates : List Entry} (h : Proportionate candidates) :
    Chosen (s.bound policy candidates) (candidates.filter (eligible policy client))
      (s.select policy candidates client d).1 := by
  by_cases hall : policy = .all
  · subst hall
    exact chosen_listing (List.length_filter_le _ _)
  rw [bound, if_neg hall]
  by_cases hmissing : policy = .metro ∧ client.metro.isNone
  · have hempty : (s.select policy candidates client d).1 = [] := by
      obtain ⟨rfl, hnone⟩ := hmissing
      simp only [select, hnone, and_self, if_true]
    rw [hempty]
    exact chosen_nil hmissing.1 hmissing.2 candidates
  · rw [select_eq s d candidates hall hmissing]
    -- Neither the shuffle nor the sort matters, only that they keep the entries.
    have hperm := (s.arrange_perm policy client
      (d.shuffle (candidates.filter (eligible policy client))).1).trans (d.shuffle_perm _)
    have hproportionate : Proportionate (s.arrange policy client
        (d.shuffle (candidates.filter (eligible policy client))).1) :=
      fun e he => h e (List.mem_of_mem_filter (hperm.mem_iff.mp he))
    exact (chosen_walkOrDraw _ hproportionate (s.one_le_wanted policy)).of_perm hperm

/-- What is selected is a candidate that fits and can be chosen. -/
theorem mem_select {s : Selector} {d : Dice} {candidates : List Entry}
    (h : Proportionate candidates) (he : e ∈ (s.select policy candidates client d).1) :
    e ∈ candidates ∧ Fits policy client e ∧ 0.0 < e.probability := by
  have hchosen := chosen_select s policy client d h
  obtain ⟨hcandidate, heligible⟩ := List.mem_filter.mp (hchosen.subperm.subset he)
  exact ⟨hcandidate, eligible_iff.mp heligible, hchosen.positive e he⟩

/-- Nothing is selected if and only if no candidate that fits can be chosen. -/
theorem select_eq_nil_iff {s : Selector} {d : Dice} {candidates : List Entry}
    (h : Proportionate candidates) :
    (s.select policy candidates client d).1 = [] ↔
      ∀ e ∈ candidates, Fits policy client e → ¬ 0.0 < e.probability := by
  refine ⟨fun hempty e he hfits => ?_, fun hnone => ?_⟩
  · exact (chosen_select s policy client d h).exhaustive hempty e
      (List.mem_filter.mpr ⟨he, eligible_iff.mpr hfits⟩)
  · refine List.eq_nil_iff_forall_not_mem.mpr fun e he => ?_
    obtain ⟨hcandidate, hfits, hpos⟩ := mem_select h he
    exact hnone e hcandidate hfits hpos

/-- **Whatever the words are, a selection takes of the candidates that fit, none twice and
    none of probability zero, as many as the policy offers at most, and it is empty only
    if there is none.** -/
theorem select_sound_and_complete (s : Selector) (policy : Policy) (client : Client) (d : Dice)
    (candidates : List Entry)
    (h : ∀ e ∈ candidates, 0.0 ≤ e.probability ∧ e.probability ≤ 1.0) :
    let selected := (s.select policy candidates client d).1
    selected <+~ candidates ∧
      (∀ e ∈ selected, Fits policy client e ∧ 0.0 < e.probability) ∧
      (policy = .geo ∨ policy = .random ∨ policy = .metro → selected.length ≤ 1) ∧
      (policy = .geoOptions → selected.length ≤ max s.maxResults 1) ∧
      (policy = .all →
        selected ~ candidates.filter fun e => Fits policy client e ∧ 0.0 < e.probability) ∧
      (selected = [] ↔ ¬ ∃ e ∈ candidates, Fits policy client e ∧ 0.0 < e.probability) ∧
      (policy = .metro → client.metro = none → selected = []) := by
  intro selected
  have hchosen := chosen_select s policy client d h
  have hbound : policy ≠ .all → selected.length ≤ s.wanted policy := fun hall =>
    hchosen.length_le.trans_eq (if_neg hall)
  refine ⟨hchosen.subperm.trans List.filter_sublist.subperm,
    fun e he => (mem_select h he).2, ?_, ?_, ?_, ?_, ?_⟩
  · rintro (rfl | rfl | rfl) <;> exact hbound nofun
  · rintro rfl
    exact hbound nofun
  · rintro rfl
    refine (listing_perm _).trans (.of_eq ?_)
    rw [List.filter_filter]
    refine List.filter_congr fun e _ => ?_
    rw [Bool.eq_iff_iff, Bool.and_eq_true, eligible_iff, decide_eq_true_iff, decide_eq_true_iff,
      and_comm]
  · rw [select_eq_nil_iff h]
    push Not
    rfl
  · rintro rfl hmetro
    refine (select_eq_nil_iff h).mpr fun e _ hfits _ => ?_
    obtain ⟨metro, hsome, -⟩ := hfits.metro rfl
    rw [hmetro] at hsome
    cases hsome

/-- An entry for every requester. -/
def entryOf (target : String) (probability : Float) : Entry where
  key := { requester := "", path := "ndt", policy := "geo_options", target }
  family := none
  format := ""
  latitude := none
  longitude := none
  metro := ""
  probability
  requestsPerDay := 1

/-- Chance refuses both entries, and the draw still ends at the one that is positive. -/
theorem select_after_refusal :
    let candidates := [entryOf "10.0.0.1" 0.0, entryOf "10.0.0.2" 0.5]
    let selector : Selector := { maxResults := 3, math := ⟨id, id, id, id⟩ }
    let dice := Dice.ofWords #[0xFFFFFFFFFFFFFFFF]
    (∀ e ∈ candidates, 0.0 ≤ e.probability ∧ e.probability ≤ 1.0) ∧
      (walk 3 candidates dice).1.isEmpty ∧
      (selector.select .geoOptions candidates {} dice).1 ≠ [] ∧
      ∀ e ∈ (selector.select .geoOptions candidates {} dice).1, 0.0 < e.probability := by
  intro candidates selector dice
  have hproportions : ∀ e ∈ candidates, 0.0 ≤ e.probability ∧ e.probability ≤ 1.0 := by
    decide
  obtain ⟨-, hselected, -, -, -, hempty, -⟩ :=
    select_sound_and_complete selector .geoOptions {} dice candidates hproportions
  refine ⟨hproportions, by decide, fun hnone => hempty.mp hnone ?_, fun e he => (hselected e he).2⟩
  exact ⟨entryOf "10.0.0.2" 0.5, by simp [candidates], eligible_iff.mp rfl, by decide⟩

end Roster.Selector
