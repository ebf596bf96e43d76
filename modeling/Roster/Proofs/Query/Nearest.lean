import Mathlib.Data.List.Forall2
import Mathlib.Data.List.Sort
import Roster.Proofs.Decimal.Comparison
import Roster.Proofs.Query.Selection

/-!
# The nearest first

Where the policy asks for it and the place of the client is known, the entries that fit are ranked
by their distance before chance goes through them. One list describes such a selection, the *flips*:
each entry in its rank, with the number of the word that decides about it. The walk takes the first
flips that are won, as many as are wanted (`walk_eq`), and this is all that later facts use of it.

Distances are doubles, and the functions they are computed with are a parameter, so nothing says
that they can be compared. That is a premise here (`Comparable`), and only about the entries that
fit. Entries at one distance are in the order of the shuffle, so what two selections have in common
is not their entries but the distances of these (`forall₂_of_perm`).
-/

namespace Roster

open Decimal
open scoped List

/-! ## Sorted lists -/

section Sorted

variable {α : Type} {r : α → α → Prop} {l l' : List α} {a b : α}

/-- A relation ranks the elements of a list, whatever it is elsewhere. -/
structure Ranks (r : α → α → Prop) (l : List α) : Prop where
  total : ∀ a ∈ l, ∀ b ∈ l, r a b ∨ r b a
  trans : ∀ a ∈ l, ∀ b ∈ l, ∀ c ∈ l, r a b → r b c → r a c

theorem Ranks.refl (h : Ranks r l) (ha : a ∈ l) : r a a :=
  (h.total a ha a ha).elim id id

/-- The order of a list does not matter to how its elements rank. -/
theorem Ranks.of_perm (h : Ranks r l) (hperm : l ~ l') : Ranks r l' where
  total a ha b hb := h.total a (hperm.mem_iff.mpr ha) b (hperm.mem_iff.mpr hb)
  trans a ha b hb c hc :=
    h.trans a (hperm.mem_iff.mpr ha) b (hperm.mem_iff.mpr hb) c (hperm.mem_iff.mpr hc)

/-- The library asks that all there is can be compared, so the list is sorted as one
    of its own elements. -/
theorem Ranks.pairwise_mergeSort (h : Ranks r l) {le : α → α → Bool}
    (hle : ∀ a ∈ l, ∀ b ∈ l, le a b ↔ r a b) : (l.mergeSort le).Pairwise r := by
  have hsorted := @List.pairwise_mergeSort {x // x ∈ l} (fun a b => le a b)
    (fun a b c hab hbc => (hle a a.2 c c.2).mpr <|
      h.trans a a.2 b b.2 c c.2 ((hle a a.2 b b.2).mp hab) ((hle b b.2 c c.2).mp hbc))
    (fun a b => Bool.or_eq_true_iff.mpr <|
      (h.total a a.2 b b.2).imp (hle a a.2 b b.2).mpr (hle b b.2 a a.2).mpr) l.attach
  have hmap : (l.attach.mergeSort fun a b => le a b).map Subtype.val = l.mergeSort le := by
    rw [List.map_mergeSort (s := le) fun a _ b _ => rfl, List.attach_map_subtype_val]
  rw [← hmap, List.pairwise_map]
  exact hsorted.imp (hle _ (Subtype.prop _) _ (Subtype.prop _)).mp

/-- What stands before a chosen element is chosen, too, if it passes the test at all. -/
theorem mem_take_filter_of_not {p : α → Bool} {n : ℕ} (hl : l.Pairwise r)
    (ha : a ∈ (l.filter p).take n) (hb : b ∈ l) (hab : ¬r a b) :
    b ∈ (l.filter p).take n ∨ ¬p b := by
  by_cases hp : p b
  · left
    have hmem : b ∈ (l.filter p).take n ++ (l.filter p).drop n := by
      rw [List.take_append_drop]
      exact List.mem_filter.mpr ⟨hb, hp⟩
    have hsplit := hl.filter p
    rw [← List.take_append_drop n (l.filter p), List.pairwise_append] at hsplit
    exact (List.mem_append.mp hmem).resolve_right fun hdrop => hab (hsplit.2.2 a ha b hdrop)
  · exact .inr hp

/-- The elements of a list that are strictly before one. Their number is its rank. -/
def strictlyBefore (r : α → α → Prop) [DecidableRel r] (l : List α) (a : α) : List α :=
  l.filter fun x => ¬r a x

variable [DecidableRel r]

theorem Ranks.strictlyBefore_sublist (h : Ranks r l) (ha : a ∈ l) (hb : b ∈ l) (hab : r a b) :
    strictlyBefore r l a <+ strictlyBefore r l b := by
  have hfilter : strictlyBefore r l a = (strictlyBefore r l b).filter fun x => ¬r a x := by
    rw [strictlyBefore, strictlyBefore, List.filter_filter]
    refine List.filter_congr fun x hx => ?_
    by_cases hax : r a x
    · simp [hax]
    · simp [hax, mt (h.trans a ha b hb x hx hab) hax]
  rw [hfilter]
  exact List.filter_sublist

theorem Ranks.of_length_eq (h : Ranks r l) (ha : a ∈ l) (hb : b ∈ l)
    (hlength : (strictlyBefore r l a).length = (strictlyBefore r l b).length) : r a b := by
  by_contra hab
  have hba := (h.total a ha b hb).resolve_left hab
  have hmem : b ∈ strictlyBefore r l a := List.mem_filter.mpr ⟨hb, decide_eq_true hab⟩
  rw [← (h.strictlyBefore_sublist hb ha hba).eq_of_length hlength.symm] at hmem
  exact of_decide_eq_true (List.mem_filter.mp hmem).2 (h.refl hb)

/-- Two sorted lists of the same elements agree at every place, up to elements of one rank. -/
theorem Ranks.forall₂_of_perm (h : Ranks r l) (hperm : l ~ l') (hl : l.Pairwise r)
    (hl' : l'.Pairwise r) :
    List.Forall₂ (fun a b => r a b ∧ r b a) l l' := by
  let rank (a : α) : ℕ := (strictlyBefore r l a).length
  have hsorted {k : List α} (hk : k ~ l) (hpairwise : k.Pairwise r) :
      (k.map rank).Pairwise (· ≤ ·) := by
    rw [List.pairwise_map]
    exact hpairwise.imp_of_mem fun ha hb hab =>
      (h.strictlyBefore_sublist (hk.mem_iff.mp ha) (hk.mem_iff.mp hb) hab).length_le
  have hranks : l.map rank = l'.map rank := (hperm.map rank).eq_of_pairwise
    (fun _ _ _ _ => le_antisymm) (hsorted (.refl l) hl) (hsorted hperm.symm hl')
  refine List.forall₂_iff_get.mpr ⟨hperm.length_eq, fun i hi hi' => ?_⟩
  have hrank : rank l[i] = rank l'[i] := by
    simpa [hi, hi'] using congrArg (·[i]?) hranks
  have hmem := List.getElem_mem hi
  have hmem' := hperm.mem_iff.mpr (List.getElem_mem hi')
  exact ⟨h.of_length_eq hmem hmem' hrank, h.of_length_eq hmem' hmem hrank.symm⟩

end Sorted

namespace Selector

variable {s : Selector} {policy : Policy} {client : Client}
  {candidates entries others : List Entry} {d : Dice} {m : Elementary} {origin : Location}
  {a b : Entry}

/-! ## Ranking by distance -/

/-- The distance of an entry whose place is known. -/
def distance? (m : Elementary) (origin : Location) (e : Entry) : Option Float :=
  e.location?.map fun place => origin.distance m place

/-- One entry is ranked before another or with it: its place is known if the other's
    is, and no farther. -/
def NoFarther (m : Elementary) (origin : Location) (a b : Entry) : Prop :=
  ∀ y ∈ distance? m origin b, ∃ x ∈ distance? m origin a, x ≤ y

/-- The distances of entries can be compared, as far as their places are known. -/
def Comparable (m : Elementary) (origin : Location) (entries : List Entry) : Prop :=
  Ranks (fun x y : Float => x ≤ y) (entries.filterMap (distance? m origin))

theorem mem_distances (ha : a ∈ entries) {x : Float} (hx : x ∈ distance? m origin a) :
    x ∈ entries.filterMap (distance? m origin) :=
  List.mem_filterMap.mpr ⟨a, ha, hx⟩

theorem Comparable.ranks (h : Comparable m origin entries) :
    Ranks (NoFarther m origin) entries where
  total a ha b hb := by
    cases hx : distance? m origin a with
    | none => exact .inr fun y hy => by rw [hx] at hy; cases hy
    | some x =>
      cases hy : distance? m origin b with
      | none => exact .inl fun y hy' => by rw [hy] at hy'; cases hy'
      | some y =>
        refine (h.total x (mem_distances ha hx) y (mem_distances hb hy)).imp (fun hle z hz => ?_)
          (fun hle z hz => ?_)
        · cases hy.symm.trans hz
          exact ⟨x, hx, hle⟩
        · cases hx.symm.trans hz
          exact ⟨y, hy, hle⟩
  trans a ha b hb c hc hab hbc z hz := by
    obtain ⟨y, hy, hyz⟩ := hbc z hz
    obtain ⟨x, hx, hxy⟩ := hab y hy
    exact ⟨x, hx,
      h.trans x (mem_distances ha hx) y (mem_distances hb hy) z (mem_distances hc hz) hxy hyz⟩

theorem Comparable.nearerOrSame_iff (h : Comparable m origin entries) (ha : a ∈ entries)
    (hb : b ∈ entries) : nearerOrSame m origin a b ↔ NoFarther m origin a b := by
  unfold nearerOrSame NoFarther
  cases hx : a.location? <;> cases hy : b.location?
  · simp [distance?, hx, hy]
  · simp [distance?, hx, hy]
  · simp [distance?, hx, hy]
  · next place place' =>
    have hordered := h.total _ (mem_distances ha (by rw [distance?, hx]; rfl)) _
      (mem_distances hb (by rw [distance?, hy]; rfl))
    simp only [distance?, hx, hy, Option.map_some, Option.mem_some_iff, forall_eq', exists_eq_left',
      Bool.not_eq_true', decide_eq_false_iff_not]
    exact ⟨fun hlt => le_of_not_lt hlt hordered, not_lt_of_le⟩

theorem beq_distance?_of_noFarther (hab : NoFarther m origin a b) (hba : NoFarther m origin b a) :
    distance? m origin a == distance? m origin b := by
  cases hx : distance? m origin a with
  | none =>
    cases hy : distance? m origin b with
    | none => rfl
    | some y =>
      obtain ⟨x, hx', -⟩ := hab y hy
      cases hx.symm.trans hx'
  | some x =>
    obtain ⟨y, hy, hyx⟩ := hba x hx
    obtain ⟨x', hx', hxy⟩ := hab y hy
    cases hx.symm.trans hx'
    rw [hy]
    exact beq_of_le_of_le hxy hyx

/-- Lists whose entries are as far as each other have equal distances. -/
theorem map_distance?_beq
    (h : List.Forall₂ (fun a b => NoFarther m origin a b ∧ NoFarther m origin b a)
    entries others) : entries.map (distance? m origin) == others.map (distance? m origin) := by
  induction h with
  | nil => rfl
  | cons hab _ ih =>
    rw [List.map_cons, List.map_cons, List.cons_beq_cons,
      beq_distance?_of_noFarther hab.1 hab.2, ih, Bool.and_self]

theorem map_distance?_eq
    (h : List.Forall₂ (fun a b => NoFarther m origin a b ∧ NoFarther m origin b a)
    entries others) (hentries : ∀ e ∈ entries, distance? m origin e ≠ some (-0.0))
    (hothers : ∀ e ∈ others, distance? m origin e ≠ some (-0.0)) :
    entries.map (distance? m origin) = others.map (distance? m origin) := by
  induction h with
  | nil => rfl
  | cons hab _ ih =>
    rw [List.forall_mem_cons] at hentries hothers
    rw [List.map_cons, List.map_cons, ih hentries.2 hothers.2,
      option_eq_of_beq (beq_distance?_of_noFarther hab.1 hab.2) hentries.1 hothers.1]

/-! ## Flips -/

/-- The entries that fit in the order in which a selection goes through them, each with the number
    of the word that its coin is flipped with. -/
def flips (s : Selector) (policy : Policy) (client : Client) (candidates : List Entry) (d : Dice) :
    List (Entry × ℕ) :=
  let (shuffled, after) := d.shuffle (candidates.filter (eligible policy client))
  (s.arrange policy client shuffled).zipIdx after.drawn

/-- The coin of an entry shows what its probability asks for. -/
def Won (d : Dice) (flip : Entry × ℕ) : Prop :=
  Dice.unit (d.word flip.2) < flip.1.probability

instance (d : Dice) : DecidablePred (Won d) :=
  fun _ => inferInstanceAs (Decidable (_ < _))

theorem fst_walk_cons (n : ℕ) (e : Entry) (rest : List Entry) (d : Dice) :
    (walk (n + 1) (e :: rest) d).1 =
      if Won d (e, d.drawn) then e :: (walk n rest { d with drawn := d.drawn + 1 }).1
      else (walk (n + 1) rest { d with drawn := d.drawn + 1 }).1 := by
  rw [walk]
  exact apply_ite Prod.fst _ _ _

/-- The walk takes the first of the flips that are won. -/
theorem walk_eq (n : ℕ) (entries : List Entry) (d : Dice) :
    (walk n entries d).1 = (((entries.zipIdx d.drawn).filter (Won d ·)).take n).map Prod.fst := by
  induction entries generalizing n d with
  | nil => cases n <;> simp [walk]
  | cons e rest ih =>
    cases n with
    | zero => simp [walk]
    | succ n =>
      rw [fst_walk_cons, List.zipIdx_cons]
      by_cases hwon : Won d (e, d.drawn)
      · rw [if_pos hwon, ih, List.filter_cons_of_pos (by simpa using hwon), List.take_succ_cons,
          List.map_cons]
        rfl
      · rw [if_neg hwon, ih, List.filter_cons_of_neg (by simpa using hwon)]
        rfl

theorem map_fst_flips (s : Selector) (policy : Policy) (client : Client)
    (candidates : List Entry) (d : Dice) :
    (s.flips policy client candidates d).map Prod.fst =
      s.arrange policy client (d.shuffle (candidates.filter (eligible policy client))).1 :=
  List.zipIdx_map_fst _ _

/-- The entries are flipped for in some order, each once. -/
theorem map_fst_flips_perm (s : Selector) (policy : Policy) (client : Client)
    (candidates : List Entry) (d : Dice) :
    (s.flips policy client candidates d).map Prod.fst ~ candidates.filter
      (eligible policy client) := by
  rw [map_fst_flips]
  exact (arrange_perm s policy client _).trans (d.shuffle_perm _)

/-- The words stand one after the other, so no coin is flipped for two entries. -/
theorem pairwise_snd_flips (s : Selector) (policy : Policy) (client : Client)
    (candidates : List Entry) (d : Dice) :
    (s.flips policy client candidates d).Pairwise fun p q => p.2 < q.2 := by
  rw [← List.pairwise_map, flips, List.zipIdx_map_snd]
  exact List.pairwise_lt_range'

/-- Unless all coins fail, a selection is what the walk takes. -/
theorem select_eq_flips (hall : policy ≠ .all) (hclient : ¬(policy = .metro ∧ client.metro.isNone))
    (hwon : ∃ flip ∈ s.flips policy client candidates d, Won d flip) :
    (s.select policy candidates client d).1 =
      (((s.flips policy client candidates d).filter (Won d ·)).take (s.wanted policy)).map
        Prod.fst := by
  have hword (flip : Entry × ℕ) :
      Won (d.shuffle (candidates.filter (eligible policy client))).2 flip ↔ Won d flip := by
    rw [Won, Dice.shuffle_word, Won]
  have hne : (((s.flips policy client candidates d).filter (Won d ·)).take (s.wanted policy)).map
      Prod.fst ≠ [] := by
    obtain ⟨flip, hflip, hwon⟩ := hwon
    have hmem : flip ∈ (s.flips policy client candidates d).filter (Won d ·) :=
      List.mem_filter.mpr ⟨hflip, decide_eq_true hwon⟩
    have hpos := s.one_le_wanted policy
    rw [ne_eq, List.map_eq_nil_iff, List.take_eq_nil_iff, not_or]
    exact ⟨by omega, List.ne_nil_of_mem hmem⟩
  rw [select_eq s d candidates hall hclient]
  dsimp only [walkOrDraw]
  rw [walk_eq]
  simp only [hword]
  exact if_neg (mt List.isEmpty_iff.mp hne)

/-- With no entry that fits there is none to take or to draw. -/
theorem select_eq_nil (hall : policy ≠ .all) (hclient : ¬(policy = .metro ∧ client.metro.isNone))
    (hnone : s.flips policy client candidates d = []) :
    (s.select policy candidates client d).1 = [] := by
  rw [select_eq s d candidates hall hclient]
  dsimp only
  rw [← map_fst_flips, hnone, List.map_nil]
  refine List.eq_nil_iff_forall_not_mem.mpr fun e he => ?_
  unfold walkOrDraw at he
  dsimp only at he
  split at he
  · cases (weightedPick_mem (Option.mem_toList.mp he)).1
  · cases (walk_sublist _ _ _).subset he

/-! ## Selections by distance -/

section Geographic

variable (hgeo : policy = .geo ∨ policy = .geoOptions) (hclient : client.location = some origin)

include hgeo

theorem ne_all : policy ≠ .all := by
  rintro rfl
  obtain h | h := hgeo <;> cases h

theorem not_without_metro : ¬(policy = .metro ∧ client.metro.isNone) := by
  rintro ⟨rfl, -⟩
  obtain h | h := hgeo <;> cases h

/-- What is sure to be taken is the beginning of the ranking. -/
theorem select_eq_take
    (hone : ∀ e ∈ candidates.filter (eligible policy client), e.probability = 1.0) :
    (s.select policy candidates client d).1 =
      ((s.flips policy client candidates d).map Prod.fst).take (s.wanted policy) := by
  have hwon : ∀ flip ∈ s.flips policy client candidates d, Won d flip := by
    intro flip hflip
    have hfits := (map_fst_flips_perm s policy client candidates d).mem_iff.mp
      (List.mem_map_of_mem hflip)
    rw [Won, hone _ hfits]
    exact Dice.unit_lt_one _
  by_cases hnone : s.flips policy client candidates d = []
  · rw [select_eq_nil (ne_all hgeo) (not_without_metro hgeo) hnone, hnone, List.map_nil,
      List.take_nil]
  · obtain ⟨flip, hflip⟩ := List.exists_mem_of_ne_nil _ hnone
    rw [select_eq_flips (ne_all hgeo) (not_without_metro hgeo) ⟨flip, hflip, hwon flip hflip⟩,
      List.filter_eq_self.mpr fun flip hflip => decide_eq_true (hwon flip hflip), List.map_take]

theorem mem_of_mem_select {e : Entry}
    (hone : ∀ e ∈ candidates.filter (eligible policy client), e.probability = 1.0)
    (he : e ∈ (s.select policy candidates client d).1) :
    e ∈ candidates.filter (eligible policy client) := by
  rw [select_eq_take hgeo hone] at he
  exact (map_fst_flips_perm s policy client candidates d).mem_iff.mp (List.mem_of_mem_take he)

/-- Where everything is certain all are selected, up to the number that is wanted. -/
theorem length_select
    (hone : ∀ e ∈ candidates.filter (eligible policy client), e.probability = 1.0) :
    (s.select policy candidates client d).1.length =
      min (if policy = .geo then 1 else max s.maxResults 1)
        (candidates.filter (eligible policy client)).length := by
  have hwanted : s.wanted policy = if policy = .geo then 1 else max s.maxResults 1 := by
    obtain rfl | rfl := hgeo <;> rfl
  rw [select_eq_take hgeo hone, List.length_take,
    (s.map_fst_flips_perm policy client candidates d).length_eq, hwanted]

include hclient

theorem arrange_eq (entries : List Entry) :
    s.arrange policy client entries = entries.mergeSort (nearerOrSame s.math origin) := by
  obtain rfl | rfl := hgeo <;> simp only [arrange, hclient]

/-- The flips are in the order of the distances. -/
theorem pairwise_fst_flips
    (h : Comparable s.math origin (candidates.filter (eligible policy client))) (d : Dice) :
    ((s.flips policy client candidates d).map Prod.fst).Pairwise (NoFarther s.math origin) := by
  have hshuffled := d.shuffle_perm (candidates.filter (eligible policy client))
  rw [map_fst_flips, arrange_eq hgeo hclient]
  exact (h.ranks.of_perm hshuffled.symm).pairwise_mergeSort fun a ha b hb =>
    h.nearerOrSame_iff (hshuffled.mem_iff.mp ha) (hshuffled.mem_iff.mp hb)

/-- Of two flips the later one is not nearer. -/
theorem pairwise_flips (h : Comparable s.math origin (candidates.filter (eligible policy client)))
    (d : Dice) : (s.flips policy client candidates d).Pairwise fun p q =>
      p.2 < q.2 ∧ NoFarther s.math origin p.1 q.1 :=
  (pairwise_snd_flips s policy client candidates d).and
    (List.pairwise_map.mp (pairwise_fst_flips hgeo hclient h d))

/-- What was ranked before a flip that is taken is taken, too, or was lost. -/
theorem mem_taken_or_lost
    (h : Comparable s.math origin (candidates.filter (eligible policy client))) {n : ℕ}
    {pick flip : Entry × ℕ} (hflip : flip ∈ s.flips policy client candidates d)
    (hpick : pick ∈ ((s.flips policy client candidates d).filter (Won d ·)).take n)
    (hbefore : flip.2 < pick.2 ∨ ¬NoFarther s.math origin pick.1 flip.1) :
    flip ∈ ((s.flips policy client candidates d).filter (Won d ·)).take n ∨ ¬Won d flip := by
  have hnot : ¬(pick.2 < flip.2 ∧ NoFarther s.math origin pick.1 flip.1) := fun hafter =>
    hbefore.elim (Nat.lt_asymm hafter.1) fun hnearer => hnearer hafter.2
  exact (mem_take_filter_of_not (pairwise_flips hgeo hclient h d) hpick hflip hnot).imp_right
    fun hlost => by simpa using hlost

/-- Where nothing is left to chance, what fits is what is selected and others that are no nearer. -/
theorem exists_others (h : Comparable s.math origin (candidates.filter (eligible policy client)))
    (hone : ∀ e ∈ candidates.filter (eligible policy client), e.probability = 1.0) :
    ∃ others, candidates.filter (eligible policy client) ~
      (s.select policy candidates client d).1 ++ others ∧
      ((s.select policy candidates client d).1 ++ others).Pairwise (NoFarther s.math origin) := by
  refine ⟨((s.flips policy client candidates d).map Prod.fst).drop (s.wanted policy), ?_⟩
  rw [select_eq_take hgeo hone, List.take_append_drop]
  exact ⟨(s.map_fst_flips_perm policy client candidates d).symm,
    pairwise_fst_flips hgeo hclient h d⟩

/-- Two selections in which nothing is left to chance agree in the distances, place by place. -/
theorem forall₂_select {candidates' : List Entry}
    (h : Comparable s.math origin (candidates.filter (eligible policy client)))
    (hone : ∀ e ∈ candidates.filter (eligible policy client), e.probability = 1.0)
    (hcandidates : candidates' ~ candidates) (d d' : Dice) :
    List.Forall₂ (fun a b => NoFarther s.math origin a b ∧ NoFarther s.math origin b a)
      (s.select policy candidates client d).1 (s.select policy candidates' client d').1 := by
  classical
  have hfitting : candidates'.filter (eligible policy client) ~
      candidates.filter (eligible policy client) :=
    hcandidates.filter _
  have hperm := s.map_fst_flips_perm policy client candidates d
  have hperm' := s.map_fst_flips_perm policy client candidates' d'
  have hsorted := pairwise_fst_flips hgeo hclient h d
  have hsorted' := pairwise_fst_flips hgeo hclient (h.of_perm (hfitting.symm.filterMap _)) d'
  rw [select_eq_take hgeo hone, select_eq_take hgeo fun e he => hone e (hfitting.mem_iff.mp he)]
  exact List.forall₂_take _ <| (h.ranks.of_perm hperm.symm).forall₂_of_perm
    (hperm.trans (hfitting.symm.trans hperm'.symm)) hsorted hsorted'

end Geographic

/-- **The nearest are selected first.** The entries that fit stand in the order of their distance
    when coins are flipped for them. Unless all coins fail, the entries that are selected are in
    this order, and whatever was ranked before one of them, by its place or by its distance, is
    selected or lost its own flip. If all entries that fit have the probability one, as many are
    selected as the policy wants, or all there are; the others are no nearer; and the distances are
    the same for all words and all orders of the candidates, as numbers, and so the same doubles
    unless one is a zero with a minus sign. -/
theorem select_nearest_first (s : Selector) (candidates : List Entry) (d : Dice)
    (hgeo : policy = .geo ∨ policy = .geoOptions) (hclient : client.location = some origin)
    (hcomparable : Comparable s.math origin (candidates.filter (eligible policy client))) :
    let fitting := candidates.filter (eligible policy client)
    let flips := s.flips policy client candidates d
    let selected := (s.select policy candidates client d).1
    (flips.map Prod.fst ~ fitting ∧ flips.Pairwise fun p q =>
      p.2 < q.2 ∧ NoFarther s.math origin p.1 q.1) ∧
    ((∃ flip ∈ flips, Won d flip) →
      selected.Pairwise (NoFarther s.math origin) ∧
      ∃ picked, picked <+ flips ∧ selected = picked.map Prod.fst ∧ (∀ pick ∈ picked, Won d pick) ∧
        ∀ pick ∈ picked, ∀ flip ∈ flips,
          flip.2 < pick.2 ∨ ¬NoFarther s.math origin pick.1 flip.1 → flip ∈ picked ∨ ¬Won d flip) ∧
    ((∀ e ∈ fitting, e.probability = 1.0) →
      selected.length = min (if policy = .geo then 1 else max s.maxResults 1) fitting.length ∧
      selected.Pairwise (NoFarther s.math origin) ∧
      (∃ others, fitting ~ selected ++ others ∧
        ∀ a ∈ selected, ∀ b ∈ others, NoFarther s.math origin a b) ∧
      ∀ candidates' d', candidates' ~ candidates →
        let selected' := (s.select policy candidates' client d').1
        selected.map (distance? s.math origin) == selected'.map (distance? s.math origin) ∧
        ((∀ e ∈ fitting, distance? s.math origin e ≠ some (-0.0)) →
          selected.map (distance? s.math origin) = selected'.map (distance? s.math origin))) := by
  intro fitting flips selected
  have hpairwise := pairwise_flips hgeo hclient hcomparable d
  refine ⟨⟨s.map_fst_flips_perm policy client candidates d, hpairwise⟩, fun hwon => ?_,
    fun hone => ?_⟩
  · have hselected : selected = _ := select_eq_flips (ne_all hgeo) (not_without_metro hgeo) hwon
    have hsub : (flips.filter (Won d ·)).take (s.wanted policy) <+ flips :=
      (List.take_sublist _ _).trans List.filter_sublist
    refine ⟨?_, _, hsub, hselected, fun pick hpick => ?_, fun pick hpick flip hflip hbefore => ?_⟩
    · rw [hselected]
      exact (pairwise_fst_flips hgeo hclient hcomparable d).sublist (hsub.map Prod.fst)
    · exact of_decide_eq_true (List.mem_filter.mp (List.mem_of_mem_take hpick)).2
    · exact mem_taken_or_lost hgeo hclient hcomparable hflip hpick hbefore
  · obtain ⟨others, hperm, hranked⟩ := exists_others (d := d) hgeo hclient hcomparable hone
    rw [List.pairwise_append] at hranked
    refine ⟨length_select hgeo hone, hranked.1, ⟨others, hperm, hranked.2.2⟩,
      fun candidates' d' hcandidates => ?_⟩
    have halike := forall₂_select hgeo hclient hcomparable hone hcandidates d d'
    have hfitting : candidates'.filter (eligible policy client) ~ fitting := hcandidates.filter _
    have hone' : ∀ e ∈ candidates'.filter (eligible policy client), e.probability = 1.0 :=
      fun e he => hone e (hfitting.mem_iff.mp he)
    refine ⟨map_distance?_beq halike,
      fun hzero => map_distance?_eq halike (fun e he => ?_) fun e he => ?_⟩
    · exact hzero e (mem_of_mem_select hgeo hone he)
    · exact hzero e (hfitting.mem_iff.mp (mem_of_mem_select hgeo hone' he))

/-- Elementary functions at the few angles of places that are a half turn apart on the equator. -/
def halfTurns : Elementary where
  sin x := if x == 0.0 then 0.0 else if x < 0.0 then -1.0 else 1.0
  cos _ := 1.0
  asin x := if x == 0.0 then 0.0 else 1.5707963267948966
  ln := id

/-- An entry at a longitude on the equator, or nowhere. -/
def entryAlong (target : String) (longitude : Option Float) : Entry :=
  { entryOf target 1.0 with latitude := longitude.map fun _ => 0.0, longitude }

/-- Of three entries, one of which is nowhere, the two that are somewhere are offered,
    by their distance. -/
theorem select_nearest_first_of_sample :
    let candidates := [entryAlong "10.0.0.1" (some 180.0), entryAlong "10.0.0.2" none,
      entryAlong "10.0.0.3" (some 0.0)]
    let selector : Selector := { maxResults := 2, math := halfTurns }
    let client : Client := { location := some ⟨0.0, 0.0⟩ }
    let dice := Dice.ofWords #[0xFFFFFFFFFFFFFFFF]
    Comparable selector.math ⟨0.0, 0.0⟩ (candidates.filter (eligible .geoOptions client)) ∧
      (selector.select .geoOptions candidates client dice).1.length = 2 ∧
      ∀ candidates' d', candidates' ~ candidates →
        (selector.select .geoOptions candidates client dice).1.map
            (distance? selector.math ⟨0.0, 0.0⟩) =
          (selector.select .geoOptions candidates' client d').1.map
            (distance? selector.math ⟨0.0, 0.0⟩) := by
  intro candidates selector client dice
  have hcomparable :
      Comparable selector.math ⟨0.0, 0.0⟩ (candidates.filter (eligible .geoOptions client)) :=
    ⟨by decide +kernel, by decide +kernel⟩
  obtain ⟨-, -, hsure⟩ := select_nearest_first selector candidates dice (.inr rfl) rfl hcomparable
  obtain ⟨hlength, -, -, halike⟩ := hsure (by decide +kernel)
  refine ⟨hcomparable, hlength.trans (by decide +kernel), fun candidates' d' hperm => ?_⟩
  exact (halike candidates' d' hperm).2 (by decide +kernel)

end Selector

end Roster
