import Roster.Proofs.Query.Selection
import Roster.Proofs.Text.Order

/-!
# The listing

Under the policy `all` nothing is left to chance: the entries that serve the client are put into the
order of their keys, and no word is drawn. As that order is linear (`Key.le_iff`), entries with keys
of their own can stand in it in one way only, so that the order in which the candidates come does
not show (`listing_eq_of_perm`).

Sorting by the written form of the key would be another order. A key's parts end where the separator
stands, and characters like `!` are less than the separator (`select_all_close_paths`).
-/

namespace Roster

open scoped List

/-! ## Requesters -/

namespace Entry

/-- A pattern of requesters covers a client whose address may be unknown. -/
inductive Covers : String → Option String → Prop
  | nothingAsked (client : Option String) : Covers "" client
  | star (client : Option String) : Covers "*" client
  | beginning (start rest : String) : Covers (start ++ "*") (some (start ++ rest))
  | same (address : String) : Covers address (some address)

/-- A pattern that ends in a star, apart from the star. -/
theorem exists_append_star_iff {pattern : String} :
    pattern.toList.getLast? = some '*' ↔ ∃ start : String, pattern = start ++ "*" := by
  rw [List.getLast?_eq_some_iff]
  constructor
  · rintro ⟨start, hstart⟩
    exact ⟨.ofList start,
      String.toList_inj.mp (by rw [hstart, String.toList_append, String.toList_ofList]; rfl)⟩
  · rintro ⟨start, rfl⟩
    exact ⟨start.toList, by rw [String.toList_append]; rfl⟩

theorem isPrefixOf_dropLast_iff {start address : String} :
    (start ++ "*").toList.dropLast.isPrefixOf address.toList ↔
      ∃ rest : String, address = start ++ rest := by
  have hdrop : (start ++ "*").toList.dropLast = start.toList := by
    rw [String.toList_append]
    exact List.dropLast_concat
  rw [hdrop, List.isPrefixOf_iff_prefix]
  constructor
  · rintro ⟨rest, hrest⟩
    exact ⟨.ofList rest,
      String.toList_inj.mp (by rw [String.toList_append, String.toList_ofList, hrest])⟩
  · rintro ⟨rest, rfl⟩
    rw [String.toList_append]
    exact List.prefix_append _ _

theorem covers_of_covers {pattern : String} {client : Option String} (h : Covers pattern client) :
    covers pattern client := by
  unfold covers
  by_cases heveryone : pattern = "" ∨ pattern = "*"
  · rw [if_pos heveryone]
  · rw [if_neg heveryone]
    cases h with
    | nothingAsked => exact absurd (.inl rfl) heveryone
    | star => exact absurd (.inr rfl) heveryone
    | beginning start rest =>
      dsimp only
      rw [if_pos (exists_append_star_iff.mpr ⟨start, rfl⟩)]
      exact isPrefixOf_dropLast_iff.mpr ⟨rest, rfl⟩
    | same =>
      dsimp only
      split
      · next hstar =>
        obtain ⟨start, rfl⟩ := exists_append_star_iff.mp hstar
        exact isPrefixOf_dropLast_iff.mpr ⟨"*", rfl⟩
      · exact decide_eq_true rfl

/-- A pattern covers a client as the text of the pattern says. -/
theorem covers_iff {pattern : String} {client : Option String} :
    covers pattern client ↔ Covers pattern client := by
  refine ⟨fun h => ?_, covers_of_covers⟩
  unfold covers at h
  by_cases heveryone : pattern = "" ∨ pattern = "*"
  · rcases heveryone with rfl | rfl
    · exact .nothingAsked client
    · exact .star client
  · rw [if_neg heveryone] at h
    cases client with
    | none => cases h
    | some address =>
      dsimp only at h
      split at h
      · next hstar =>
        obtain ⟨start, rfl⟩ := exists_append_star_iff.mp hstar
        obtain ⟨rest, rfl⟩ := isPrefixOf_dropLast_iff.mp h
        exact .beginning start rest
      · rw [of_decide_eq_true h]
        exact .same pattern

end Entry

namespace Selector

open Entry

variable {client : Client} {e : Entry} {entries others : List Entry}

/-- An entry is listed for a client: it is meant for the client's address, has the address family if
    both are known, and has a probability at all. -/
structure Serves (client : Client) (e : Entry) : Prop where
  requester : Covers e.key.requester client.address
  family : ∀ wanted, client.family = some wanted → e.family = none ∨ e.family = some wanted
  positive : 0.0 < e.probability

theorem serves_iff : Serves client e ↔ eligible .all client e ∧ 0.0 < e.probability := by
  rw [eligible_iff]
  exact ⟨fun h => ⟨⟨covers_iff.mpr h.requester, h.family, nofun⟩, h.positive⟩,
    fun ⟨hfits, hpos⟩ => ⟨covers_iff.mp hfits.requester, hfits.family, hpos⟩⟩

instance : Decidable (Serves client e) :=
  decidable_of_iff _ serves_iff.symm

/-! ## The order -/

/-- A listing is ordered by the octets of the keys. -/
theorem pairwise_listing (entries : List Entry) :
    (listing entries).Pairwise fun a b => a.key.octets ≤ b.key.octets := by
  refine (List.pairwise_mergeSort ?_ ?_ _).imp fun h => (Key.le_iff _ _).mp h
  · simp only [Key.le_iff]
    exact fun _ _ _ => le_trans
  · intro a b
    rw [Bool.or_eq_true, Key.le_iff, Key.le_iff]
    exact le_total _ _

/-- Entries with keys of their own can be listed in one way only. -/
theorem listing_eq_of_perm (hperm : entries ~ others) (hkeys : (entries.map Entry.key).Nodup) :
    listing entries = listing others := by
  have hlisted : listing entries ~ listing others :=
    ((listing_perm entries).trans (hperm.filter _)).trans (listing_perm others).symm
  refine List.Perm.eq_of_pairwise ?_ (pairwise_listing entries) (pairwise_listing others) hlisted
  intro a b ha hb hab hba
  have hentry {e : Entry} (he : e ∈ listing entries) : e ∈ entries :=
    List.mem_of_mem_filter ((listing_perm entries).mem_iff.mp he)
  exact List.inj_on_of_nodup_map hkeys (hentry ha) (hentry (hlisted.mem_iff.mpr hb))
    (Key.octets_injective (le_antisymm hab hba))

/-- Under the policy for all, everything eligible is listed and nothing is drawn. -/
theorem select_all (s : Selector) (candidates : List Entry) (client : Client) (d : Dice) :
    s.select .all candidates client d = (listing (candidates.filter (eligible .all client)), d) :=
  rfl

/-- **Under `all` exactly the entries that serve the client are offered, each as often as
    it is a candidate, in the order of their keys. No word is drawn and nothing is left out
    for being too much, and if no two candidates have one key, the order of the candidates
    makes no difference.** -/
theorem select_all_listing (s : Selector) (candidates : List Entry) (client : Client) (d : Dice) :
    let listed := s.select .all candidates client d
    listed.1 ~ candidates.filter (fun e => Serves client e) ∧
      listed.1.Pairwise (fun a b => a.key.octets ≤ b.key.octets) ∧
      listed.2 = d ∧
      (∀ (n : ℕ) (d' : Dice), ({ s with maxResults := n }.select .all candidates client d').1 =
        listed.1) ∧
      ∀ candidates', candidates' ~ candidates → (candidates.map Entry.key).Nodup →
        s.select .all candidates' client d = listed := by
  intro listed
  refine ⟨(listing_perm _).trans (.of_eq ?_), pairwise_listing _, rfl, fun _ _ => rfl,
    fun candidates' hperm hkeys => ?_⟩
  · rw [List.filter_filter]
    refine List.filter_congr fun e _ => ?_
    rw [Bool.eq_iff_iff, Bool.and_eq_true, decide_eq_true_iff, decide_eq_true_iff,
      serves_iff, and_comm]
  · have hsub : ((candidates.filter (eligible .all client)).map Entry.key).Nodup :=
      hkeys.sublist (List.filter_sublist.map _)
    exact congrArg (·, d) (listing_eq_of_perm (hperm.filter _).symm hsub).symm

/-- An entry for every requester, under a path. -/
def entryUnder (path : String) : Entry :=
  { entryOf "10.0.0.1" 0.5 with
    key := { requester := "", path, policy := "all", target := "10.0.0.1" } }

/-- In the order of the keys `ndt` comes before `ndt!`, in that of their written forms after it. -/
theorem select_all_close_paths :
    let candidates := [entryUnder "ndt!", entryUnder "ndt"]
    let selector : Selector := { maxResults := 1, math := ⟨id, id, id, id⟩ }
    let dice := Dice.ofWords #[]
    (candidates.map Entry.key).Nodup ∧
      (candidates.map fun e => e.key.render) = ["#ndt!#all#10.0.0.1", "#ndt#all#10.0.0.1"] ∧
      "#ndt!#all#10.0.0.1" < "#ndt#all#10.0.0.1" ∧
      selector.select .all candidates {} dice = ([entryUnder "ndt", entryUnder "ndt!"], dice) ∧
      selector.select .all candidates.reverse {} dice =
        selector.select .all candidates {} dice := by
  intro candidates selector dice
  have hkeys : (candidates.map Entry.key).Nodup := by decide
  obtain ⟨-, -, -, -, hperm⟩ := select_all_listing selector candidates {} dice
  refine ⟨hkeys, by decide, by decide, ?_, hperm _ (List.reverse_perm _) hkeys⟩
  have heligible : candidates.filter (eligible .all {}) = candidates := rfl
  have hpositive : (candidates.filter fun e => 0.0 < e.probability) = candidates := rfl
  have hle : (entryUnder "ndt!").key.le (entryUnder "ndt").key = false := by decide
  rw [select_all, heligible, listing, hpositive]
  simp [candidates, List.mergeSort, hle]

end Selector

end Roster
