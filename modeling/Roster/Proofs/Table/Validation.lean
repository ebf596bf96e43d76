import Roster.Proofs.Decimal.Plain
import Roster.Proofs.Table.Key
import Roster.Proofs.Table.Stored

/-!
# Which rows are taken

A row is taken exactly if it is `WellFormed`. That says of each field by itself what it has to be
like, and of a coordinate what is written there and not what is read (`IsCoordinate`), so that no
part of the check is repeated in it. What is taken is taken as it is. On the way back to a row one
thing can change, which is how a coordinate is spelt, and the new spelling stands for the same
double to its last bit.

A row that is refused is told a fault that it has (`Row.Has`). Which of several it is told
is left open here.

A count of requests comes back if it has no more than 63 bits, and no row of the source has more.
-/

namespace Roster

open Decimal

namespace Entry

/-! ## Coordinates -/

/-- No coordinate, or the text of a finite double. -/
def IsCoordinate (text : String) : Prop :=
  text = "" ∨ ∃ n : Numeral, n.Readable ∧ text.toList ∈ n.forms ∧ n.magnitude < overflow

/-- What a text stands for as a coordinate. -/
def Gives (text : String) : Option Float → Prop
  | none => text = ""
  | some x => x.isFinite ∧ ∃ n : Numeral, n.Readable ∧ text.toList ∈ n.forms ∧ n.Denotes x

variable {text : String} {c : Option Float} {axis : Axis}

/-- The coordinates are the texts that stand for something as one. -/
theorem isCoordinate_iff : IsCoordinate text ↔ ∃ c, Gives text c := by
  rw [Option.exists, IsCoordinate, ← exists_read?_iff]
  refine or_congr Iff.rfl (exists_congr fun x => ?_)
  rw [Gives, and_comm]
  exact and_congr_right fun hfinite => read?_eq_some_iff hfinite

theorem gives_some_iff {x : Float} : Gives text (some x) ↔ x.isFinite ∧ read? text = some x :=
  and_congr_right fun hfinite => (read?_eq_some_iff hfinite).symm

theorem readCoordinate_eq_none_iff : readCoordinate axis text = .ok none ↔ text = "" := by
  unfold readCoordinate
  split
  · next hempty => exact iff_of_true rfl hempty
  · next hne =>
    refine iff_of_false ?_ hne
    split
    · split <;> nofun
    · nofun

theorem readCoordinate_eq_some_iff {x : Float} :
    readCoordinate axis text = .ok (some x) ↔ x.isFinite ∧ read? text = some x := by
  unfold readCoordinate
  split
  · next hempty =>
    -- an empty text is no number either
    rw [hempty]
    exact iff_of_false nofun fun h => absurd h.2 nofun
  · split
    · next y hread =>
      rw [hread]
      split
      · next hfinite =>
        constructor
        · rintro ⟨⟩
          exact ⟨hfinite, rfl⟩
        · rintro ⟨-, ⟨⟩⟩
          rfl
      · next hnot =>
        refine iff_of_false nofun ?_
        rintro ⟨hfinite, ⟨⟩⟩
        exact hnot hfinite
    · next hread =>
      rw [hread]
      exact iff_of_false nofun fun h => absurd h.2 nofun

/-- What is read as a coordinate is what the text gives. -/
theorem readCoordinate_eq_ok_iff : readCoordinate axis text = .ok c ↔ Gives text c := by
  cases c with
  | none => exact readCoordinate_eq_none_iff
  | some x => exact readCoordinate_eq_some_iff.trans gives_some_iff.symm

/-- The fault of a coordinate names its axis and its text, and the text is none. -/
theorem fault_of_readCoordinate {fault : Fault} (h : readCoordinate axis text = .error fault) :
    fault = .coordinate axis text ∧ ¬ IsCoordinate text := by
  have hnot : ¬ IsCoordinate text := by
    rw [isCoordinate_iff]
    rintro ⟨c, hc⟩
    rw [readCoordinate_eq_ok_iff.mpr hc] at h
    cases h
  unfold readCoordinate at h
  split at h
  · cases h
  · split at h
    · split at h
      · cases h
      · cases h
        exact ⟨rfl, hnot⟩
    · cases h
      exact ⟨rfl, hnot⟩

/-! ## Address families -/

/-- A family is read if and only if the text is its label, or empty. -/
theorem readFamily_eq_ok_iff {family : Option AddressFamily} :
    readFamily text = .ok family ↔ text = (family.map AddressFamily.label).getD "" := by
  constructor
  · intro h
    unfold readFamily at h
    split at h
    · next hempty =>
      cases h
      exact hempty
    · unfold AddressFamily.parse? at h
      split at h
      · next hparsed =>
        cases h
        split at hparsed <;> cases hparsed <;> rfl
      · cases h
  · rintro rfl
    exact readFamily_label family

/-- The address families that can be named. -/
theorem exists_readFamily_iff :
    (∃ family, readFamily text = .ok family) ↔ text ∈ ["", "ipv4", "ipv6"] := by
  simp only [readFamily_eq_ok_iff, List.mem_cons, List.not_mem_nil, or_false]
  constructor
  · rintro ⟨_ | _ | _, rfl⟩
    · exact .inl rfl
    · exact .inr (.inl rfl)
    · exact .inr (.inr rfl)
  · rintro (rfl | rfl | rfl)
    · exact ⟨none, rfl⟩
    · exact ⟨some .ipv4, rfl⟩
    · exact ⟨some .ipv6, rfl⟩

/-- The fault of a family names its text, which is no label. -/
theorem fault_of_readFamily {fault : Fault} (h : readFamily text = .error fault) :
    fault = .family text ∧ text ∉ ["", "ipv4", "ipv6"] := by
  have hnot : text ∉ ["", "ipv4", "ipv6"] := by
    rw [← exists_readFamily_iff]
    rintro ⟨family, hfamily⟩
    rw [hfamily] at h
    cases h
  unfold readFamily at h
  split at h
  · cases h
  · split at h
    · cases h
    · cases h
      exact ⟨rfl, hnot⟩

end Entry

/-! ## Rows -/

namespace Row

/-- What a row has to be like. Each field is judged by itself. -/
structure WellFormed (r : Row) : Prop where
  separator : ∀ text ∈ [r.requester, r.path, r.policy, r.target], '#' ∉ text.toList
  path : r.path ≠ ""
  target : r.target ≠ ""
  probability : 0.0 ≤ r.probability ∧ r.probability ≤ 1.0
  requests : 0 ≤ r.requestsPerDay
  family : r.family ∈ ["", "ipv4", "ipv6"]
  latitude : Entry.IsCoordinate r.latitude
  longitude : Entry.IsCoordinate r.longitude

/-- That a row has a fault. It may have others too. -/
def Has (r : Row) : Entry.Fault → Prop
  | .key fault => r.key.Has fault
  | .probability p => p = r.probability ∧ ¬(0.0 ≤ p ∧ p ≤ 1.0)
  | .negativeRequests n => n = r.requestsPerDay ∧ n < 0
  | .family text => text = r.family ∧ text ∉ ["", "ipv4", "ipv6"]
  | .coordinate .latitude text => text = r.latitude ∧ ¬ Entry.IsCoordinate text
  | .coordinate .longitude text => text = r.longitude ∧ ¬ Entry.IsCoordinate text

variable {r : Row}

theorem fault?_key_eq_none_iff : r.key.fault? = none ↔
    (∀ text ∈ [r.requester, r.path, r.policy, r.target], '#' ∉ text.toList) ∧ r.path ≠ "" ∧
    r.target ≠ "" := by
  rw [Key.fault?_eq_none_iff]
  simp [Key.parts, key, Key.separator]

end Row

namespace Entry

variable {r : Row} {e : Entry}

/-- A row is accepted if and only if it is well formed. -/
theorem exists_ofRow_iff : (∃ e, ofRow r = .ok e) ↔ r.WellFormed := by
  simp only [ofRow_eq_ok_iff, check_eq_ok_iff, Row.fault?_key_eq_none_iff]
  constructor
  · rintro ⟨e, ⟨hseparator, hpath, htarget⟩, hprobability, hrequests, family, latitude, longitude,
      hfamily, hlatitude, hlongitude, -⟩
    exact ⟨hseparator, hpath, htarget, hprobability, hrequests,
      exists_readFamily_iff.mp ⟨family, hfamily⟩,
      isCoordinate_iff.mpr ⟨latitude, readCoordinate_eq_ok_iff.mp hlatitude⟩,
      isCoordinate_iff.mpr ⟨longitude, readCoordinate_eq_ok_iff.mp hlongitude⟩⟩
  · intro h
    obtain ⟨family, hfamily⟩ := exists_readFamily_iff.mpr h.family
    obtain ⟨latitude, hlatitude⟩ := isCoordinate_iff.mp h.latitude
    obtain ⟨longitude, hlongitude⟩ := isCoordinate_iff.mp h.longitude
    exact ⟨_, ⟨h.separator, h.path, h.target⟩, h.probability, h.requests, family, latitude,
      longitude, hfamily, readCoordinate_eq_ok_iff.mpr hlatitude,
      readCoordinate_eq_ok_iff.mpr hlongitude, rfl⟩

/-- A fault that is told is one that the row has. -/
theorem has_of_check {fault : Fault} (h : check r = .error fault) : r.Has fault := by
  simp only [check, bind, Except.bind, pure, Except.pure, throw, throwThe, MonadExceptOf.throw] at h
  split at h
  · next hfault =>
    cases h
    exact Key.has_of_fault? hfault
  · split at h
    · next hp =>
      cases h
      refine ⟨rfl, not_and_or.mpr ?_⟩
      simpa using hp
    · split at h
      · next hn =>
        cases h
        exact ⟨rfl, hn⟩
      · split at h
        · next hfamily =>
          cases h
          obtain ⟨rfl, hnot⟩ := fault_of_readFamily hfamily
          exact ⟨rfl, hnot⟩
        · split at h
          · next hlatitude =>
            cases h
            obtain ⟨rfl, hnot⟩ := fault_of_readCoordinate hlatitude
            exact ⟨rfl, hnot⟩
          · split at h
            · next hlongitude =>
              cases h
              obtain ⟨rfl, hnot⟩ := fault_of_readCoordinate hlongitude
              exact ⟨rfl, hnot⟩
            · cases h

/-- What an entry has from a row. -/
structure Holds (e : Entry) (r : Row) : Prop where
  key : e.key = r.key
  format : e.format = r.format
  metro : e.metro = r.metro
  probability : e.probability = r.probability
  requests : (e.requestsPerDay : ℤ) = r.requestsPerDay
  family : r.family = (e.family.map AddressFamily.label).getD ""
  latitude : Gives r.latitude e.latitude
  longitude : Gives r.longitude e.longitude

/-- An entry holds what its row says. -/
theorem holds_of_ofRow (h : ofRow r = .ok e) : e.Holds r := by
  obtain ⟨-, -, hrequests, family, latitude, longitude, hfamily, hlatitude, hlongitude, rfl⟩ :=
    check_eq_ok_iff.mp (ofRow_eq_ok_iff.mp h)
  exact ⟨rfl, rfl, rfl, rfl, Int.toNat_of_nonneg hrequests, readFamily_eq_ok_iff.mp hfamily,
    readCoordinate_eq_ok_iff.mp hlatitude, readCoordinate_eq_ok_iff.mp hlongitude⟩

/-! ## Rows of entries -/

/-- An entry goes back to its row, but for how its coordinates are spelled. -/
theorem Holds.toRow_eq (h : e.Holds r) (hr : r.requestsPerDay < 2 ^ 63) :
    e.toRow =
      { r with
        latitude := coordinateText e.latitude
        longitude := coordinateText e.longitude } := by
  have hrequests : min (e.requestsPerDay : ℤ) ((Nat.pow 2 63 : ℕ) - 1) = r.requestsPerDay := by
    have := h.requests
    simp only [Nat.pow_eq]
    omega
  rw [toRow, hrequests, h.key, h.format, h.metro, h.probability, ← h.family]
  rfl

theorem Valid.gives_text (h : e.Valid) :
    Gives (coordinateText e.latitude) e.latitude ∧ Gives (coordinateText e.longitude) e.longitude :=
  ⟨readCoordinate_eq_ok_iff.mp (readCoordinate_text .latitude h.latitude),
    readCoordinate_eq_ok_iff.mp (readCoordinate_text .longitude h.longitude)⟩

/-- The row of an accepted entry is accepted again, as that entry. -/
theorem ofRow_toRow_of_row (h : ofRow r = .ok e) (hr : r.requestsPerDay < 2 ^ 63) :
    ofRow e.toRow = .ok e := by
  have hvalid := valid_of_ofRow h
  have hagain := ofRow_toRow hvalid hvalid.nonneg hvalid.le_one
  rw [min_requestsPerDay h hr] at hagain
  exact hagain

/-- **The well-formed rows are taken, as they are, and no others.** The row of an entry that was
    taken is the row that it came from, up to the spelling of the coordinates, and gives the same
    entry again. A row that is refused is told one of its faults, and which row it is. -/
theorem wellFormed_rows_unaltered (r : Row) :
    ((∃ e, ofRow r = .ok e) ↔ r.WellFormed) ∧
      (∀ e, ofRow r = .ok e → e.Holds r ∧
        (r.requestsPerDay < 2 ^ 63 → ofRow e.toRow = .ok e ∧ e.sameContent e ∧
          ∃ latitude longitude, e.toRow = { r with latitude, longitude } ∧
            Gives latitude e.latitude ∧ Gives longitude e.longitude)) ∧
      ∀ m, ofRow r = .error m → r.Has m.fault ∧ m.key = r.key ∧
        m.message = "malformed entry " ++ r.key.render ++ ": " ++ m.fault.message := by
  refine ⟨exists_ofRow_iff, fun e h => ⟨holds_of_ofRow h, fun hr => ?_⟩, fun m h => ?_⟩
  · have hvalid := valid_of_ofRow h
    exact ⟨ofRow_toRow_of_row h hr, sameContent_self hvalid, _, _, (holds_of_ofRow h).toRow_eq hr,
      hvalid.gives_text⟩
  · cases hcheck : check r with
    | ok e =>
      rw [ofRow, hcheck] at h
      cases h
    | error fault =>
      rw [ofRow, hcheck] at h
      cases h
      exact ⟨has_of_check hcheck, rfl, rfl⟩

/-- Everything is at a limit, and the coordinates are spelt as nobody would write them. -/
def spelledRow : Row :=
  { path := "ndt", target := "10.0.0.1", family := "ipv6", latitude := "+040.50E-0"
    longitude := "-.0", probability := 1.0, requestsPerDay := 2 ^ 63 - 1 }

/-- A little less is taken for the largest double, and this is infinite. -/
def infiniteRow : Row :=
  { spelledRow with latitude := "1.8e308" }

theorem wellFormed_rows_unaltered_spelledRow :
    (∃ e, ofRow spelledRow = .ok e ∧ spelledRow.requestsPerDay < 2 ^ 63 ∧ e.Holds spelledRow ∧
      ofRow e.toRow = .ok e ∧ e.toRow.latitude = "40.5" ∧ e.toRow.longitude = "-0") ∧
      spelledRow.WellFormed ∧ ∃ m, ofRow infiniteRow = .error m ∧ infiniteRow.Has m.fault := by
  have htexts : (ofRow spelledRow).toOption.map (fun e => (e.toRow.latitude, e.toRow.longitude)) =
      some ("40.5", "-0") := by
    decide +kernel
  have hinfinite : (ofRow infiniteRow).isOk = false := by decide +kernel
  cases hrow : ofRow spelledRow with
  | error m =>
    rw [hrow] at htexts
    cases htexts
  | ok e =>
    cases hfaulty : ofRow infiniteRow with
    | ok e =>
      rw [hfaulty] at hinfinite
      cases hinfinite
    | error m =>
      rw [hrow] at htexts
      obtain ⟨hlatitude, hlongitude⟩ := Prod.mk.inj (Option.some.inj htexts)
      obtain ⟨hiff, htaken, -⟩ := wellFormed_rows_unaltered spelledRow
      obtain ⟨hholds, hback⟩ := htaken e hrow
      have hbound : spelledRow.requestsPerDay < 2 ^ 63 := by decide
      exact ⟨⟨e, rfl, hbound, hholds, (hback hbound).1, hlatitude, hlongitude⟩,
        hiff.mp ⟨e, hrow⟩, m, rfl, ((wellFormed_rows_unaltered infiniteRow).2.2 m hfaulty).1⟩

end Entry

end Roster
