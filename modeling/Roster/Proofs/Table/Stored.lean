import Roster.Proofs.Decimal.Positive
import Roster.Proofs.Json.Record
import Roster.Proofs.Table.Entry

/-!
# Stored entries

What is kept under a key is the row form of an entry, and that is read back without a complaint
(`decode_encode`): the texts as they are, the coordinates to the last bit, and a count of requests
that is cut to 63 bits. The probability alone can come back as a neighbouring double, but as one
that passes the check of rows, and never as zero unless it was.

An entry that no row gives, with a faulty key or an infinite coordinate, is written all the same
and not read back.
-/

namespace Roster

open Decimal

variable {r : Row} {e : Entry} {p : Float}

/-! ## Rows -/

namespace Row

theorem float?_float (x : Float) :
    Tree.float? (Json.float x) = (Numeral.ofFloat .json x).toNumber?.map Number.toFloat :=
  rfl

/-- An integer of 64 bits is read back. -/
theorem int64?_int {n : ℤ} (hlow : -2 ^ 63 ≤ n) (hhigh : n < 2 ^ 63) :
    Tree.int64? (Json.int n) = some n := by
  have hint : (Json.int n).int? = some n := toInt?_ofInt hlow hhigh
  rw [Tree.int64?, hint, Option.bind_eq_bind, Option.bind_some, if_pos]
  exact ⟨hlow, hhigh⟩

theorem wf_toJson (r : Row) : Json.Wf r.toJson := by
  refine Json.wf_fields ?_
  simp [Json.wf_text, Json.wf_float, Json.wf_int]

/-- A row is read as it was written, but for what becomes of its probability. -/
theorem ofTree?_toJson (hp : Tree.float? (Json.float r.probability) = some p)
    (hlow : -2 ^ 63 ≤ r.requestsPerDay) (hhigh : r.requestsPerDay < 2 ^ 63) :
    ofTree? r.toJson = some { r with probability := p } := by
  have hnames : (([
      ("af", .text r.family), ("format", .text r.format), ("latitude", .text r.latitude),
      ("longitude", .text r.longitude), ("metro", .text r.metro), ("policy", .text r.policy),
      ("path", .text r.path), ("probability", .float r.probability),
      ("requester_ip", .text r.requester), ("requests_per_day", .int r.requestsPerDay),
      ("target_ip", .text r.target)] : List (String × Json)).map Prod.fst).Nodup := by
    simp
  have hrecord := Json.record?_fields hnames
  have htext (text : String) : Tree.text? (Json.text text) = some text := rfl
  have hint := int64?_int hlow hhigh
  rw [ofTree?]
  change (Tree.record? fieldNames r.toJson).bind _ = _
  -- The names that are asked for are those that are written, in the same order.
  rw [show Tree.record? fieldNames r.toJson = _ from hrecord]
  simp [Tree.withDefault, Tree.required, htext, hp, hint]

end Row

/-! ## Entries -/

namespace Entry

/-- A family is read back by its label. -/
theorem readFamily_label (family : Option AddressFamily) :
    readFamily ((family.map AddressFamily.label).getD "") = .ok family := by
  cases family with
  | none => rfl
  | some family => cases family <;> rfl

theorem plainText_ne_empty {x : Float} (h : x.isFinite) : plainText x ≠ "" := by
  intro hempty
  have hread := read?_plainText h
  rw [hempty] at hread
  cases hread

/-- A coordinate is read back as it was, also one that is missing. -/
theorem readCoordinate_text (axis : Axis) {c : Option Float} (h : ∀ x, c = some x → x.isFinite) :
    readCoordinate axis (coordinateText c) = .ok c := by
  cases c with
  | none => rfl
  | some x =>
    have hx := h x rfl
    rw [coordinateText, readCoordinate, if_neg (plainText_ne_empty hx), read?_plainText hx]
    simp [hx]

/-- The row of an entry is taken again, with any probability that is one. -/
theorem ofRow_toRow (h : e.Valid) (hlow : 0.0 ≤ p) (hhigh : p ≤ 1.0) :
    ofRow { e.toRow with probability := p } =
      .ok { e with probability := p, requestsPerDay := min e.requestsPerDay (2 ^ 63 - 1) } := by
  -- A row has 63 bits for the count.
  have hrequests : e.toRow.requestsPerDay = (min e.requestsPerDay (2 ^ 63 - 1) : ℕ) := by
    simp [toRow]
  rw [ofRow_eq_ok_iff, check_eq_ok_iff]
  refine ⟨h.key, ⟨hlow, hhigh⟩, hrequests.symm ▸ Int.natCast_nonneg _, e.family,
    e.latitude, e.longitude, readFamily_label e.family, readCoordinate_text .latitude h.latitude,
    readCoordinate_text .longitude h.longitude, ?_⟩
  rw [hrequests]
  rfl

/-- What is read back of an entry if its probability is read as `p`. -/
theorem decode_encode_of_read (h : e.Valid)
    (hp : (Numeral.ofFloat .json e.probability).toNumber? = some (.double p)) (hlow : 0.0 ≤ p)
    (hhigh : p ≤ 1.0) :
    decode e.encode =
      .ok { e with probability := p, requestsPerDay := min e.requestsPerDay (2 ^ 63 - 1) } := by
  have hfloat : Tree.float? (Json.float e.toRow.probability) = some p := by
    rw [Row.float?_float]
    change (Numeral.ofFloat .json e.probability).toNumber?.map Number.toFloat = some p
    rw [hp]
    rfl
  have hrequests : e.toRow.requestsPerDay < 2 ^ 63 ∧ 0 ≤ e.toRow.requestsPerDay := by
    simp only [toRow, Nat.pow_eq]
    omega
  have hrow : Row.ofTree? e.toRow.toJson = some { e.toRow with probability := p } :=
    Row.ofTree?_toJson hfloat (by omega) hrequests.1
  rw [decode, encode, Json.value_write (Row.wf_toJson e.toRow)]
  simp only [hrow, ofRow_toRow h hlow hhigh]
  rfl

/-- **An entry that a row can give is read back**, with a probability that may differ
    in its last place. -/
theorem decode_encode (h : e.Valid) :
    ∃ p, ((0.0 ≤ p ∧ p ≤ 1.0) ∧ (0.0 < p ↔ 0.0 < e.probability)) ∧
      decode e.encode =
        .ok { e with probability := p, requestsPerDay := min e.requestsPerDay (2 ^ 63 - 1) } := by
  obtain ⟨p, hnumber, hlow, hhigh⟩ := proportion_toNumber? h.nonneg h.le_one
  exact ⟨p, ⟨⟨hlow, hhigh⟩, zero_lt_iff_of_toNumber? h.nonneg h.le_one hnumber⟩,
    decode_encode_of_read h hnumber hlow hhigh⟩

/-! ## The content -/

theorem beq_of_finite_option {c : Option Float} (h : ∀ x, c = some x → x.isFinite) : c == c := by
  cases c with
  | none => rfl
  | some x => exact beq_self_of_isFinite (h x rfl)

/-- Beside the probability nothing can differ. -/
theorem sameContent_iff (h : e.Valid) (p : Float) :
    e.sameContent { e with probability := p } ↔ e.probability == p := by
  simp [sameContent, beq_of_finite_option h.latitude, beq_of_finite_option h.longitude]

/-- A valid entry has the content that it has, as none of its doubles is other than itself. -/
theorem sameContent_self (h : e.Valid) : e.sameContent e :=
  (sameContent_iff h e.probability).mpr
    (beq_self_of_isFinite (finite_of_proportion h.nonneg h.le_one).1)

/-- The count of a row has 63 bits, and is not cut. -/
theorem min_requestsPerDay (h : ofRow r = .ok e) (hr : r.requestsPerDay < 2 ^ 63) :
    min e.requestsPerDay (2 ^ 63 - 1) = e.requestsPerDay := by
  obtain ⟨-, -, hnonneg, family, latitude, longitude, -, -, -, rfl⟩ :=
    check_eq_ok_iff.mp (ofRow_eq_ok_iff.mp h)
  change min r.requestsPerDay.toNat (2 ^ 63 - 1) = r.requestsPerDay.toNat
  omega

/-- What is stored of a row is read back with the probability that its numeral is read as. -/
theorem decode_encode_of_row (h : ofRow r = .ok e) (hr : r.requestsPerDay < 2 ^ 63)
    (hp : (Numeral.ofFloat .json e.probability).toNumber? = some (.double p)) (hlow : 0.0 ≤ p)
    (hhigh : p ≤ 1.0) : decode e.encode = .ok { e with probability := p } := by
  rw [decode_encode_of_read (valid_of_ofRow h) hp hlow hhigh, min_requestsPerDay h hr]

/-- **The entry of an accepted row is read back with everything as it was but the probability**,
    which is the number that its digits are read as. That is a probability again and zero only if it
    was, and the content is the same exactly if it is the same number. -/
theorem read_back_of_row (h : ofRow r = .ok e) (hr : r.requestsPerDay < 2 ^ 63) :
    ∃ p, (Numeral.ofFloat .json e.probability).toNumber? = some (.double p) ∧
      (0.0 ≤ p ∧ p ≤ 1.0) ∧ (0.0 < p ↔ 0.0 < e.probability) ∧
      decode e.encode = .ok { e with probability := p } ∧
      (e.sameContent { e with probability := p } ↔ e.probability == p) := by
  have hvalid := valid_of_ofRow h
  obtain ⟨p, hnumber, hlow, hhigh⟩ := proportion_toNumber? hvalid.nonneg hvalid.le_one
  exact ⟨p, hnumber, ⟨hlow, hhigh⟩, zero_lt_iff_of_toNumber? hvalid.nonneg hvalid.le_one hnumber,
    decode_encode_of_row h hr hnumber hlow hhigh, sameContent_iff hvalid p⟩

/-! ## A probability that is lost -/

/-- The digits of this probability make a quotient that lies nearer to the next double. -/
def driftingRow : Row :=
  { path := "ndt", policy := "geo_options", target := "10.0.0.1",
    probability := 4.7049027488154887e-7, requestsPerDay := 1 }

theorem exists_ofRow_driftingRow :
    ∃ e, ofRow driftingRow = .ok e ∧ e.probability = driftingRow.probability := by
  simp only [ofRow_eq_ok_iff, check_eq_ok_iff]
  exact ⟨_, ⟨by decide, by decide, by decide, none, none, none, rfl, rfl, rfl, rfl⟩, rfl⟩

theorem read_back_driftingRow :
    ∃ e, ofRow driftingRow = .ok e ∧ driftingRow.requestsPerDay < 2 ^ 63 ∧
      ∃ p, 0.0 < p ∧ decode e.encode = .ok { e with probability := p } := by
  obtain ⟨e, hrow, hprobability⟩ := exists_ofRow_driftingRow
  obtain ⟨p, -, -, hpositive, hread, -⟩ := read_back_of_row hrow (by decide)
  refine ⟨e, hrow, by decide, p, hpositive.mpr ?_, hread⟩
  rw [hprobability]
  decide

theorem toNumber?_drifting :
    ((Numeral.ofFloat .json driftingRow.probability).toNumber?.map Number.toFloat).all
      fun p => !(driftingRow.probability == p) := by
  decide

/-- What is read back of this row does not have its content. -/
theorem content_lost_of_driftingRow :
    ∃ e d, ofRow driftingRow = .ok e ∧ decode e.encode = .ok d ∧ e.sameContent d = false := by
  obtain ⟨e, hrow, hprobability⟩ := exists_ofRow_driftingRow
  have hvalid := valid_of_ofRow hrow
  obtain ⟨p, hnumber, hlow, hhigh⟩ := proportion_toNumber? hvalid.nonneg hvalid.le_one
  refine ⟨e, _, hrow, decode_encode_of_row hrow (by decide) hnumber hlow hhigh, ?_⟩
  have hdrift := toNumber?_drifting
  rw [← hprobability, hnumber] at hdrift
  rw [Bool.eq_false_iff, ne_eq, sameContent_iff hvalid]
  simpa [Number.toFloat] using hdrift

end Entry

end Roster
