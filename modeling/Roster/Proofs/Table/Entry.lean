import Roster.Table.Entry

/-!
# What a row has to be like

A row is judged by a chain of checks of which the first that fails is told.
`check_eq_ok_iff` turns the chain into a conjunction once, and `Entry.Valid` is what is left
of it when the row is forgotten: what holds of every entry that a row can give, and so of
every entry that is ever published.
-/

namespace Roster.Entry

variable {r : Row} {e : Entry}

/-- What holds of every entry that comes from a row. -/
structure Valid (e : Entry) : Prop where
  key : e.key.fault? = none
  nonneg : 0.0 ≤ e.probability
  le_one : e.probability ≤ 1.0
  latitude : ∀ x, e.latitude = some x → x.isFinite
  longitude : ∀ x, e.longitude = some x → x.isFinite

/-- **A row is an entry exactly if it passes every check**, whatever order they are made in. -/
theorem check_eq_ok_iff :
    check r = .ok e ↔
      r.key.fault? = none ∧ (0.0 ≤ r.probability ∧ r.probability ≤ 1.0) ∧ 0 ≤ r.requestsPerDay ∧
        ∃ family latitude longitude,
          readFamily r.family = .ok family ∧ readCoordinate .latitude r.latitude = .ok latitude ∧
          readCoordinate .longitude r.longitude = .ok longitude ∧
          e = { key := r.key, family, format := r.format, latitude, longitude, metro := r.metro,
                probability := r.probability, requestsPerDay := r.requestsPerDay.toNat } := by
  simp only [check, bind, Except.bind, pure, Except.pure, throw, throwThe, MonadExceptOf.throw]
  constructor
  · intro h
    split at h
    · cases h
    · next hfault =>
      split at h
      · cases h
      · next hp =>
        split at h
        · cases h
        · next hn =>
          split at h
          · cases h
          · next family hfamily =>
            split at h
            · cases h
            · next latitude hlatitude =>
              split at h
              · cases h
              · next longitude hlongitude =>
                cases h
                refine ⟨?_, by simpa using hp, by omega, family, latitude, longitude, hfamily,
                  hlatitude, hlongitude, rfl⟩
                cases hf : r.key.fault? with
                | none => rfl
                | some fault => exact absurd hf (hfault fault)
  · rintro ⟨hfault, ⟨h0, h1⟩, hn, family, latitude, longitude, hfamily, hlatitude, hlongitude, rfl⟩
    simp [hfault, h0, h1, Int.not_lt.mpr hn, hfamily, hlatitude, hlongitude]

theorem isFinite_of_readCoordinate {axis : Axis} {text : String} {x : Float}
    (h : readCoordinate axis text = .ok (some x)) : x.isFinite := by
  unfold readCoordinate at h
  split at h
  · cases h
  · split at h
    · split at h
      · next hx => cases h; exact hx
      · cases h
    · cases h

/-- What passes the checks is valid. -/
theorem valid_of_check (h : check r = .ok e) : e.Valid := by
  obtain ⟨hkey, ⟨h0, h1⟩, -, family, latitude, longitude, -, hlatitude, hlongitude, rfl⟩ :=
    check_eq_ok_iff.mp h
  refine ⟨hkey, h0, h1, ?_, ?_⟩
  · rintro x rfl
    exact isFinite_of_readCoordinate hlatitude
  · rintro x rfl
    exact isFinite_of_readCoordinate hlongitude

/-- A row becomes an entry if and only if it passes the checks. -/
theorem ofRow_eq_ok_iff : ofRow r = .ok e ↔ check r = .ok e := by
  unfold ofRow Except.mapError
  cases check r <;> simp

theorem valid_of_ofRow (h : ofRow r = .ok e) : e.Valid :=
  valid_of_check (ofRow_eq_ok_iff.mp h)

/-- An entry has the key of its row. -/
theorem key_of_ofRow (h : ofRow r = .ok e) : e.key = r.key := by
  obtain ⟨-, -, -, -, -, -, -, -, -, rfl⟩ := check_eq_ok_iff.mp (ofRow_eq_ok_iff.mp h)
  rfl

end Roster.Entry
