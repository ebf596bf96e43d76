import Roster.Proofs.Read.Lookup

/-!
# Readers side by side

What a reader finds depends on a table only through its lookups: two readers whose lookups go alike
find the same (`Alongside.candidates`). That is proved along the reader's program, for any two ways
to any two tables.

The first pair of tables for which lookups go alike are `Twins`. They have the same backends, and
nothing happens to either; the cache and the store may err as they like, as long as they do so in
both at the same moments.
-/

namespace Roster

/-- Two programs give the same result where they start alike, and leave off alike. -/
def Alongside {S T α : Type} (alike : S → T → Prop) (x : StateM S α) (y : StateM T α) : Prop :=
  ∀ σ τ, alike σ τ → (x.run σ).run.1 = (y.run τ).run.1 ∧ alike (x.run σ).run.2 (y.run τ).run.2

namespace Alongside

variable {S T α β : Type} {alike : S → T → Prop}

theorem pure (v : α) : Alongside alike (Pure.pure v) (Pure.pure v) :=
  fun _ _ h => ⟨rfl, h⟩

theorem bind {x : StateM S α} {y : StateM T α} {f : α → StateM S β} {g : α → StateM T β}
    (hx : Alongside alike x y) (hf : ∀ v, Alongside alike (f v) (g v)) :
    Alongside alike (x >>= f) (y >>= g) := by
  intro σ τ h
  obtain ⟨hresult, hnext⟩ := hx σ τ h
  have hrest := hf (x.run σ).run.1 _ _ hnext
  rw [hresult] at hrest
  change ((f (x.run σ).run.1).run (x.run σ).run.2).run.1 = _ ∧
    alike ((f (x.run σ).run.1).run _).run.2 _
  rw [hresult]
  exact hrest

/-! ## The reader's program -/

variable {a : Access (StateM S)} {b : Access (StateM T)}
  (lookup : ∀ name, Alongside alike (a.lookup name) (b.lookup name))
include lookup

/-- The manifest is read alike. -/
theorem manifest : Alongside alike a.manifest b.manifest := by
  refine (lookup Manifest.name).bind fun answer => ?_
  cases answer with
  | error fault => exact .pure _
  | ok found =>
    cases found with
    | none => exact .pure _
    | some value =>
      cases hm : Manifest.decode? value with
      | none =>
        simp only [hm]
        exact .pure _
      | some m =>
        simp only [hm]
        exact .pure _

/-- An entry is read alike. -/
theorem entry (key : Key) : Alongside alike (a.entry key) (b.entry key) := by
  refine (lookup key.render).bind fun answer => ?_
  cases answer with
  | error fault => exact .pure _
  | ok found =>
    cases found with
    | none => exact .pure _
    | some value =>
      cases he : Entry.decode value with
      | error fault =>
        simp only [he]
        exact .pure _
      | ok e =>
        simp only [he]
        exact .pure _

/-- A list of entries is read alike. -/
theorem entries (keys : List Key) : Alongside alike (a.entries keys) (b.entries keys) := by
  induction keys with
  | nil => exact .pure _
  | cons key rest ih =>
    refine (entry lookup key).bind fun answer => ?_
    match answer with
    | .error (.store fault) => exact .pure _
    | .error .corruptManifest => exact ih
    | .error (.corruptEntry name fault) => exact ih
    | .ok none => exact ih
    | .ok (some e) => exact ih.bind fun more => .pure _

/-- **Readers whose lookups go alike find the same.** -/
theorem candidates (path policy : String) :
    Alongside alike (a.candidates path policy) (b.candidates path policy) := by
  refine (manifest lookup).bind fun answer => ?_
  match answer with
  | .error fault => exact .pure _
  | .ok none => exact .pure _
  | .ok (some m) => exact entries lookup _

end Alongside

/-! ## Twins -/

namespace RateTable

variable {t u : RateTable} {moments : List Moment}

/-- Two readers of the same backends, to whom the same is going to happen, and
    nothing to the tables. -/
structure Twins (σ τ : RateTable × List Moment) : Prop where
  backends : σ.1.backends = τ.1.backends
  moments : σ.2 = τ.2
  quiet : ∀ moment ∈ σ.2, moment.events = []

theorem twins_lookup (name : String) : Alongside Twins (amid.lookup name) (amid.lookup name) := by
  rintro ⟨t, moments⟩ ⟨u, moments'⟩ ⟨hbackends, rfl : moments = moments', quiet⟩
  obtain ⟨_, ht⟩ := run_lookup (t := t) quiet name
  obtain ⟨_, hu⟩ := run_lookup (t := u) quiet name
  rw [ht, hu]
  dsimp only at hbackends
  rw [hbackends]
  exact ⟨rfl, rfl, rfl, fun moment hm => quiet moment (Backends.mem_of_mem_reading hm)⟩

/-- **What readers find in a table at rest is a matter of its backends alone.** -/
theorem candidatesAmid_congr (hbackends : t.backends = u.backends)
    (quiet : ∀ moment ∈ moments, moment.events = []) (path policy : String) :
    t.candidatesAmid moments path policy = u.candidatesAmid moments path policy :=
  (Alongside.candidates twins_lookup path policy (t, moments) (u, moments)
    ⟨hbackends, rfl, quiet⟩).1

end RateTable

end Roster
