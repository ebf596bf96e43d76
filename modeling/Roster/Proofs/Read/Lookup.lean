import Roster.Proofs.Read.Interleaved

/-!
# Single lookups

While nothing is written, a lookup is a `Reading`: one backend tells of one name, or the
store fails. All that the moments decide is which backend that is, and whether the store can
tell (`Backends.reading`). The cache is asked in one moment and the store, if it comes to
that, in the next.

`run_lookup` goes through the lookup's operations once. What is known elsewhere about readers of a
table at rest comes from the definition of a reading.
-/

namespace Roster

/-- What is told about a name, and by whom. -/
inductive Reading where
  /-- the cache tells what it has, and the store is not asked -/
  | cached (octets : ByteArray)
  | stored (found : Option ByteArray)
  /-- the cache does not tell, and the store cannot be read -/
  | failed (fault : StoreError)

namespace Reading

/-- What a lookup came to that the store answered. -/
def ofStore : Except StoreError (Option ByteArray) → Reading
  | .ok found => stored found
  | .error fault => failed fault

/-- What a lookup hands on, from wherever it came. -/
def answer : Reading → Except StoreError (Option ByteArray)
  | cached octets => .ok (some octets)
  | stored found => .ok found
  | failed fault => .error fault

@[simp] theorem answer_ofStore (a : Except StoreError (Option ByteArray)) :
    (ofStore a).answer = a := by
  cases a <;> rfl

end Reading

namespace Backends

variable {b : Backends} {name : String} {moments : List Moment} {moment : Moment}

/-- A name is looked up: in the cache, in the first of the moments, and in the store, in
    the second, if the cache has no value or does not tell it. The moments that are left
    come with the reading. -/
def reading (b : Backends) (name : String) (moments : List Moment) : Reading × List Moment :=
  match (moments.headD {}).cache, b.cache.get? name with
  | .answers, some octets => (.cached octets, moments.tail)
  | _, _ => (.ofStore (b.read .store name (moments.tail.headD {}).store), moments.tail.tail)

theorem mem_of_mem_reading (h : moment ∈ (b.reading name moments).2) : moment ∈ moments := by
  rw [reading] at h
  split at h
  · exact List.mem_of_mem_tail h
  · exact List.mem_of_mem_tail (List.mem_of_mem_tail h)

/-- A store that answers tells what it has, unless the cache told before what it has. -/
theorem answer_reading (answers : ∀ moment ∈ moments, moment.store = .passed) :
    (b.reading name moments).1.answer = b.get .store name ∨
      ∃ found, b.get .cache name = .ok (some found) ∧
        (b.reading name moments).1.answer = .ok (some found) := by
  rw [reading]
  split
  · next octets _ hget => exact .inr ⟨octets, congrArg Except.ok hget, rfl⟩
  · left
    have hstore : (moments.tail.headD {}).store = .passed := by
      cases htail : moments.tail with
      | nil => rfl
      | cons moment rest => exact answers moment (List.mem_of_mem_tail (htail ▸ List.mem_cons_self))
    rw [hstore, Reading.answer_ofStore]
    rfl

end Backends

namespace RateTable

variable {t : RateTable} {moments : List Moment}

theorem run_nextMoment (quiet : ∀ moment ∈ moments, moment.events = []) :
    nextMoment (t, moments) = ((moments.headD {}, t), (t, moments.tail)) := by
  cases moments with
  | nil => rfl
  | cons moment rest =>
    have hevents : moment.events = [] := quiet moment List.mem_cons_self
    rw [nextMoment, hevents]
    rfl

theorem run_bind {α β : Type} (x : Amid α) (f : α → Amid β) (σ : RateTable × List Moment) :
    (x >>= f).run σ = (f (x.run σ).1).run (x.run σ).2 := rfl

theorem run_cache (quiet : ∀ moment ∈ moments, moment.events = []) (name : String) :
    (amid.cache name).run (t, moments) =
      ((match (moments.headD {}).cache with
        | .answers => t.askCache name
        | .misses => .miss
        | .fails => .failure), (t, moments.tail)) := by
  have hrun : (amid.cache name).run (t, moments) = _ := run_bind nextMoment _ _
  have hnext : nextMoment.run (t, moments) = _ := run_nextMoment quiet
  rw [hrun, hnext]
  cases hm : (moments.headD {}).cache <;> simp only [hm] <;> rfl

theorem run_store (quiet : ∀ moment ∈ moments, moment.events = []) (name : String) :
    (amid.store name).run (t, moments) =
      (t.backends.read .store name (moments.headD {}).store, (t, moments.tail)) := by
  have hrun : (amid.store name).run (t, moments) = _ := run_bind nextMoment _ _
  have hnext : nextMoment.run (t, moments) = _ := run_nextMoment quiet
  rw [hrun, hnext]
  rfl

/-- **A lookup is a reading**, and changes nothing but the ledger. -/
theorem run_lookup (quiet : ∀ moment ∈ moments, moment.events = []) (name : String) :
    ∃ ledger, (amid.lookup name).run (t, moments) =
      ((t.backends.reading name moments).1.answer,
        ({ t with ledger }, (t.backends.reading name moments).2)) := by
  have quiet' : ∀ moment ∈ moments.tail, moment.events = [] :=
    fun m hm => quiet m (List.mem_of_mem_tail hm)
  -- what is left of the lookup where the cache has not told
  have fallback (f : Ledger → Ledger) :
      ∃ ledger, (amid.record f >>= fun _ => amid.store name).run (t, moments.tail) =
      ((Reading.ofStore (t.backends.read .store name (moments.tail.headD {}).store)).answer,
        ({ t with ledger }, moments.tail.tail)) := by
    rw [Reading.answer_ofStore]
    exact ⟨f t.ledger, run_store quiet' name⟩
  have hrun : (amid.lookup name).run (t, moments) = _ := run_bind (amid.cache name) _ _
  rw [hrun, run_cache quiet, Backends.reading]
  cases hm : (moments.headD {}).cache with
  | answers =>
    cases hget : t.backends.cache.get? name with
    | some octets =>
      simp only [askCache, hget]
      exact ⟨_, rfl⟩
    | none =>
      simp only [askCache, hget]
      exact fallback _
  | misses => exact fallback _
  | fails => exact fallback _

end RateTable

end Roster
