import Roster.Proofs.Storage.FileStore
import Roster.Storage.Backends

/-!
# What a change does to the two backends

Everything that is proved about the table reads its backends through `Backends.get`, the answers for
single keys, and `Backends.Has`, which keys there is something under. This file says once what a
change does to the two, whatever the store is kept in and whatever becomes of the change: at most
its own key in its own backend is touched (`Tried.other`), and that key shows what it showed before
or what the change was to bring about (`Tried.own`). A change that is reported as done has brought
it about (`shows_of_ok`).

`Has` stands beside `get` because a store in files may list a key whose record cannot be read. A
removal that succeeds is one after which the key is not listed either.
-/

namespace Roster

/-- What is under the key once the change is made. -/
def Write.content : Write → Option ByteArray
  | .put _ _ value => some value
  | .delete _ _ => none

/-- Whether there is something under a key, whether or not it can be read. -/
def Store.Has : Store → String → Prop
  | .memory r, key => (r.get? key).isSome
  | .files f d, key => f.Has d key

/-- Whether the store lists a key if it has something under it. A store in files has no name for the
    empty key that it could list. -/
def Store.Tells : Store → String → Prop
  | .memory _, _ => True
  | .files .., key => key ≠ ""

/-- Whether the store can have something under a key. A file system has no room for a
    name that is too long. -/
def Store.Admits : Store → String → Prop
  | .memory _, _ => True
  | .files .., key => (FileStore.fileName key).utf8ByteSize ≤ Disk.longestName

instance (s : Store) (key : String) : Decidable (s.Admits key) :=
  match s with
  | .memory _ => isTrue trivial
  | .files .. => Nat.decLe _ _

namespace Backends

/-- Whether a backend has something under a key, whether or not it can be read. -/
def Has (b : Backends) : Backend → String → Prop
  | .store, key => b.store.Has key
  | .cache, key => (b.cache.get? key).isSome

/-- A backend shows a value under a key, or that there is nothing at all. -/
structure Shows (b : Backends) (backend : Backend) (key : String) (content : Option ByteArray) :
    Prop where
  get : b.get backend key = .ok content
  not_has : content = none → ¬ b.Has backend key

/-- A backend shows the same under a key as before. -/
structure Same (b b' : Backends) (backend : Backend) (key : String) : Prop where
  get : b'.get backend key = b.get backend key
  has : b'.Has backend key ↔ b.Has backend key

/-- What is left of a change that has been tried, with success or without. -/
structure Tried (b : Backends) (w : Write) (b' : Backends) : Prop where
  other : ∀ backend key, ¬ (backend = w.backend ∧ key = w.key) → Same b b' backend key
  own : Same b b' w.backend w.key ∨ b'.Shows w.backend w.key w.content
  keys : b'.store.keys.isOk = b.store.keys.isOk
  tells : b'.store.Tells = b.store.Tells

variable {b b' : Backends} {backend : Backend} {key : String}

theorem Same.refl : Same b b backend key :=
  ⟨rfl, Iff.rfl⟩

/-- What a backend shows for a key it shows as long as that key is the same. -/
theorem Same.shows {content : Option ByteArray} (h : Same b b' backend key)
    (hs : b.Shows backend key content) : b'.Shows backend key content :=
  ⟨h.get.trans hs.get, fun hc hhas => hs.not_has hc (h.has.mp hhas)⟩

theorem Tried.refl (w : Write) : Tried b w b :=
  ⟨fun _ _ _ => Same.refl, .inl Same.refl, rfl, rfl⟩

/-! ## Reading -/

theorem has_of_get {value : ByteArray} (h : b.get backend key = .ok (some value)) :
    b.Has backend key := by
  cases backend with
  | cache =>
    simp only [get, Except.ok.injEq] at h
    simp [Has, h]
  | store =>
    rw [get] at h
    change b.store.Has key
    cases hs : b.store with
    | memory r =>
      rw [hs] at h
      simp only [Store.get, Except.ok.injEq] at h
      simp [Store.Has, h]
    | files f d =>
      rw [hs] at h
      exact FileStore.has_of_get h

/-- Of a store that can be read at all it is known what it says about a key with nothing under
    it. -/
theorem get_of_not_has {other : String} {value : ByteArray}
    (readable : b.get .store other = .ok (some value)) (h : ¬ b.Has .store key) :
    (b.store.Admits key → b.get .store key = .ok none) ∧
      (¬ b.store.Admits key → b.get .store key = .error (.system .nameTooLong)) := by
  rw [get] at readable ⊢
  change ¬ b.store.Has key at h
  cases hs : b.store with
  | memory r =>
    rw [hs] at h
    exact ⟨fun _ => congrArg Except.ok (Option.not_isSome_iff_eq_none.mp h),
      fun hnot => absurd trivial hnot⟩
  | files f d =>
    rw [hs] at h readable
    have hget := FileStore.get_of_not_has (FileStore.has_of_get readable).1 h
    refine ⟨fun admits => ?_, fun hnot => ?_⟩
    · exact hget.trans (if_neg (Nat.not_lt.mpr admits))
    · exact hget.trans (if_pos (Nat.lt_of_not_le hnot))

/-- A store tells what it has under any key but the empty one. -/
theorem tells_of_ne (s : Store) {key : String} (h : key ≠ "") : s.Tells key := by
  cases s with
  | memory r => exact trivial
  | files f d => exact h

/-- **The store lists the keys under which it has something**, as far as it tells of them at all. -/
theorem mem_keys_iff {listed : List String} (h : b.store.keys = .ok listed) :
    key ∈ listed ↔ b.Has .store key ∧ b.store.Tells key := by
  change _ ↔ b.store.Has key ∧ _
  cases hs : b.store with
  | memory r =>
    rw [hs] at h
    simp only [Store.keys, Except.ok.injEq] at h
    rw [← h, Records.mem_keys_iff]
    exact (and_iff_left trivial).symm
  | files f d =>
    rw [hs] at h
    rw [FileStore.mem_keys_iff h]
    exact and_comm

/-! ## Changing -/

/-- What a change of the store leaves in the store is all that there is to check about it. -/
theorem tried_of_store {w : Write} {s : Store} (hw : w.backend = .store)
    (other : ∀ k, k ≠ w.key → s.get k = b.store.get k ∧ (s.Has k ↔ b.store.Has k))
    (own : (s.get w.key = b.store.get w.key ∧ (s.Has w.key ↔ b.store.Has w.key)) ∨
      (s.get w.key = .ok w.content ∧ (w.content = none → ¬ s.Has w.key)))
    (keys : s.keys.isOk = b.store.keys.isOk) (tells : s.Tells = b.store.Tells) :
    Tried b w { b with store := s } where
  other := by
    intro backend key hne
    cases backend with
    | cache => exact ⟨rfl, Iff.rfl⟩
    | store =>
      have hk : key ≠ w.key := fun h => hne ⟨hw.symm, h⟩
      exact ⟨(other key hk).1, (other key hk).2⟩
  own := by
    rw [hw]
    rcases own with ⟨hget, hhas⟩ | ⟨hget, hhas⟩
    · exact .inl ⟨hget, hhas⟩
    · exact .inr ⟨hget, hhas⟩
  keys := keys
  tells := tells

/-- The same for the cache, where nothing fails. -/
theorem tried_of_cache {w : Write} {r : Records} (hw : w.backend = .cache)
    (hr : ∀ k, r.get? k = if k = w.key then w.content else b.cache.get? k) :
    Tried b w { b with cache := r } ∧
      Shows { b with cache := r } w.backend w.key w.content := by
  have shows : Shows { b with cache := r } w.backend w.key w.content := by
    rw [hw]
    constructor
    · rw [get, hr, if_pos rfl]
    · intro hc
      simp [Has, hr, hc]
  refine ⟨⟨?_, .inr shows, rfl, rfl⟩, shows⟩
  intro backend key hne
  cases backend with
  | store => exact ⟨rfl, Iff.rfl⟩
  | cache =>
    have hk : key ≠ w.key := fun h => hne ⟨hw.symm, h⟩
    constructor
    · rw [get, get, hr, if_neg hk]
    · rw [Has, Has, hr, if_neg hk]

/-- Putting something into the store tries just that, and shows it if it works. -/
theorem apply_put_store (b : Backends) (key : String) (value : ByteArray) :
    Tried b (.put .store key value) (b.apply (.put .store key value)).2 ∧
      ((b.apply (.put .store key value)).1 = .ok () →
        (b.apply (.put .store key value)).2.Shows .store key (some value)) := by
  -- a value is not nothing, so there is nothing to say of a key that has none
  have not_has {P : Prop} (hnone : some value = none) : P :=
    absurd hnone (Option.some_ne_none value)
  simp only [apply]
  cases hs : b.store with
  | memory r =>
    have hget (k : String) : (r.put key value).get? k = if k = key then some value else r.get? k :=
      Records.get?_put r key k value
    refine ⟨tried_of_store rfl (fun k hk => ?_) (.inr ⟨?_, not_has⟩) (by rw [hs]; rfl)
      (by rw [hs]; rfl), fun _ => ⟨?_, not_has⟩⟩
    · rw [hs]
      simp [Store.get, Store.Has, Store.put, hget, show k ≠ key from hk]
    · simp [Store.get, Store.put, hget, Write.key, Write.content]
    · simp [get, Store.get, Store.put, hget]
  | files f d =>
    rcases f.put_cases d key value with ⟨fault, d', hput, aside, hnode⟩ | ⟨d', hput, aside, hopen⟩
    · simp only [Store.put, hput]
      refine ⟨tried_of_store rfl (fun k hk => ?_) (.inl ⟨?_, ?_⟩) ?_ (by rw [hs]; rfl),
        fun hok => ?_⟩
      · rw [hs]
        exact ⟨FileStore.get_congr aside.reach (aside.node? hk),
          FileStore.has_congr aside.reach (aside.node? hk)⟩
      · rw [hs]
        exact FileStore.get_congr aside.reach hnode
      · rw [hs]
        exact FileStore.has_congr aside.reach hnode
      · rw [hs]
        exact FileStore.isOk_keys_congr aside.reach
      · cases hok
    · simp only [Store.put, hput]
      refine ⟨tried_of_store rfl (fun k hk => ?_) (.inr ⟨?_, not_has⟩) ?_ (by rw [hs]; rfl),
        fun _ => ⟨?_, not_has⟩⟩
      · rw [hs]
        exact ⟨FileStore.get_congr aside.reach (aside.node? hk),
          FileStore.has_congr aside.reach (aside.node? hk)⟩
      · exact FileStore.get_of_openNode hopen
      · rw [hs]
        exact FileStore.isOk_keys_congr aside.reach
      · exact FileStore.get_of_openNode hopen

/-- Deleting something from the store tries just that, and shows nothing there if it works. -/
theorem apply_delete_store (b : Backends) (key : String) :
    Tried b (.delete .store key) (b.apply (.delete .store key)).2 ∧
      ((b.apply (.delete .store key)).1 = .ok () →
        (b.apply (.delete .store key)).2.Shows .store key none) := by
  simp only [apply]
  cases hs : b.store with
  | memory r =>
    have hget (k : String) : (r.erase key).get? k = if k = key then none else r.get? k :=
      Records.get?_erase r key k
    refine ⟨tried_of_store rfl (fun k hk => ?_) (.inr ⟨?_, fun _ => ?_⟩) (by rw [hs]; rfl)
      (by rw [hs]; rfl), fun _ => ⟨?_, fun _ => ?_⟩⟩
    · rw [hs]
      simp [Store.get, Store.Has, Store.delete, hget, show k ≠ key from hk]
    · simp [Store.get, Store.delete, hget, Write.key, Write.content]
    · simp [Store.Has, Store.delete, hget, Write.key]
    · simp [get, Store.get, Store.delete, hget]
    · simp [Has, Store.Has, Store.delete, hget]
  | files f d =>
    rcases f.delete_cases d key with ⟨fault, hdel⟩ | ⟨d', hdel, aside, hnone, hnot⟩
    · simp only [Store.delete, hdel]
      -- A removal that fails leaves the disk alone, so there is nothing to tell apart.
      rw [← hs]
      exact ⟨Tried.refl _, fun hok => by cases hok⟩
    · simp only [Store.delete, hdel]
      refine ⟨tried_of_store rfl (fun k hk => ?_) (.inr ⟨hnone, fun _ => hnot⟩) ?_
        (by rw [hs]; rfl), fun _ => ⟨hnone, fun _ => hnot⟩⟩
      · rw [hs]
        exact ⟨FileStore.get_congr aside.reach (aside.node? hk),
          FileStore.has_congr aside.reach (aside.node? hk)⟩
      · rw [hs]
        exact FileStore.isOk_keys_congr aside.reach

/-- Every change, however it ends, leaves the backends as a tried one does, and one that is reported
    as done has its effect. -/
theorem apply_cases (b : Backends) (w : Write) :
    Tried b w (b.apply w).2 ∧
      ((b.apply w).1 = .ok () → (b.apply w).2.Shows w.backend w.key w.content) := by
  cases w with
  | put backend key value =>
    cases backend with
    | store => exact apply_put_store b key value
    | cache =>
      obtain ⟨tried, shows⟩ :=
        tried_of_cache (b := b) (w := .put .cache key value) rfl (b.cache.get?_put key · value)
      exact ⟨tried, fun _ => shows⟩
  | delete backend key =>
    cases backend with
    | store => exact apply_delete_store b key
    | cache =>
      obtain ⟨tried, shows⟩ :=
        tried_of_cache (b := b) (w := .delete .cache key) rfl (b.cache.get?_erase key ·)
      exact ⟨tried, fun _ => shows⟩

/-- A write tries what it says and nothing else. -/
theorem tried_apply (b : Backends) (w : Write) : Tried b w (b.apply w).2 :=
  (apply_cases b w).1

/-- A write tries what it says and nothing else, whatever the verdict on it. -/
theorem tried_write (b : Backends) (w : Write) (verdict : Verdict) :
    Tried b w (b.write w verdict).2 := by
  cases verdict with
  | passed => exact tried_apply b w
  | refused error => exact Tried.refl w
  -- The change was made, and only the answer to it is an error.
  | lost error => exact tried_apply b w

/-- A write that works shows. -/
theorem shows_of_ok {w : Write} {verdict : Verdict} (h : (b.write w verdict).1.isOk) :
    (b.write w verdict).2.Shows w.backend w.key w.content := by
  cases verdict with
  | passed =>
    refine (apply_cases b w).2 ?_
    change (b.apply w).1.isOk at h
    cases hr : (b.apply w).1 with
    | ok u => rfl
    | error e => rw [hr] at h; cases h
  -- In the other two cases an error is what is reported.
  | refused error => cases h
  | lost error => cases h

end Backends

end Roster
