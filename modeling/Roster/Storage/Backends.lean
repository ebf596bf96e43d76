import Roster.Storage.FileStore
import Roster.Storage.Records

/-!
# The two backends

The persistent store says which keys exist; the fast cache beside it only answers for single keys.
The store is kept in memory or in files. What is asked of them is an `Operation`; whoever stands
between may let it through, refuse it, or carry it out and report an error all the same (`Verdict`).
-/

namespace Roster

/-- Where records are kept for good. -/
inductive Store where
  | memory (records : Records)
  | files (store : FileStore) (disk : Disk)

namespace Store

/-- The value of a key, if there is one. -/
def get (s : Store) (key : String) : Except StoreError (Option ByteArray) :=
  match s with
  | .memory r => .ok (r.get? key)
  | .files f d => f.get d key

/-- Gives a key a value. -/
def put (s : Store) (key : String) (value : ByteArray) : Except StoreError Unit × Store :=
  match s with
  | .memory r => (.ok (), .memory (r.put key value))
  | .files f d =>
    let (result, d) := f.put d key value
    (result, .files f d)

/-- Takes a key away, if it is there. -/
def delete (s : Store) (key : String) : Except StoreError Unit × Store :=
  match s with
  | .memory r => (.ok (), .memory (r.erase key))
  | .files f d =>
    let (result, d) := f.delete d key
    (result, .files f d)

/-- All keys of the store. -/
def keys (s : Store) : Except StoreError (List String) :=
  match s with
  | .memory r => .ok r.keys
  | .files f d => f.keys d

/-- The keys that can be read, with their values. -/
def contents (s : Store) : List (String × ByteArray) :=
  (s.keys.toOption.getD []).filterMap fun key =>
    ((s.get key).toOption.join).map fun value => (key, value)

end Store

/-- The store, and the cache beside it. -/
structure Backends where
  store : Store := .memory .empty
  cache : Records := .empty

/-- One of the two. -/
inductive Backend where
  | store
  | cache
  deriving DecidableEq, Repr

/-- What a backend is asked for. -/
inductive Operation where
  | get
  | put
  | delete
  /-- asks the store for all its keys -/
  | keys
  deriving DecidableEq, Repr

/-- A change of one key in one backend. -/
inductive Write where
  | put (backend : Backend) (key : String) (value : ByteArray)
  | delete (backend : Backend) (key : String)

namespace Write

/-- The key that is changed. -/
def key : Write → String
  | .put _ key _ => key
  | .delete _ key => key

/-- The backend that is changed. -/
def backend : Write → Backend
  | .put backend _ _ => backend
  | .delete backend _ => backend

/-- What the backend is asked for. -/
def operation : Write → Operation
  | .put .. => .put
  | .delete .. => .delete

end Write

/-- How it goes when a backend is asked. -/
inductive Verdict where
  /-- the backend is asked, and its answer counts -/
  | passed
  /-- the backend is not asked -/
  | refused (error : StoreError)
  /-- the backend is asked, but its answer is lost -/
  | lost (error : StoreError)

namespace Backends

/-- A change when the backend is asked. The cache never fails. -/
def apply (b : Backends) : Write → Except StoreError Unit × Backends
  | .put .store key value =>
    let (result, store) := b.store.put key value
    (result, { b with store })
  | .put .cache key value => (.ok (), { b with cache := b.cache.put key value })
  | .delete .store key =>
    let (result, store) := b.store.delete key
    (result, { b with store })
  | .delete .cache key => (.ok (), { b with cache := b.cache.erase key })

/-- A change as far as the verdict lets it come. -/
def write (b : Backends) (w : Write) : Verdict → Except StoreError Unit × Backends
  | .passed => b.apply w
  | .refused error => (.error error, b)
  | .lost error => (.error error, (b.apply w).2)

/-- What a backend says of a key. -/
def get (b : Backends) (backend : Backend) (key : String) :
    Except StoreError (Option ByteArray) :=
  match backend with
  | .store => b.store.get key
  | .cache => .ok (b.cache.get? key)

/-- What is learned of a key, which may be an error although the backend has answered. -/
def read (b : Backends) (backend : Backend) (key : String) :
    Verdict → Except StoreError (Option ByteArray)
  | .passed => b.get backend key
  | .refused error | .lost error => .error error

/-- The keys of the store, as far as the verdict lets them be listed. -/
def storeKeys (b : Backends) : Verdict → Except StoreError (List String)
  | .passed => b.store.keys
  | .refused error | .lost error => .error error

end Backends

end Roster
