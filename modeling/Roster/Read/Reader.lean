import Roster.Metrics
import Roster.Storage.Error
import Roster.Table.Entry
import Roster.Table.Manifest

/-!
# Reading the table

Readers see the snapshot that the manifest lists. Every key is looked up in the cache first, and in
the store if the cache has no value for it, errs, or takes too long; so the cache is never needed.
Readers never write.

A reader runs beside the synchronizer, so between two of its lookups the table may change. What a
lookup does is therefore left to an `Access`, in whatever monad that works.
-/

namespace Roster

/-- Why something could not be read. -/
inductive ReadError where
  | store (error : StoreError)
  /-- what is kept under the manifest's name is no manifest -/
  | corruptManifest
  | corruptEntry (key : String) (error : Entry.DecodeError)

/-- How the cache answers somebody who looks up a key. -/
inductive CacheAnswer where
  | hit (value : ByteArray)
  | miss
  /-- an error, or no answer in time -/
  | failure

/-- The way of a reader to the two backends and to the ledger. -/
structure Access (m : Type → Type) where
  cache : String → m CacheAnswer
  store : String → m (Except StoreError (Option ByteArray))
  record : (Ledger → Ledger) → m Unit

namespace Access

variable {m : Type → Type} [Monad m] (a : Access m)

/-- The value of a key. It is counted how the cache has answered, and then the store is asked if
    need be. -/
def lookup (key : String) : m (Except StoreError (Option ByteArray)) := do
  match ← a.cache key with
  | .hit value =>
    a.record fun l => l.count .cacheHit
    pure (.ok (some value))
  | .miss =>
    a.record fun l => l.count .cacheMiss
    a.store key
  | .failure =>
    a.record fun l => l.count .cacheFallback
    a.store key

/-- The manifest, if one has been published. -/
def manifest : m (Except ReadError (Option Manifest)) := do
  match ← a.lookup Manifest.name with
  | .error e => pure (.error (.store e))
  | .ok none => pure (.ok none)
  | .ok (some octets) =>
    match Manifest.decode? octets with
    | none => pure (.error .corruptManifest)
    | some manifest => pure (.ok (some manifest))

/-- The entry of a key, if it has one. -/
def entry (key : Key) : m (Except ReadError (Option Entry)) := do
  match ← a.lookup key.render with
  | .error e => pure (.error (.store e))
  | .ok none => pure (.ok none)
  | .ok (some octets) =>
    match Entry.decode octets with
    | .error e => pure (.error (.corruptEntry key.render e))
    | .ok e => pure (.ok (some e))

/-- The entries with the given keys. An entry that is missing or corrupt is left out; if the store
    cannot be read there is no list. -/
def entries : List Key → m (Except ReadError (List Entry))
  | [] => pure (.ok [])
  | key :: rest => do
    match ← a.entry key with
    | .error (.store e) => pure (.error (.store e))
    | .ok (some e) => return (← entries rest).map (e :: ·)
    | _ => entries rest

/-- The keys of a path and a policy among written keys. What is no key is left out. -/
def keysOf (path policy : String) (names : List String) : List Key :=
  (names.filterMap Key.parse?).filter fun key => key.path = path && key.policy = policy

/-- The published entries of a path under a policy, in the order of the manifest. -/
def candidates (path policy : String) : m (Except ReadError (List Entry)) := do
  match ← a.manifest with
  | .error e => pure (.error e)
  | .ok none => pure (.ok [])
  | .ok (some manifest) => a.entries (keysOf path policy manifest.keys)

end Access

end Roster
