import Roster.Storage.Backends
import Roster.Sync.Diff
import Roster.Sync.Report

/-!
# Publishing a snapshot

A publication is a list of tasks that are done one after the other: every entry is written, then the
manifest, and only then are the keys removed that the snapshot does not have. So a manifest never
names an entry that was not written before, and whoever has read a manifest still finds its entries
until the next one is out.

A task is done in two halves, first in the store and then in the cache. An entry or a manifest that
the store did not take does not go to the cache, which then holds what it held before. A removal is
tried in both, whatever comes of the first.

What fails is noted and does not stop the rest.
-/

namespace Roster

/-- One thing that a publication has to do, in both backends. -/
inductive Task where
  | entry (e : Entry)
  | manifest
  | evict (key : String)

namespace Task

/-- The key that a task is about. -/
def key : Task → String
  | .entry e => e.key.render
  | .manifest => Manifest.name
  | .evict key => key

/-- The first half of the task, where `m` is the manifest of the publication. -/
def storeWrite (m : Manifest) : Task → Write
  | .entry e => .put .store e.key.render e.encode
  | .manifest => .put .store Manifest.name m.encode
  | .evict key => .delete .store key

/-- Whether the second half is done even if the first one failed. -/
def isEviction : Task → Bool
  | .evict _ => true
  | _ => false

end Task

/-- The same change in the cache. -/
def Write.inCache : Write → Write
  | .put _ key value => .put .cache key value
  | .delete _ key => .delete .cache key

/-- The second half of a task: what is to be done in the cache, and whether the store has done its
    half. -/
structure Half where
  write : Write
  stored : Bool

/-- A publication that is under way. -/
structure Publication where
  snapshot : Snapshot
  /-- the number of rows that were fetched -/
  rowsFetched : Nat
  /-- the number of malformed rows among them -/
  rejected : Nat
  diff : Diff
  /-- the tasks that are left; the first one may be half done -/
  tasks : List Task
  /-- the second half of the first task, if its first half is done -/
  half : Option Half := none
  /-- the keys of the tasks that failed -/
  failed : List String := []
  /-- the keys that may still be in a backend although they were to be removed -/
  notEvicted : List String := []

namespace Publication

/-- All tasks: the entries first, then the manifest, and the evictions at last, so that the manifest
    never lists what is gone. -/
def plan (snapshot : Snapshot) (diff : Diff) : List Task :=
  snapshot.entries.map .entry ++ .manifest :: diff.evict.map .evict

/-- Nothing has been done yet. -/
def start (snapshot : Snapshot) (rowsFetched rejected : Nat) (diff : Diff) : Publication :=
  { snapshot, rowsFetched, rejected, diff, tasks := plan snapshot diff }

/-- The number of all tasks. -/
def attempted (p : Publication) : Nat :=
  (plan p.snapshot p.diff).length

/-- The manifest of a publication that is published by a cycle at a time. -/
def manifest (p : Publication) (cycle time : UInt64) : Manifest where
  cycle := cycle.toNat
  publishedAt := time.toNat
  keys := p.snapshot.names.mergeSort fun a b => decide (a ≤ b)

/-- The next change, where the manifest is written by a cycle at a time; none if
    all tasks are done. -/
def next? (p : Publication) (cycle time : UInt64) : Option Write :=
  match p.tasks, p.half with
  | [], _ => none
  | _ :: _, some h => some h.write
  | task :: _, none => some (task.storeWrite (p.manifest cycle time))

/-- The first task is over, well or not. -/
def settle (p : Publication) (ok : Bool) : Publication :=
  match p.tasks with
  | [] => p
  | task :: rest =>
    { p with
      tasks := rest
      half := none
      failed := if ok then p.failed else p.failed ++ [task.key]
      notEvicted :=
        if task.isEviction && !ok then p.notEvicted ++ [task.key] else p.notEvicted }

/-- A change has been tried, with success or without: its task is done or half done. -/
def advance (p : Publication) (w : Write) (ok : Bool) : Publication :=
  match p.tasks, p.half with
  | [], _ => p
  | _ :: _, some h => p.settle (h.stored && ok)
  | task :: _, none =>
    if ok || task.isEviction then { p with half := some ⟨w.inCache, ok⟩ } else p.settle false

/-- The number of keys that were removed. -/
def evicted (p : Publication) : Nat :=
  p.diff.evict.length - p.notEvicted.length

/-- What the cycle comes to when nothing is left to do. -/
def result (p : Publication) (cycle : UInt64) : CycleResult :=
  if p.failed.isEmpty then
    .ok {
      cycle := cycle.toNat, rowsFetched := p.rowsFetched, rejected := p.rejected, new := p.diff.new
      changed := p.diff.changed, unchanged := p.diff.unchanged, evicted := p.evicted }
  else .error (.partialPublish p.failed p.attempted)

end Publication

end Roster
