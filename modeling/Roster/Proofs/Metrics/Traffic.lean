import Roster.Proofs.Metrics.Answers
import Roster.Proofs.Metrics.Cycles
import Roster.Proofs.Read.Interleaved

/-!
# Cycles, readers and queries together

One ledger is written by the synchronizer, by every reader and by every query, and these come in any
order. `Traffic` is all of them at one time: the table with its ledger, the queries with their
assembler, and, so that the ledger can be compared with it, what the cycles came to and what was
looked up. A move takes one of them a step further. Between two steps of one there may be any steps
of the others, so that a list of moves is a run in which they overlap as they like.

The moves are made for counting, and what runs are programs. So the second half is about these:
whatever a lookup does to the table, and a query that has the assembler for itself, some moves do
(`exists_run_lookup`, `exists_run_assemble`).
-/

namespace Roster

open Assembler

/-- Where an answer of the cache is counted. -/
def CacheAnswer.counter : CacheAnswer → Counter
  | .hit _ => .cacheHit
  | .miss => .cacheMiss
  | .failure => .cacheFallback

/-- What a lookup has come to when the cache has answered: to nothing yet, unless the cache had a
    value. -/
def CacheAnswer.result? : CacheAnswer → Option (Except StoreError (Option ByteArray))
  | .hit value => some (.ok (some value))
  | _ => none

/-- A key that was looked up. Unless the cache had a value, it comes to a result when the store has
    answered, and to none if whoever looked it up has given up before. -/
structure Lookup where
  answer : CacheAnswer
  result? : Option (Except StoreError (Option ByteArray))

namespace Lookup

/-- The store has answered. A lookup that has its result keeps it. -/
def settle (found : Except StoreError (Option ByteArray)) (lookup : Lookup) : Lookup :=
  { lookup with result? := lookup.result?.or (some found) }

/-- The lookup has brought a value, or that there is none. -/
def completed (lookup : Lookup) : Bool :=
  lookup.result?.any Except.isOk

/-- The lookup has ended with an error of the store. -/
def failed (lookup : Lookup) : Bool :=
  lookup.result?.any fun result => !result.isOk

/-- The store has not answered, or not before whoever waited had given up. -/
def waiting (lookup : Lookup) : Bool :=
  lookup.result?.isNone

end Lookup

/-- Changes the ledger of a table. -/
def RateTable.record (t : RateTable) (f : Ledger → Ledger) : RateTable :=
  { t with ledger := f t.ledger }

/-- A table with its cycles, its queries and everybody who looks up a key of it. -/
structure Traffic where
  table : RateTable
  queries : Queries
  /-- what the cycles came to, in this order; calls that were refused are left out -/
  returned : List CycleResult := []
  /-- in the order in which the cache answered -/
  lookups : List Lookup := []

namespace Traffic

/-- What happens next, in any order. -/
inductive Move where
  | sync (e : Event)
  /-- the cache has answered somebody who looks up a key -/
  | cache (answer : CacheAnswer)
  /-- the store has answered the lookup with a number -/
  | store (i : ℕ) (found : Except StoreError (Option ByteArray))
  | query (move : Queries.Move)

/-- What one move does. -/
def step (s : Traffic) : Move → Traffic
  | .sync e => { s with table := (s.table.step e).2, returned := s.returned ++ s.table.returned e }
  | .cache answer =>
    { s with
      table := s.table.record fun l => l.count answer.counter
      lookups := s.lookups ++ [⟨answer, answer.result?⟩] }
  | .store i found => { s with lookups := s.lookups.modify i (Lookup.settle found) }
  | .query move =>
    { s with table := s.table.record (s.queries.noted move), queries := s.queries.step move }

/-- What comes of a list of moves. -/
def run (s : Traffic) (moves : List Move) : Traffic :=
  moves.foldl step s

/-- Nothing has happened yet. -/
def start (backends : Backends) (timeout : Duration) (a : Assembler) (limits : LoadLimits) :
    Traffic where
  table := { backends, synchronizer := { timeout } }
  queries := .ofLimits a limits

/-- The number of lookups that have come to no result. -/
def waiting (s : Traffic) : ℕ :=
  s.lookups.countP Lookup.waiting

variable {s : Traffic}

theorem run_append (s : Traffic) (moves moves' : List Move) :
    s.run (moves ++ moves') = (s.run moves).run moves' :=
  List.foldl_append

theorem run_cons (s : Traffic) (move : Move) (moves : List Move) :
    s.run (move :: moves) = (s.step move).run moves :=
  rfl

/-! ## Readers -/

/-- What a reader does is done by moves. They leave the queries alone, and no lookup is
    left without a result. -/
def Traced {α : Type} (x : RateTable.Amid α) : Prop :=
  ∀ (s : Traffic) (moments : List Moment), ∃ moves,
    (s.run moves).table = (x.run (s.table, moments)).run.2.1 ∧
    (s.run moves).queries = s.queries ∧ (s.run moves).waiting = s.waiting

section Traced

variable {α β : Type} {x : RateTable.Amid α} {f : α → RateTable.Amid β}

theorem Traced.pure (a : α) : Traced (pure a) :=
  fun _ _ => ⟨[], rfl, rfl, rfl⟩

theorem Traced.bind (hx : Traced x) (hf : ∀ a, Traced (f a)) : Traced (x >>= f) := by
  intro s moments
  obtain ⟨first, htable, hqueries, hwaiting⟩ := hx s moments
  obtain ⟨later, htable', hqueries', hwaiting'⟩ :=
    hf (x.run (s.table, moments)).run.1 (s.run first) (x.run (s.table, moments)).run.2.2
  refine ⟨first ++ later, ?_, ?_, ?_⟩
  · rw [run_append, htable', htable]
    rfl
  · rw [run_append, hqueries', hqueries]
  · rw [run_append, hwaiting', hwaiting]

end Traced

theorem run_sync (s : Traffic) (events : List Event) :
    (s.run (events.map .sync)).table = (s.table.run events).2 ∧
      (s.run (events.map .sync)).queries = s.queries ∧
      (s.run (events.map .sync)).lookups = s.lookups := by
  induction events generalizing s with
  | nil => exact ⟨rfl, rfl, rfl⟩
  | cons e rest ih => exact ih (s.step (.sync e))

/-- Something happens, and then the cache answers. -/
theorem run_cache (name : String) (t : RateTable) (moments : List Moment) :
    ∃ answer events rest, (RateTable.amid.cache name).run (t, moments) =
      (answer, ((t.run events).2, rest)) := by
  cases moments with
  | nil => exact ⟨t.askCache name, [], [], rfl⟩
  | cons m rest =>
    obtain ⟨events, mood, store⟩ := m
    cases mood with
    | answers => exact ⟨_, events, rest, rfl⟩
    | misses => exact ⟨_, events, rest, rfl⟩
    | fails => exact ⟨_, events, rest, rfl⟩

theorem run_store (name : String) (t : RateTable) (moments : List Moment) :
    ∃ found events rest, (RateTable.amid.store name).run (t, moments) =
      (found, ((t.run events).2, rest)) := by
  cases moments with
  | nil => exact ⟨t.backends.read .store name .passed, [], [], rfl⟩
  | cons m rest => exact ⟨(t.run m.events).2.backends.read .store name m.store, m.events, rest, rfl⟩

/-- The store is asked, and settles a lookup that the cache has not settled. -/
theorem exists_run_store (name : String) (s : Traffic) (moments : List Moment)
    {answer : CacheAnswer} (unsettled : answer.result? = none) :
    let asked := ((RateTable.amid.store name).run
      (s.table.record fun l => l.count answer.counter, moments)).run
    ∃ moves, (s.run (.cache answer :: moves)).table = asked.2.1 ∧
      (s.run (.cache answer :: moves)).queries = s.queries ∧
      (s.run (.cache answer :: moves)).lookups = s.lookups ++ [⟨answer, some asked.1⟩] := by
  obtain ⟨found, events, rest, hstore⟩ :=
    run_store name (s.table.record fun l => l.count answer.counter) moments
  obtain ⟨htable, hqueries, hlookups⟩ := run_sync (s.step (.cache answer)) events
  have hsettled : ((s.step (.cache answer)).run (events.map .sync)).lookups.modify
      s.lookups.length (Lookup.settle found) = s.lookups ++ [⟨answer, some found⟩] := by
    rw [hlookups]
    change (s.lookups ++ [Lookup.mk answer answer.result?]).modify _ _ = _
    rw [unsettled, List.modify_eq_set_getElem?, List.getElem?_concat_length]
    simp [Lookup.settle]
  refine ⟨events.map .sync ++ [.store s.lookups.length found], ?_, ?_, ?_⟩
  · rw [run_cons, run_append, hstore]
    exact htable
  · rw [run_cons, run_append]
    exact hqueries
  · rw [run_cons, run_append, hstore]
    exact hsettled

/-- **A lookup is counted by its first answer, and then comes to its result.** -/
theorem exists_run_lookup (name : String) (s : Traffic) (moments : List Moment) :
    let looked := ((RateTable.amid.lookup name).run (s.table, moments)).run
    ∃ moves answer, (s.run moves).table = looked.2.1 ∧ (s.run moves).queries = s.queries ∧
      (s.run moves).lookups = s.lookups ++ [⟨answer, some looked.1⟩] := by
  obtain ⟨answer, events, rest, hcache⟩ := run_cache name s.table moments
  obtain ⟨htable, hqueries, hlookups⟩ := run_sync s events
  have missed (given : CacheAnswer) (unsettled : given.result? = none) :
      let asked := ((RateTable.amid.store name).run
        ((s.table.run events).2.record fun l => l.count given.counter, rest)).run
      ∃ moves answer, (s.run moves).table = asked.2.1 ∧ (s.run moves).queries = s.queries ∧
        (s.run moves).lookups = s.lookups ++ [⟨answer, some asked.1⟩] := by
    obtain ⟨moves, htable', hqueries', hlookups'⟩ :=
      exists_run_store name (s.run (events.map .sync)) rest unsettled
    refine ⟨events.map .sync ++ .cache given :: moves, given, ?_, ?_, ?_⟩
    · rw [run_append, htable', htable]
    · rw [run_append, hqueries', hqueries]
    · rw [run_append, hlookups', hlookups, htable]
  simp only [Access.lookup, StateT.run_bind, hcache]
  cases answer with
  | hit value =>
    refine ⟨events.map .sync ++ [.cache (.hit value)], .hit value, ?_, ?_, ?_⟩
    · rw [run_append]
      exact congrArg (RateTable.record · fun l => l.count .cacheHit) htable
    · rw [run_append]
      exact hqueries
    · rw [run_append, ← hlookups]
      rfl
  | miss => exact missed .miss rfl
  | failure => exact missed .failure rfl

/-- A lookup is a run of moves. -/
theorem traced_lookup (name : String) : Traced (RateTable.amid.lookup name) := by
  intro s moments
  obtain ⟨moves, answer, htable, hqueries, hlookups⟩ := exists_run_lookup name s moments
  exact ⟨moves, htable, hqueries, by simp [waiting, hlookups, Lookup.waiting]⟩

/-! ## What readers make of it -/

theorem traced_manifest : Traced RateTable.amid.manifest := by
  refine (traced_lookup Manifest.name).bind fun answer => ?_
  match answer with
  | .error _ => exact .pure _
  | .ok none => exact .pure _
  | .ok (some octets) =>
    dsimp only
    split
    · exact .pure _
    · exact .pure _

theorem traced_entry (key : Key) : Traced (RateTable.amid.entry key) := by
  refine (traced_lookup key.render).bind fun answer => ?_
  match answer with
  | .error _ => exact .pure _
  | .ok none => exact .pure _
  | .ok (some octets) =>
    dsimp only
    split
    · exact .pure _
    · exact .pure _

theorem traced_entries (keys : List Key) : Traced (RateTable.amid.entries keys) := by
  induction keys with
  | nil => exact .pure _
  | cons key rest ih =>
    refine (traced_entry key).bind fun answer => ?_
    match answer with
    | .error (.store _) => exact .pure _
    | .ok (some e) => exact ih.bind fun _ => .pure _
    | .error .corruptManifest => exact ih
    | .error (.corruptEntry _ _) => exact ih
    | .ok none => exact ih

/-- A reading of candidates is a run of moves. -/
theorem traced_candidates (path policy : String) :
    Traced (RateTable.amid.candidates path policy) := by
  refine traced_manifest.bind fun answer => ?_
  match answer with
  | .error _ => exact .pure _
  | .ok none => exact .pure _
  | .ok (some manifest) => exact traced_entries _

/-! ## Queries -/

section Last

variable {calls : List Call} {b : Assembler}

/-- The query that began last has its answer. -/
theorem step_leave {response : Response} (last : s.queries = ⟨b, calls ++ [.answered response]⟩) :
    s.step (.query (.leave calls.length)) =
      { s with
        table := s.table.record (recordResponse response)
        queries := ⟨b.leave, calls ++ [.ended (some response)]⟩ } := by
  simp [step, Queries.step, Queries.noted, RateTable.record, Call.underWay, Call.response?, last]

/-- The query that began last waits for the candidates. -/
theorem run_closing {r : Request} {now : Instant} {policy : Policy} {next : NextRequest}
    (last : s.queries = ⟨b, calls ++ [.reading r now policy next]⟩)
    (candidates : Except ReadError (List Entry)) :
    s.run [.query (.conclude calls.length candidates), .query (.leave calls.length)] =
      { s with
        table := s.table.record (recordResponse (b.conclude r policy next now candidates).1)
        queries := ⟨(b.conclude r policy next now candidates).2.leave,
          calls ++ [.ended (some (b.conclude r policy next now candidates).1)]⟩ } := by
  simp [run, step, Queries.step, Queries.noted, RateTable.record, Call.underWay,
    Call.response?, last]

end Last

/-- The table when it is known that one more query is in flight. -/
def announced (t : RateTable) (a : Assembler) : RateTable :=
  t.record fun l => { l with inFlight := some a.enter.load.inFlight }

/-- What a query does to the table, stage by stage. -/
theorem assemble_run (a : Assembler) (r : Request) (now clock : Instant) (t : RateTable)
    (moments : List Moment) :
    ((assemble RateTable.amid a r now clock).run (t, moments)).run =
      match a.enter.prepare r now clock with
      | (.refused response, b) =>
        ((response, b.leave), ((announced t a).record (recordResponse response), moments))
      | (.throttled reason response, b) =>
        ((response, b.leave),
          (((announced t a).record fun l => l.count (.throttled reason)).record
            (recordResponse response), moments))
      | (.admitted policy next, b) =>
        let read :=
          ((RateTable.amid.candidates r.service policy.tableName).run (announced t a, moments)).run
        let concluded := b.conclude r policy next now read.1
        ((concluded.1, concluded.2.leave),
          (read.2.1.record (recordResponse concluded.1), read.2.2)) := by
  unfold assemble
  generalize hprepare : a.enter.prepare r now clock = prepared
  obtain ⟨preparation, b⟩ := prepared
  cases preparation with
  | refused response => simp only [hprepare]; rfl
  | throttled reason response => simp only [hprepare]; rfl
  | admitted policy next => simp only [hprepare]; rfl

/-- The moves that begin a query and lead it through its first stage. -/
def beginning (s : Traffic) (r : Request) (now clock : Instant) : List Move :=
  [.query (.enter r now), .query (.prepare s.queries.calls.length clock)]

theorem run_beginning (s : Traffic) (r : Request) (now clock : Instant) :
    s.run (s.beginning r now clock) =
      { s with
        table := (announced s.table s.queries.assembler).record
          (s.queries.assembler.enter.prepare r now clock).1.noted
        queries := ⟨(s.queries.assembler.enter.prepare r now clock).2, s.queries.calls ++
          [.prepared r now (s.queries.assembler.enter.prepare r now clock).1]⟩ } := by
  simp [beginning, announced, run, step, Queries.step, Queries.noted, RateTable.record]

/-- **A query is done by moves**, and with the last one it has come to its end. -/
theorem exists_run_assemble (s : Traffic) (r : Request) (now clock : Instant)
    (moments : List Moment) :
    let ended :=
      ((assemble RateTable.amid s.queries.assembler r now clock).run (s.table, moments)).run
    ∃ moves, (s.run moves).table = ended.2.1 ∧ (s.run moves).waiting = s.waiting ∧
      (s.run moves).queries = ⟨ended.1.2, s.queries.calls ++ [.ended (some ended.1.1)]⟩ := by
  have hbegun := run_beginning s r now clock
  rw [assemble_run]
  generalize s.queries.assembler.enter.prepare r now clock = prepared at hbegun ⊢
  obtain ⟨preparation, b⟩ := prepared
  cases preparation with
  | refused response =>
    refine ⟨s.beginning r now clock ++ [.query (.leave s.queries.calls.length)], ?_⟩
    rw [run_append, run_cons, step_leave (by rw [hbegun]; rfl), hbegun]
    exact ⟨rfl, rfl, rfl⟩
  | throttled reason response =>
    refine ⟨s.beginning r now clock ++ [.query (.leave s.queries.calls.length)], ?_⟩
    rw [run_append, run_cons, step_leave (by rw [hbegun]; rfl), hbegun]
    exact ⟨rfl, rfl, rfl⟩
  | admitted policy next =>
    obtain ⟨reads, htable, hqueries, hwaiting⟩ :=
      traced_candidates r.service policy.tableName (s.run (s.beginning r now clock)) moments
    rw [hbegun] at htable hqueries hwaiting
    let candidates := ((RateTable.amid.candidates r.service policy.tableName).run
      (announced s.table s.queries.assembler, moments)).run.1
    refine ⟨s.beginning r now clock ++ (reads ++
      [.query (.conclude s.queries.calls.length candidates),
        .query (.leave s.queries.calls.length)]), ?_⟩
    rw [run_append, run_append, hbegun, run_closing hqueries]
    refine ⟨?_, hwaiting, rfl⟩
    rw [htable]
    rfl

end Traffic

end Roster
