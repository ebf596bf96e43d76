import Roster.Proofs.Sync.Served
import Roster.Proofs.Table.Stored
import Roster.Read.Table

/-!
# Readers amid changes

A reader takes many steps, and anything may happen between two of them: `amid` is the way of a
reader to a table in which a list of `Moment`s is still to come, one for each operation of the
reader. The events of a moment come first, and then the operation, which may fail.

The reader is a program in a state monad, so what is proved about it is proved along the program:
`Keeps` says that a part of it leaves an invariant as it found it, and what its result is like. The
invariant is `Ahead`, the state of the table together with what is to come. It makes every answer
`Honest` by itself, and nothing has to be known about how the answers of one reader belong together.
-/

namespace Roster

variable {snapshots : List Snapshot} {k : Key} {t u : RateTable} {e : Event} {events : List Event}

/-! ## A reader's operations -/

/-- How the cache takes it to be asked. -/
inductive CacheMood where
  | answers
  /-- says that it has no value, whether it has one or not -/
  | misses
  /-- errs, or takes too long -/
  | fails
  deriving DecidableEq, Repr

/-- An operation of a reader: what happens to the table before it, and how it goes. -/
structure Moment where
  events : List Event := []
  cache : CacheMood := .answers
  store : Verdict := .passed

namespace RateTable

/-- A table, and what is to come for a reader. When nothing is left the table stays as it is and the
    backends answer. -/
abbrev Amid := StateM (RateTable × List Moment)

/-- The next moment of a reading, at which the table first goes on by its events. -/
def nextMoment : Amid (Moment × RateTable) := fun (t, moments) =>
  match moments with
  | [] => (({}, t), (t, []))
  | m :: rest => ((m, (t.run m.events).2), ((t.run m.events).2, rest))

/-- The way of readers to the backends of a table that changes meanwhile. -/
def amid : Access Amid where
  cache name := do
    let (m, t) ← nextMoment
    match m.cache with
    | .answers => pure (t.askCache name)
    | .misses => pure .miss
    | .fails => pure .failure
  store name := do
    let (m, t) ← nextMoment
    pure (t.backends.read .store name m.store)
  record f := modify fun (t, moments) => ({ t with ledger := f t.ledger }, moments)

/-- What a reader finds that begins now, with the given moments to come. -/
def candidatesAmid (t : RateTable) (moments : List Moment) (path policy : String) :
    Except ReadError (List Entry) :=
  ((amid.candidates path policy).run (t, moments)).run.1

/-- The table is in order, and will be in all that is to come. -/
structure Ahead (snapshots : List Snapshot) (k : Key) (σ : RateTable × List Moment) : Prop where
  working : σ.1.Working
  served : σ.1.Served snapshots k
  formed : ∀ s ∈ σ.1.formed (σ.2.flatMap Moment.events), s ∈ snapshots

/-- A part of a reader leaves an invariant as it found it, and its result is as it should be. -/
def Keeps {α : Type} (inv : RateTable × List Moment → Prop) (x : Amid α) (post : α → Prop) : Prop :=
  ∀ σ, inv σ → post (x.run σ).run.1 ∧ inv (x.run σ).run.2

section Keeps

variable {inv : RateTable × List Moment → Prop} {α β : Type} {x : Amid α} {f : α → Amid β}
  {post post' : α → Prop} {goal : β → Prop}

theorem Keeps.pure {a : α} (h : post a) : Keeps inv (pure a) post :=
  fun _ hσ => ⟨h, hσ⟩

theorem Keeps.bind (hx : Keeps inv x post) (hf : ∀ a, post a → Keeps inv (f a) goal) :
    Keeps inv (x >>= f) goal := by
  intro σ hσ
  obtain ⟨hpost, hσ'⟩ := hx σ hσ
  exact hf _ hpost _ hσ'

end Keeps

/-! ## What the operations say -/

variable {name : String}

theorem Ahead.withLedger {moments : List Moment} (h : Ahead snapshots k (t, moments)) (l : Ledger) :
    Ahead snapshots k ({ t with ledger := l }, moments) := by
  have same : RateTable.formed { t with ledger := l } (moments.flatMap Moment.events) =
      t.formed (moments.flatMap Moment.events) :=
    formed_congr (t := t) (u := { t with ledger := l }) rfl rfl _
  exact ⟨⟨h.working.valid, h.working.sound⟩, ⟨h.served.backends, h.served.current⟩,
    fun s hs => h.formed s (same.subst hs)⟩

theorem keeps_record (f : Ledger → Ledger) :
    Keeps (Ahead snapshots k) (amid.record f) fun _ => True :=
  fun (t, _) h => ⟨trivial, h.withLedger (f t.ledger)⟩

theorem keeps_nextMoment (hk : ∀ s ∈ snapshots, k ∈ s.keys) :
    Keeps (Ahead snapshots k) nextMoment fun next => next.2.backends.Serves snapshots k := by
  rintro ⟨t, moments⟩ h
  cases moments with
  | nil => exact ⟨h.served.backends, h⟩
  | cons m rest =>
    have hformed := h.formed
    -- What is formed in this moment and what is formed in those after it are looked at apart.
    rw [List.flatMap_cons, formed_append] at hformed
    have served := h.served.run h.working hk fun s hs => hformed s (List.mem_append_left _ hs)
    refine ⟨served.backends, ?_, served, fun s hs => hformed s (List.mem_append_right _ hs)⟩
    exact run_induction (fun t e ht => working_step ht e) h.working

/-- What the cache tells is honest, whenever it is asked. -/
theorem keeps_cache (hk : ∀ s ∈ snapshots, k ∈ s.keys) (name : String) :
    Keeps (Ahead snapshots k) (amid.cache name) fun answer =>
      ∀ value, answer = .hit value → Honest snapshots k name (.ok (some value)) := by
  refine (keeps_nextMoment hk).bind ?_
  rintro ⟨m, t⟩ serves
  cases hm : m.cache with
  | answers =>
    simp only [hm]
    refine .pure fun value hvalue => ?_
    have honest := serves .cache name
    rw [askCache] at hvalue
    cases hget : t.backends.cache.get? name with
    | none => simp [hget] at hvalue
    | some found =>
      simp only [hget, CacheAnswer.hit.injEq] at hvalue
      rwa [Backends.get, hget, hvalue] at honest
  | misses =>
    simp only [hm]
    exact .pure fun value hvalue => by cases hvalue
  | fails =>
    simp only [hm]
    exact .pure fun value hvalue => by cases hvalue

/-- What the store tells is honest, whenever it is asked. -/
theorem keeps_store (hk : ∀ s ∈ snapshots, k ∈ s.keys) (name : String) :
    Keeps (Ahead snapshots k) (amid.store name) (Honest snapshots k name) := by
  refine (keeps_nextMoment hk).bind ?_
  rintro ⟨m, t⟩ serves
  refine .pure ?_
  cases hm : m.store with
  | passed => exact serves .store name
  -- An error is always something that a reader may be told.
  | refused error => trivial
  | lost error => trivial

/-- **Whatever a reader looks up, it is told what it may be told.** -/
theorem keeps_lookup (hk : ∀ s ∈ snapshots, k ∈ s.keys) (name : String) :
    Keeps (Ahead snapshots k) (amid.lookup name) (Honest snapshots k name) := by
  refine (keeps_cache hk name).bind fun answer hanswer => ?_
  cases answer with
  | hit value => exact (keeps_record _).bind fun _ _ => .pure (hanswer value rfl)
  | miss => exact (keeps_record _).bind fun _ _ => keeps_store hk name
  | failure => exact (keeps_record _).bind fun _ _ => keeps_store hk name

/-! ## What the reader makes of it -/

/-- A manifest is found unless the store fails, and it lists one of the snapshots. -/
theorem keeps_manifest (hk : ∀ s ∈ snapshots, k ∈ s.keys) :
    Keeps (Ahead snapshots k) amid.manifest fun
      | .ok found => ∃ m, found = some m ∧ ∃ s ∈ snapshots, ∃ cycle, m.Lists s cycle
      | .error e => ∃ fault, e = .store fault := by
  refine (keeps_lookup hk Manifest.name).bind fun answer honest => ?_
  cases answer with
  | error fault => exact .pure ⟨fault, rfl⟩
  | ok found =>
    cases found with
    | none => exact absurd rfl honest.1
    | some value =>
      rw [Honest, if_pos rfl] at honest
      obtain ⟨s, hs, cycle, m, hm, rfl⟩ := honest
      simp only [hm.decode?]
      exact .pure ⟨m, rfl, s, hs, cycle, hm⟩

/-- An entry is what a reader makes of one that a snapshot has. -/
def ReadFrom (snapshots : List Snapshot) (d : Entry) : Prop :=
  ∃ s ∈ snapshots, ∃ e ∈ s.entries, Entry.decode e.encode = .ok d

/-- The entry with a key is one of the snapshots' under that key, and is not missing if the key
    is in all of them. -/
theorem keeps_entry (hk : ∀ s ∈ snapshots, k ∈ s.keys) (hv : ∀ s ∈ snapshots, s.Valid) {key : Key}
    (hkey : key.fault? = none) :
    Keeps (Ahead snapshots k) (amid.entry key) fun
      | .ok none => key ≠ k
      | .ok (some d) => d.key = key ∧ ReadFrom snapshots d
      | .error e => ∃ fault, e = .store fault := by
  refine (keeps_lookup hk key.render).bind fun answer honest => ?_
  cases answer with
  | error fault => exact .pure ⟨fault, rfl⟩
  | ok found =>
    cases found with
    | none => exact .pure fun heq => honest.2 (congrArg Key.render heq)
    | some value =>
      rw [Honest, if_neg key.render_ne_name] at honest
      obtain ⟨s, hs, e, he, hrender, rfl⟩ := honest key.render_ne_empty
      have hvalid := hv s hs e he
      obtain ⟨p, -, hdecode⟩ := Entry.decode_encode hvalid
      simp only [hdecode]
      exact .pure ⟨Key.render_injective hvalid.key hkey hrender, s, hs, e, he, hdecode⟩

/-- A reading of entries does not miss one that all snapshots have. -/
theorem keeps_entries (hk : ∀ s ∈ snapshots, k ∈ s.keys) (hv : ∀ s ∈ snapshots, s.Valid)
    {keys : List Key} (hkeys : ∀ key ∈ keys, key.fault? = none) :
    Keeps (Ahead snapshots k) (amid.entries keys) fun answer => ∀ entries, answer = .ok entries →
      (k ∈ keys → ∃ d ∈ entries, d.key = k) ∧ ∀ d ∈ entries, ReadFrom snapshots d := by
  induction keys with
  | nil =>
    refine .pure ?_
    rintro entries heq
    cases heq
    exact ⟨nofun, nofun⟩
  | cons key rest ih =>
    have hrest := ih fun key hkey => hkeys key (List.mem_cons_of_mem _ hkey)
    refine (keeps_entry hk hv (hkeys key List.mem_cons_self)).bind fun answer hanswer => ?_
    match answer with
    | .error (.store fault) => exact .pure nofun
    | .error .corruptManifest => exact absurd hanswer nofun
    | .error (.corruptEntry _ _) => exact absurd hanswer nofun
    -- There is no entry with this key, so it is not the one that must be found.
    | .ok none =>
      refine fun σ hσ => (hrest σ hσ).imp_left fun hentries entries heq => ?_
      obtain ⟨hfound, hread⟩ := hentries entries heq
      exact ⟨fun hmem => hfound ((List.mem_cons.mp hmem).resolve_left fun h => hanswer h.symm),
        hread⟩
    | .ok (some d) =>
      refine hrest.bind fun answer hentries => .pure ?_
      obtain ⟨rfl, hread⟩ := hanswer
      rintro entries heq
      cases answer with
      | error fault => cases heq
      | ok more =>
        cases heq
        obtain ⟨hfound, hmore⟩ := hentries more rfl
        refine ⟨fun hmem => ?_, List.forall_mem_cons.mpr ⟨hread, hmore⟩⟩
        rcases List.mem_cons.mp hmem with heq | hrest
        · exact ⟨d, List.mem_cons_self, heq.symm⟩
        · obtain ⟨d', hd', hkey⟩ := hfound hrest
          exact ⟨d', List.mem_cons_of_mem d hd', hkey⟩

theorem mem_keysOf_iff {path policy : String} {names : List String} {key : Key} :
    key ∈ Access.keysOf path policy names ↔
      key.fault? = none ∧ key.render ∈ names ∧ key.path = path ∧ key.policy = policy := by
  simp only [Access.keysOf, List.mem_filter, List.mem_filterMap, Key.parse?_eq_some_iff,
    Bool.and_eq_true, decide_eq_true_eq]
  constructor
  · rintro ⟨⟨name, hname, hfault, rfl⟩, hparts⟩
    exact ⟨hfault, hname, hparts⟩
  · rintro ⟨hfault, hname, hparts⟩
    exact ⟨⟨_, hname, hfault, rfl⟩, hparts⟩

/-- The keys that are looked up are written as the manifest has them, in its order and as often. -/
theorem map_render_keysOf (path policy : String) (names : List String) :
    (Access.keysOf path policy names).map Key.render =
      names.filter fun name =>
        (Key.parse? name).any fun key => key.path = path && key.policy = policy := by
  induction names with
  | nil => rfl
  | cons name rest ih =>
    rw [Access.keysOf] at ih
    cases hname : Key.parse? name with
    | none => simp [Access.keysOf, hname, ih]
    | some key =>
      have hrender : key.render = name := (Key.parse?_eq_some_iff.mp hname).2
      by_cases hkey : key.path = path ∧ key.policy = policy
      · simp [Access.keysOf, hname, hkey, hrender, ih]
      · simp [Access.keysOf, hname, hkey, ih]

/-- A reading of candidates does not miss one that all snapshots have. -/
theorem keeps_candidates (hk : ∀ s ∈ snapshots, k ∈ s.keys) (hv : ∀ s ∈ snapshots, s.Valid) :
    Keeps (Ahead snapshots k) (amid.candidates k.path k.policy) fun answer =>
      ∀ entries, answer = .ok entries →
      (∃ d ∈ entries, d.key = k) ∧ ∀ d ∈ entries, ReadFrom snapshots d := by
  refine (keeps_manifest hk).bind fun answer hanswer => ?_
  match answer with
  | .error fault => exact .pure nofun
  | .ok none =>
    obtain ⟨m, hm, -⟩ := hanswer
    cases hm
  | .ok (some m) =>
    obtain ⟨_, heq, s, hs, cycle, hm⟩ := hanswer
    cases heq
    have hkeys : ∀ key ∈ Access.keysOf k.path k.policy m.keys, key.fault? = none :=
      fun key hkey => (mem_keysOf_iff.mp hkey).1
    refine fun σ hσ => (keeps_entries hk hv hkeys σ hσ).imp_left fun hentries entries heq => ?_
    obtain ⟨hfound, hread⟩ := hentries entries heq
    refine ⟨hfound (mem_keysOf_iff.mpr ⟨?_, ?_, rfl, rfl⟩), hread⟩
    · obtain ⟨e, he, rfl⟩ := List.mem_map.mp (hk s hs)
      exact (hv s hs e he).key
    · exact (hm.mem_keys _).mpr (List.mem_map_of_mem (hk s hs))

/-! ## Runs -/

variable {t' : RateTable} {rows : List Row} {listing : Verdict} {writes : List (UInt64 × Verdict)}
  {report : CycleReport} {entries : List Entry}

/-- **A key that is in all snapshots is found by every reader that finds anything**, whatever
    happens in the backends between any two of the reader's operations. The snapshots are that of a
    cycle that succeeded with a listing and all that were formed since, and everything that the
    reader finds was an entry of one of them. -/
theorem key_never_lost (fresh : t.Fresh) (history : List Event)
    (hrun : (t.run history).2.run (aCycle rows listing writes) = ([.ok report], t'))
    (hlisted : ((t.run history).2.backends.storeKeys listing).isOk) (moments : List Moment)
    (hk : ∀ s ∈ (Snapshot.ofRows rows).1 :: t'.formed (moments.flatMap Moment.events), k ∈ s.keys)
    (hread : t'.candidatesAmid moments k.path k.policy = .ok entries) :
    (∃ d ∈ entries, d.key = k) ∧
      ∀ d ∈ entries, ∃ s ∈ (Snapshot.ofRows rows).1 :: t'.formed (moments.flatMap Moment.events),
        ∃ e ∈ s.entries, Entry.decode e.encode = .ok d := by
  obtain ⟨m, hlists, hpublishes, -, idle⟩ :=
    publishes_of_aCycle (fresh.tracked_after history) (fresh.working_after history) hrun
  have valid : ∀ s ∈ (Snapshot.ofRows rows).1 :: t'.formed (moments.flatMap Moment.events),
      s.Valid := by
    intro s hs
    rcases List.mem_cons.mp hs with rfl | hs
    · exact Snapshot.valid_ofRows rows
    · exact valid_of_mem_formed hs
  have served :
      t'.Served ((Snapshot.ofRows rows).1 :: t'.formed (moments.flatMap Moment.events)) k := by
    refine ⟨hpublishes.serves hlists ?_ List.mem_cons_self (hk _ List.mem_cons_self),
      fun s hs => ?_⟩
    · exact fun name hne => ⟨hlisted, Backends.tells_of_ne _ hne⟩
    · -- no cycle is under way, so there is no snapshot but the one that is published
      simp [current?, idle] at hs
  have ahead : Ahead ((Snapshot.ofRows rows).1 :: t'.formed (moments.flatMap Moment.events)) k
      (t', moments) :=
    ⟨working_of_idle idle, served, fun s hs => List.mem_cons_of_mem _ hs⟩
  exact (keeps_candidates hk valid _ ahead).1 entries hread

/-- A reader that is told by the store, of which the entry is replaced meanwhile by a
    cycle that is cut off. -/
def replaced : List Moment := [
  { events := [.call, .fetched (.ok [{ rowFor "10.0.0.2" with metro := "lga" }]), .listed .passed]
    cache := .misses },
  { events := [.wrote 10 (.lost .decode)] },
  { events := [.expired (some 11)], cache := .fails }]

theorem key_never_lost_replaced :
    ∃ report t' entries, ((blank .zero).run cutCycle).2.run
        (aCycle [rowFor "10.0.0.2"] .passed (List.replicate 6 (9, .passed))) = ([.ok report], t') ∧
      t'.candidatesAmid replaced "ndt" "" = .ok entries ∧
      ∃ d ∈ entries, d.key = (rowFor "10.0.0.2").key := by
  have hok : ((((blank .zero).run cutCycle).2.run (aCycle [rowFor "10.0.0.2"] .passed
      (List.replicate 6 (9, .passed)))).2.candidatesAmid replaced "ndt" "").isOk := by
    decide +kernel
  obtain ⟨entries, hread⟩ := exists_of_isOk hok
  have hfound := key_never_lost (k := (rowFor "10.0.0.2").key) (fresh_blank .zero) cutCycle
    run_after_cutCycle rfl replaced (by decide +kernel) hread
  exact ⟨_, _, entries, run_after_cutCycle, hread, hfound.1⟩

end RateTable

end Roster
