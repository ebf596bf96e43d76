import Roster.Proofs.Read.Alongside

/-!
# Cycles that end before they publish

Up to the moment at which a cycle begins to publish nothing has come of it but its number and a
phase that can be seen: what it has fetched is its own, and a listing only reads. So a cycle that
ends before, for whatever reason, has left the table as it was (`Untouched`), and that is all the
next one looks at: it compares the same published content, and removes the same keys.

The invariant is about one cycle from its call on, and the reason that it may end in is not looked
at until the end. A cycle that has begun to publish may end in a timeout as well. The phase tells
the one from the other.
-/

namespace Roster.RateTable

variable {t u t' : RateTable} {e : Event}

/-- A cycle under way, which was called in the state `t`: nothing has ended it since. -/
inductive Underway (t : RateTable) : RateTable → Prop where
  | called (idle : t.synchronizer.running = none) : Underway t (t.step .call).2
  | goesOn {u : RateTable} (e : Event) (before : Underway t u)
      (running : (u.step e).2.synchronizer.running ≠ none) : Underway t (u.step e).2

/-- The store, the cache, and what the next cycle starts from are as they were. -/
structure Untouched (t u : RateTable) : Prop where
  backends : u.backends = t.backends
  known : u.synchronizer.known = t.synchronizer.known
  published : u.synchronizer.published = t.synchronizer.published

/-- What is known of a cycle under way: until it publishes it has touched nothing, and that it
    publishes can be seen. -/
structure Progress (t u : RateTable) : Prop where
  running : u.synchronizer.running ≠ none
  untouched : (∀ p, u.synchronizer.running ≠ some (.publishing p)) → t.Untouched u
  state : ∀ p, u.synchronizer.running = some (.publishing p) → u.synchronizer.state = .publishing

theorem Progress.fetching (h : t.Progress u) (now : u.synchronizer.running = some .fetching) :
    t.Untouched u := by
  apply h.untouched
  intro p hp
  cases now.symm.trans hp

/-- An event that does not end the cycle leaves everything untouched so far. -/
theorem Progress.step (h : t.Progress u) (e : Event)
    (goesOn : (u.step e).2.synchronizer.running ≠ none) :
    t.Progress (u.step e).2 := by
  have transition := transition_step u e
  generalize (u.step e).1 = answer, (u.step e).2 = u' at transition goesOn
  cases transition with
  | ignored => exact h
  | refused => exact h
  | begun idle => exact absurd idle h.running
  | fetched now =>
    have untouched := h.fetching now
    exact ⟨nofun, fun _ => ⟨untouched.backends, untouched.known, untouched.published⟩, nofun⟩
  | listed => exact ⟨nofun, fun unpublished => absurd rfl (unpublished _), fun _ _ => rfl⟩
  | advanced now =>
    exact ⟨nofun, fun unpublished => absurd rfl (unpublished _), fun _ _ => h.state _ now⟩
  | notFetched => exact absurd rfl goesOn
  | concluded => exact absurd rfl goesOn
  | expired => exact absurd rfl goesOn
  | dropped => exact absurd rfl goesOn

theorem progress_of_underway (h : t.Underway u) : t.Progress u := by
  induction h with
  | called idle =>
    have hcall : (t.step .call).2 = { t with synchronizer := t.synchronizer.begin } := by
      simp only [RateTable.step, call, idle]
    rw [hcall]
    refine ⟨Option.some_ne_none _, fun _ => ⟨rfl, rfl, rfl⟩, fun p hp => ?_⟩
    cases hp
  | goesOn e before running ih => exact ih.step e running

/-! ## Ends -/

/-- The errors that a cycle ends in which has not begun to publish, where `state`
    could be seen last. -/
inductive EndsEarly (state : SyncState) : SyncError → Prop where
  | fetch (fault : FetchError) : EndsEarly state (.fetch fault)
  | timeout (deadline : Duration) (early : state = .fetching ∨ state = .diffing) :
      EndsEarly state (.timeout deadline)

/-- A change is on its way only while something is being published. -/
theorem land_of_unpublished (h : ∀ p, t.synchronizer.running ≠ some (.publishing p))
    (onItsWay : Option UInt64) :
    t.land onItsWay = t := by
  rcases t.land_cases onItsWay with hsame | ⟨p, -, -, hp, -, -⟩
  · exact hsame
  · exact absurd hp (h p)

/-- A cycle that ends early has touched nothing. -/
theorem untouched_of_endsEarly {error : SyncError} (underway : t.Underway u)
    (ends : u.step e = (some (.error error), t')) (early : EndsEarly u.synchronizer.state error) :
    t.Untouched t' ∧ t'.synchronizer.running = none := by
  have progress := progress_of_underway underway
  have transition := transition_step u e
  rw [ends] at transition
  generalize hanswer : some (Except.error error : CycleResult) = answer at transition
  cases transition with
  | refused =>
    cases hanswer
    cases early
  | notFetched now =>
    have untouched := progress.fetching now
    exact ⟨⟨untouched.backends, untouched.known, untouched.published⟩, rfl⟩
  | concluded =>
    rw [Option.some.injEq, Publication.result] at hanswer
    split at hanswer
    · cases hanswer
    · cases hanswer
      cases early
  | expired =>
    cases hanswer
    have unpublished : ∀ p, u.synchronizer.running ≠ some (.publishing p) := by
      intro p hp
      rw [progress.state p hp] at early
      cases early with
      | timeout _ hstate => exact hstate.elim nofun nofun
    have untouched := progress.untouched unpublished
    rw [land_of_unpublished unpublished]
    exact ⟨⟨untouched.backends, untouched.known, untouched.published⟩, rfl⟩
  | _ => cases hanswer

/-- What a cycle is going to publish is a matter of the rows, of the listing, and of
    what is untouched. -/
theorem Untouched.publication (h : t.Untouched u) (idle : t.synchronizer.running = none)
    (idle' : u.synchronizer.running = none) (rows : List Row) (listing : Verdict) :
    ∃ p, (t.run [.call, .fetched (.ok rows), .listed listing]).2.synchronizer.running =
        some (.publishing p) ∧
      (u.run [.call, .fetched (.ok rows), .listed listing]).2.synchronizer.running =
        some (.publishing p) := by
  have started (v : RateTable) : (v.run [.call, .fetched (.ok rows), .listed listing]).2 =
      ((v.call.2.fetched (.ok rows)).2.listed listing).2 := rfl
  rw [started t, started u]
  have hu := (started_of_aCycle rows listing idle').2.2
  rw [h.backends, h.known, h.published] at hu
  exact ⟨_, (started_of_aCycle rows listing idle).2.2, hu⟩

theorem idle_of_underway (h : t.Underway u) : t.synchronizer.running = none := by
  induction h with
  | called idle => exact idle
  | goesOn _ _ _ ih => exact ih

/-- **A cycle that ends before it publishes leaves the table as it was.** Both backends, the known
    keys and the published content are the same, readers find the same, and the next cycle is going
    to publish and to remove the same as it would have without this one. -/
theorem ended_early_untouched {error : SyncError} (underway : t.Underway u)
    (ends : u.step e = (some (.error error), t')) (early : EndsEarly u.synchronizer.state error) :
    t'.backends = t.backends ∧ t'.synchronizer.known = t.synchronizer.known ∧
      t'.synchronizer.published = t.synchronizer.published ∧
      (∀ moments : List Moment, (∀ moment ∈ moments, moment.events = []) → ∀ path policy,
        t'.candidatesAmid moments path policy = t.candidatesAmid moments path policy) ∧
      ∀ rows listing, ∃ p,
        (t.run [.call, .fetched (.ok rows), .listed listing]).2.synchronizer.running =
          some (.publishing p) ∧
        (t'.run [.call, .fetched (.ok rows), .listed listing]).2.synchronizer.running =
          some (.publishing p) := by
  obtain ⟨untouched, idle⟩ := untouched_of_endsEarly underway ends early
  refine ⟨untouched.backends, untouched.known, untouched.published, ?_, ?_⟩
  · intro moments quiet path policy
    exact candidatesAmid_congr untouched.backends quiet path policy
  · intro rows listing
    exact untouched.publication (idle_of_underway underway) idle rows listing

/-- A source that fails, after however many requests, ends the cycle that asked it. -/
theorem step_of_fetch_error {exchange : ℕ → Analytics.Exchange} {fault : FetchError}
    (idle : t.synchronizer.running = none) (h : (Analytics.fetch exchange).1 = .error fault) :
    ((t.step .call).2.step (.fetched (Analytics.fetch exchange).1)).1 =
      some (.error (.fetch fault)) := by
  rw [h]
  simp only [RateTable.step, call, idle, Synchronizer.begin, RateTable.fetched, finish]

/-- A source that is busy at first, and then announces more rows than it sends. -/
def shortAnswer : ℕ → Analytics.Exchange
  | 0 => .answered 503 .empty
  | _ => .answered 200 "\x7b\"rows\":[],\"total_rows\":3\x7d".toUTF8

theorem fetch_shortAnswer : (Analytics.fetch shortAnswer).1 = .error (.incomplete 3 0) := by
  have hlength : (Analytics.fetch shortAnswer).1.map List.length = .error (.incomplete 3 0) := by
    decide +kernel
  cases hfetch : (Analytics.fetch shortAnswer).1 with
  | error fault =>
    rw [hfetch] at hlength
    cases hlength
    rfl
  | ok rows =>
    rw [hfetch] at hlength
    cases hlength

theorem ended_early_untouched_shortAnswer :
    ∃ t', (((blank .zero).run cutCycle).2.step .call).2.step
      (.fetched (Analytics.fetch shortAnswer).1) =
        (some (.error (.fetch (.incomplete 3 0))), t') ∧
      t'.backends = ((blank .zero).run cutCycle).2.backends ∧
      t'.synchronizer.known = ((blank .zero).run cutCycle).2.synchronizer.known := by
  have idle : ((blank .zero).run cutCycle).2.synchronizer.running = none := rfl
  generalize ((blank .zero).run cutCycle).2 = t at idle ⊢
  have ends := step_of_fetch_error idle fetch_shortAnswer
  have untouched := ended_early_untouched (.called idle) (Prod.ext ends rfl) (.fetch _)
  exact ⟨_, Prod.ext ends rfl, untouched.1, untouched.2.1⟩

end Roster.RateTable
