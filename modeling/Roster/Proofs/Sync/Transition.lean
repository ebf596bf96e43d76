import Roster.Proofs.Sync.Publication
import Roster.Sync.RateTable

/-!
# What an event can do

`RateTable.step` decides by the event and by the phase that the synchronizer is in, and most pairs
of the two do nothing. `Transition` lists the pairs that do something, with the state that comes out
of each, so that an invariant is a case analysis on it and never on the program. What the ledger
says is left open, as nothing that is asked about the backends or the synchronizer depends on it.

The first invariant that is proved this way is `Working`: the publication under way is `Sound`, from
whatever state without a running cycle one starts.
-/

namespace Roster.RateTable

variable {t t' u : RateTable} {e : Event} {events : List Event}

/-! ## Transitions -/

/-- What an event does, what comes of the cycle, and the state after it. -/
inductive Transition (t : RateTable) : Event → Option CycleResult → RateTable → Prop where
  /-- the event does not fit the phase -/
  | ignored (e : Event) : Transition t e none t
  | refused {phase : Phase} (running : t.synchronizer.running = some phase) :
      Transition t .call (some (.error .concurrent)) t
  | begun (idle : t.synchronizer.running = none) :
      Transition t .call none { t with synchronizer := t.synchronizer.begin }
  | notFetched {error : FetchError} {l : Ledger}
      (running : t.synchronizer.running = some .fetching) :
      Transition t (.fetched (.error error)) (some (.error (.fetch error)))
        ⟨t.backends, t.synchronizer.finish (.error (.fetch error)), l⟩
  | fetched {rows : List Row} {l : Ledger} (running : t.synchronizer.running = some .fetching) :
      Transition t (.fetched (.ok rows)) none ⟨t.backends, t.synchronizer.diffing rows, l⟩
  | listed {snapshot : Snapshot} {rowsFetched rejected : Nat} {verdict : Verdict} {l : Ledger}
      (running : t.synchronizer.running = some (.diffing snapshot rowsFetched rejected)) :
      Transition t (.listed verdict) none
        ⟨t.backends, t.synchronizer.publishing snapshot rowsFetched rejected
          ((t.backends.storeKeys verdict).toOption.getD []), l⟩
  | advanced {p p' : Publication} {time : UInt64} {verdict : Verdict} {w : Write} {l : Ledger}
      (running : t.synchronizer.running = some (.publishing p))
      (next : p.next? t.synchronizer.cycles time = some w)
      (advance : p' = p.advance w (t.backends.write w verdict).1.isOk) (left : p'.tasks ≠ []) :
      Transition t (.wrote time verdict) none
        ⟨(t.backends.write w verdict).2,
          { t.synchronizer with running := some (.publishing p') }, l⟩
  | concluded {p p' : Publication} {time : UInt64} {verdict : Verdict} {w : Write} {l : Ledger}
      (running : t.synchronizer.running = some (.publishing p))
      (next : p.next? t.synchronizer.cycles time = some w)
      (advance : p' = p.advance w (t.backends.write w verdict).1.isOk) (left : p'.tasks = []) :
      Transition t (.wrote time verdict) (some (p'.result t.synchronizer.cycles))
        ⟨(t.backends.write w verdict).2,
          (t.synchronizer.conclude p').finish (p'.result t.synchronizer.cycles), l⟩
  | expired {phase : Phase} {onItsWay : Option UInt64} {l : Ledger}
      (running : t.synchronizer.running = some phase) :
      Transition t (.expired onItsWay) (some (.error (.timeout t.synchronizer.timeout)))
        ⟨(t.land onItsWay).backends,
          t.synchronizer.finish (.error (.timeout t.synchronizer.timeout)), l⟩
  | dropped {onItsWay : Option UInt64} :
      Transition t (.dropped onItsWay) none
        ⟨(t.land onItsWay).backends, { t.synchronizer with running := none }, t.ledger⟩

/-- What a change that was on its way does is what the publication would have done next. -/
theorem land_cases (t : RateTable) (onItsWay : Option UInt64) :
    t.land onItsWay = t ∨ ∃ p time w, t.synchronizer.running = some (.publishing p) ∧
      p.next? t.synchronizer.cycles time = some w ∧
      t.land onItsWay = { t with backends := (t.backends.apply w).2 } := by
  unfold land
  split
  · exact .inl rfl
  · next w hw =>
    obtain ⟨time, -, hnext⟩ := Option.bind_eq_some_iff.mp hw
    unfold nextWrite? at hnext
    split at hnext
    · next p hrunning => exact .inr ⟨p, time, w, hrunning, hnext, rfl⟩
    · cases hnext

theorem land_synchronizer (t : RateTable) (onItsWay : Option UInt64) :
    (t.land onItsWay).synchronizer = t.synchronizer := by
  rcases t.land_cases onItsWay with h | ⟨p, time, w, -, -, h⟩
  · rw [h]
  · rw [h]

/-- A write is one of the transitions. -/
theorem transition_wrote {p : Publication} {time : UInt64} {verdict : Verdict}
    (running : t.synchronizer.running = some (.publishing p)) :
    Transition t (.wrote time verdict) (t.wrote time verdict).1 (t.wrote time verdict).2 := by
  simp only [wrote, running]
  split
  · exact .ignored _
  · next w hw =>
    simp only [proceed]
    split
    · next hleft => exact .concluded running hw rfl (List.isEmpty_iff.mp hleft)
    · next hleft => exact .advanced running hw rfl fun h => hleft (List.isEmpty_iff.mpr h)

/-- **Every event is one of the transitions.** -/
theorem transition_step (t : RateTable) (e : Event) : Transition t e (t.step e).1 (t.step e).2 := by
  cases e with
  | call =>
    cases hr : t.synchronizer.running with
    | none => simpa [step, call, hr] using Transition.begun hr
    | some phase => simpa [step, call, hr] using Transition.refused hr
  | fetched answer =>
    cases hr : t.synchronizer.running with
    | none => simpa [step, RateTable.fetched, hr] using Transition.ignored _
    | some phase =>
      cases phase with
      | fetching =>
        simp only [step, RateTable.fetched, hr]
        cases answer with
        | error error => exact .notFetched hr
        | ok rows => exact .fetched hr
      | diffing => simpa [step, RateTable.fetched, hr] using Transition.ignored _
      | publishing => simpa [step, RateTable.fetched, hr] using Transition.ignored _
  | listed verdict =>
    simp only [step, RateTable.listed]
    split
    · next snapshot rowsFetched rejected hr => exact .listed hr
    · exact .ignored _
  | wrote time verdict =>
    by_cases h : ∃ p, t.synchronizer.running = some (.publishing p)
    · obtain ⟨p, hr⟩ := h
      exact transition_wrote hr
    · simp only [step, RateTable.wrote]
      split
      · next p hr => exact absurd ⟨p, hr⟩ h
      · exact .ignored _
  | expired onItsWay =>
    simp only [step, RateTable.expired, land_synchronizer]
    split
    · next phase hr =>
      rw [finish, land_synchronizer]
      exact .expired hr
    · next hr =>
      -- No cycle is running, so no change of one is on its way.
      rcases t.land_cases onItsWay with h | ⟨p, time, w, hp, -, -⟩
      · rw [h]
        exact .ignored _
      · rw [hr] at hp
        cases hp
  | dropped onItsWay =>
    have hdropped : (t.land onItsWay).dropped =
        ⟨(t.land onItsWay).backends, { t.synchronizer with running := none }, t.ledger⟩ := by
      rcases t.land_cases onItsWay with h | ⟨p, time, w, -, -, h⟩ <;> rw [h] <;> rfl
    rw [step, hdropped]
    exact .dropped

/-- What holds after every transition holds after the event. -/
theorem of_transition {P : RateTable → Prop} (h : ∀ result t', Transition t e result t' → P t') :
    P (t.step e).2 :=
  h _ _ (transition_step t e)

/-- The backends are as they were, or the next change of the publication under way has been
    tried. -/
def Touched (t : RateTable) (b : Backends) : Prop :=
  b = t.backends ∨ ∃ p time w, t.synchronizer.running = some (.publishing p) ∧
    p.next? t.synchronizer.cycles time = some w ∧ t.backends.Tried w b

theorem touched_land (t : RateTable) (onItsWay : Option UInt64) :
    t.Touched (t.land onItsWay).backends := by
  rcases t.land_cases onItsWay with hland | ⟨p, time, w, running, next, hland⟩
  · rw [hland]
    exact .inl rfl
  · rw [hland]
    exact .inr ⟨p, time, w, running, next, t.backends.tried_apply w⟩

/-- **At most one change is tried in an event, and it is the next one of the
    publication under way.** -/
theorem touched_step (t : RateTable) (e : Event) : t.Touched (t.step e).2.backends := by
  refine of_transition (P := fun t' => t.Touched t'.backends) fun result t' transition => ?_
  cases transition with
  | @advanced p p' time verdict w l running next advance left =>
    exact .inr ⟨p, time, w, running, next, t.backends.tried_write w verdict⟩
  | @concluded p p' time verdict w l running next advance left =>
    exact .inr ⟨p, time, w, running, next, t.backends.tried_write w verdict⟩
  | expired => exact t.touched_land _
  | dropped => exact t.touched_land _
  | _ => exact .inl rfl

/-- What the ledger says has no influence. -/
theorem step_congr (hb : u.backends = t.backends) (hs : u.synchronizer = t.synchronizer)
    (e : Event) :
    (u.step e).2.backends = (t.step e).2.backends ∧
      (u.step e).2.synchronizer = (t.step e).2.synchronizer := by
  obtain ⟨backends, synchronizer, ledger⟩ := t
  obtain ⟨backends', synchronizer', ledger'⟩ := u
  subst hb hs
  have landed (onItsWay : Option UInt64) :
      (land ⟨backends', synchronizer', ledger'⟩ onItsWay).backends =
        (land ⟨backends', synchronizer', ledger⟩ onItsWay).backends := by
    have hnext : onItsWay.bind (nextWrite? ⟨backends', synchronizer', ledger'⟩) =
        onItsWay.bind (nextWrite? ⟨backends', synchronizer', ledger⟩) := rfl
    rw [land, land, hnext]
    cases onItsWay.bind (nextWrite? ⟨backends', synchronizer', ledger⟩) <;> rfl
  cases e with
  | call =>
    simp only [step, call]
    split <;> exact ⟨rfl, rfl⟩
  | fetched answer =>
    simp only [step, fetched]
    split
    · cases answer <;> exact ⟨rfl, rfl⟩
    · exact ⟨rfl, rfl⟩
  | listed verdict =>
    simp only [step, listed]
    split <;> exact ⟨rfl, rfl⟩
  | wrote time verdict =>
    simp only [step, wrote]
    split
    · split
      · exact ⟨rfl, rfl⟩
      · simp only [proceed]
        split <;> exact ⟨rfl, rfl⟩
    · exact ⟨rfl, rfl⟩
  | expired onItsWay =>
    simp only [step, expired, land_synchronizer]
    split
    · exact ⟨landed onItsWay, by simp [finish, land_synchronizer]⟩
    · exact ⟨landed onItsWay, by simp [land_synchronizer]⟩
  | dropped onItsWay => exact ⟨landed onItsWay, by simp [step, dropped, land_synchronizer]⟩

/-! ## Runs -/

/-- What every event keeps, every run keeps. -/
theorem run_induction {P : RateTable → Prop} (keeps : ∀ t e, P t → P (t.step e).2) (h : P t) :
    P (t.run events).2 := by
  induction events generalizing t with
  | nil => exact h
  | cons e rest ih => exact ih (keeps t e h)

/-! ## The publication under way -/

/-- The running cycle has a snapshot that rows can give, and a publication that is sound. -/
structure Working (t : RateTable) : Prop where
  valid : ∀ snapshot rowsFetched rejected,
    t.synchronizer.running = some (.diffing snapshot rowsFetched rejected) → snapshot.Valid
  sound : ∀ p, t.synchronizer.running = some (.publishing p) →
    ∃ done, p.Sound t.synchronizer.cycles t.backends done

theorem working_of_idle (h : t.synchronizer.running = none) : t.Working := by
  constructor
  · intro snapshot rowsFetched rejected hr
    rw [h] at hr
    cases hr
  · intro p hr
    rw [h] at hr
    cases hr

theorem formed_start {s : Synchronizer} {snapshot : Snapshot} {rowsFetched rejected : Nat}
    {stored : List String} (h : snapshot.Valid) :
    (Publication.start snapshot rowsFetched rejected
      (Diff.compare s.published snapshot (s.known ++ stored))).Formed :=
  ⟨h, fun _ hkey => (Diff.mem_toEvict_iff.mp hkey).2, Diff.nodup_sorted _⟩

/-- An event leaves a working table one. -/
theorem working_step (h : t.Working) (e : Event) : (t.step e).2.Working := by
  refine of_transition fun result t' transition => ?_
  cases transition with
  | ignored => exact h
  | refused => exact h
  | begun => exact ⟨nofun, nofun⟩
  | notFetched => exact working_of_idle rfl
  | @fetched rows =>
    refine ⟨?_, nofun⟩
    rintro snapshot rowsFetched rejected hr
    cases hr
    exact Snapshot.valid_ofRows rows
  -- The snapshot of the cycle is what makes its plan one in which no key comes twice.
  | listed running =>
    refine ⟨nofun, ?_⟩
    rintro p hr
    cases hr
    exact ⟨[], Publication.sound_start (formed_start (h.valid _ _ _ running))⟩
  | @advanced p p' time verdict w l running next advance left =>
    refine ⟨nofun, ?_⟩
    rintro p₁ hr
    cases hr
    obtain ⟨done, sound⟩ := h.sound p running
    rw [advance]
    exact sound.advance next (t.backends.tried_write w verdict) Backends.shows_of_ok
  | concluded => exact working_of_idle rfl
  | expired => exact working_of_idle rfl
  | dropped => exact working_of_idle rfl

end Roster.RateTable
