import Roster.Proofs.Query.FollowUp
import Roster.Proofs.Query.Outcome

/-!
# Where an answer could break off

Some of what the assembler asks of the machine has no answer: room for more octets than can be
addressed, a quotient by zero, a point of time after the last one. The program does not look whether
it asks for such a thing, it ends. Here every such request is made in the open: each function of the
way to an answer is written once more, with a guard wherever the machine would refuse (`Abort`), and
what is proved is that nothing else is changed.

Two of the three guards never say no, whatever the settings: the capacity that is divided by is at
least one, and sums of times are cut before they are formed. The third one does, as nothing bounds
the number of results that may be configured. That is also so for the window of a client, which is
refused when the assembler is built. So `runs_iff` does not say that a valid configuration is safe,
it says which ones are.
-/

namespace Roster

/-- What ends the program where it stands. -/
inductive Abort where
  /-- room is asked for that has no address -/
  | outOfRoom
  | divisionByZero
  /-- a point of time after the last one -/
  | timeOverflow
  deriving DecidableEq, Repr

/-- The largest number of octets that room can be asked for. -/
def largestRoom : ℕ := 2 ^ 63 - 1

namespace Abort

/-- Asks for room for some things of a size. -/
def reserve (size count : ℕ) : Except Abort Unit :=
  if largestRoom < count * size then .error .outOfRoom else .ok ()

/-- A division goes on unless it is by nought. -/
def divide (divisor : ℕ) : Except Abort Unit :=
  if divisor = 0 then .error .divisionByZero else .ok ()

end Abort

namespace Instant

/-- The sum of an instant and a duration, where it is an instant. -/
def add (t : Instant) (d : Duration) : Except Abort Instant :=
  if last.nanos < t.nanos + d.nanos then .error .timeOverflow else .ok ⟨t.nanos + d.nanos⟩

/-- A later instant as the scheduler forms it, with the limits that it looks at first. -/
def addGuarded (t : Instant) (d : Duration) : Except Abort Instant :=
  if longestStep < d.nanos then .ok last
  else if last.nanos < t.nanos + d.nanos then .ok last
  else t.add d

/-- A sum that would be too large is not formed. -/
@[simp] theorem addGuarded_eq (t : Instant) (d : Duration) :
    t.addGuarded d = .ok (t.saturatingAdd d) := by
  unfold addGuarded saturatingAdd
  split
  · rfl
  · split
    · rfl
    · next h => rw [add, if_neg h]

end Instant

namespace LoadMonitor

/-- What a monitor says, whose capacity is a divisor. -/
def signalGuarded (m : LoadMonitor) (now : Instant) (client : Option String) :
    Except Abort (LoadSignal × LoadMonitor) := do
  Abort.divide m.capacity
  pure (m.signal now client)

/-- The load of a server that is sized for nothing is that of one that is sized for one query. -/
@[simp] theorem signalGuarded_eq (m : LoadMonitor) (now : Instant) (client : Option String) :
    m.signalGuarded now client = .ok (m.signal now client) := by
  have hcapacity : m.capacity ≠ 0 := Nat.ne_of_gt (Nat.le_max_right _ _)
  rw [signalGuarded, Abort.divide, if_neg hcapacity]
  rfl

end LoadMonitor

namespace Scheduler

/-- What a scheduler says, with both instants guarded. -/
def scheduleGuarded (s : Scheduler) (c : Priority) (now : Instant) (load : LoadSignal)
    (service : String) (apiKey : Option String) (d : Dice) : Except Abort (Schedule × Dice) := do
  let (wait, d) := s.pacing.draw s.math c (effectiveUtilization load) d
  let notBefore ← now.addGuarded wait
  let expires ← notBefore.addGuarded (.ofSeconds s.pacing.validitySeconds)
  pure ({ next := { notBefore, expires, url := (s.nextUrl service apiKey notBefore expires).render }
          throttle := throttleOf load }, d)

/-- The scheduler never forms an instant beyond the last one. -/
@[simp] theorem scheduleGuarded_eq (s : Scheduler) (c : Priority) (now : Instant)
    (load : LoadSignal) (service : String) (apiKey : Option String) (d : Dice) :
    s.scheduleGuarded c now load service apiKey d =
      .ok (s.schedule c now load service apiKey d) := by
  simp only [scheduleGuarded, Instant.addGuarded_eq]
  rfl

end Scheduler

namespace Selector

variable {s : Selector} {policy : Policy} {client : Client}

/-- A selection that reserves the room for what is wanted, `size` bytes for each. -/
def selectGuarded (size : ℕ) (s : Selector) (policy : Policy) (candidates : List Entry)
    (client : Client) (d : Dice) :
    Except Abort (List Entry × Dice) :=
  let entries := candidates.filter (eligible policy client)
  match policy with
  | .all => pure (listing entries, d)
  | _ =>
    if policy = .metro ∧ client.metro.isNone then pure ([], d)
    else do
      let (shuffled, d) := d.shuffle entries
      let arranged := s.arrange policy client shuffled
      Abort.reserve size (s.wanted policy)
      let (taken, d) := walk (s.wanted policy) arranged d
      if taken.isEmpty then
        let (pick, d) := weightedPick arranged d
        pure (pick.toList, d)
      else pure (taken, d)

/-- The number of entries that room is asked for before the first one is chosen. -/
def reserved (s : Selector) (policy : Policy) (client : Client) : ℕ :=
  if policy = .all ∨ (policy = .metro ∧ client.metro.isNone) then 0 else s.wanted policy

theorem reserved_le (s : Selector) (policy : Policy) (client : Client) :
    s.reserved policy client ≤ max s.maxResults 1 := by
  rw [reserved]
  split
  · exact Nat.zero_le _
  · unfold wanted
    split
    · exact Nat.le_refl _
    · exact Nat.le_max_right _ _

/-- **Choosing entries breaks off if room is asked for that there is not, and only then.** -/
theorem selectGuarded_eq (size : ℕ) (s : Selector) (policy : Policy) (candidates : List Entry)
    (client : Client) (d : Dice) : s.selectGuarded size policy candidates client d =
      if largestRoom < s.reserved policy client * size then .error .outOfRoom
      else .ok (s.select policy candidates client d) := by
  unfold selectGuarded select reserved
  by_cases hall : policy = .all
  · subst hall
    simp [pure, Except.pure]
  by_cases hmetro : policy = .metro ∧ client.metro.isNone
  · simp [hmetro, pure, Except.pure]
  rw [if_neg (not_or.mpr ⟨hall, hmetro⟩)]
  cases policy with
  | all => exact absurd rfl hall
  | geo | geoOptions | random | metro =>
    dsimp only
    rw [if_neg hmetro, if_neg hmetro, Abort.reserve]
    split
    · rfl
    · dsimp only [bind, Except.bind]
      split
      · rfl
      · rfl

end Selector

namespace Assembler

variable {a : Assembler} {r : Request} {now clock : Instant} {policy : Policy}
  {next : NextRequest} {size : ℕ}

/-- What becomes of a request with a policy before the table is read, guarded. -/
def paceGuarded (a : Assembler) (r : Request) (policy : Policy) (now clock : Instant) :
    Except Abort (Preparation × Assembler) := do
  let priority := a.classify r now
  let (signal, load) ← a.load.signalGuarded clock r.client.address
  let (schedule, dice) ←
    a.scheduler.scheduleGuarded priority now signal r.service (a.acceptedKey r.apiKey) a.dice
  let a := { a with load, dice }
  match schedule.throttle with
  | none => pure (.admitted policy schedule.next, a)
  | some reason =>
    let (status, title) := throttleStatus reason
    pure (.throttled reason (.failure r priority status title "retry after next_request.not_before"
      (some schedule.next)), a)

/-- What becomes of a request before the table is read, guarded. -/
def prepareGuarded (a : Assembler) (r : Request) (now clock : Instant) :
    Except Abort (Preparation × Assembler) :=
  let refuse (title detail : String) : Except Abort (Preparation × Assembler) :=
    pure (.refused (.failure r (a.classify r now) 400 title detail none), a)
  match policyOf r.policy with
  | .error detail => refuse "unknown policy" detail
  | .ok policy =>
    if policy = .metro ∧ r.client.metro.isNone then
      refuse "missing metro" "the metro policy requires a metro parameter"
    else a.paceGuarded r policy now clock

/-- What becomes of an admitted request once the table was read, guarded. -/
def concludeGuarded (size : ℕ) (a : Assembler) (r : Request) (policy : Policy) (next : NextRequest)
    (now : Instant) (candidates : Except ReadError (List Entry)) :
    Except Abort (Response × Assembler) :=
  let priority := a.classify r now
  match candidates with
  | .error _ =>
    pure (.failure r priority 503 "rate table unavailable" "the rate table could not be read"
      (some next), a)
  | .ok candidates => do
    let (selected, dice) ← a.selector.selectGuarded size policy candidates r.client a.dice
    let a := { a with dice }
    if selected.isEmpty then
      pure (.failure r priority 404 "no targets" (noTargets r policy) (some next), a)
    else
      pure ({ status := 200, priority, next := some next
              targets := selected.map (Target.ofEntry a.services) }, a)

theorem paceGuarded_eq (a : Assembler) (r : Request) (policy : Policy) (now clock : Instant) :
    a.paceGuarded r policy now clock = .ok (a.pace r policy now clock) := by
  unfold paceGuarded pace
  simp only [LoadMonitor.signalGuarded_eq, Scheduler.scheduleGuarded_eq, bind, Except.bind]
  cases (a.scheduler.schedule (a.classify r now) now (a.load.signal clock r.client.address).1
    r.service (a.acceptedKey r.apiKey) a.dice).1.throttle with
  | none => rfl
  | some reason => rfl

/-- The first stage does not break off. -/
theorem prepareGuarded_eq (a : Assembler) (r : Request) (now clock : Instant) :
    a.prepareGuarded r now clock = .ok (a.prepare r now clock) := by
  unfold prepareGuarded prepare
  cases policyOf r.policy with
  | error detail => rfl
  | ok policy =>
    dsimp only
    split
    · rfl
    · exact paceGuarded_eq a r policy now clock

/-- The last stage breaks off where the choice does. -/
theorem concludeGuarded_eq (size : ℕ) (a : Assembler) (r : Request) (policy : Policy)
    (next : NextRequest) (now : Instant) (candidates : Except ReadError (List Entry)) :
    a.concludeGuarded size r policy next now candidates =
      if candidates.isOk ∧ largestRoom < a.selector.reserved policy r.client * size then
        .error .outOfRoom
      else .ok (a.conclude r policy next now candidates) := by
  unfold concludeGuarded conclude
  cases candidates with
  | error e => simp [Except.isOk, Except.toBool, pure, Except.pure]
  | ok candidates =>
    simp only [Except.isOk, Except.toBool, true_and, Selector.selectGuarded_eq]
    split
    · rfl
    · simp only [bind, Except.bind]
      split
      · rfl
      · rfl

variable {m : Type → Type} [Monad m]

/-- A whole query, which ends at the first step that aborts. -/
def assembleGuarded (access : Access m) (size : ℕ) (a : Assembler) (r : Request)
    (now clock : Instant) :
    ExceptT Abort m (Response × Assembler) := do
  let a := a.enter
  ExceptT.lift (access.record fun l => { l with inFlight := some a.load.inFlight })
  let (preparation, a) ← ExceptT.mk (pure (a.prepareGuarded r now clock))
  let (response, a) ←
    match preparation with
    | .refused response => pure (response, a)
    | .throttled reason response => do
      ExceptT.lift (access.record fun l => l.count (.throttled reason))
      pure (response, a)
    | .admitted policy next => do
      let candidates ← ExceptT.lift (access.candidates r.service policy.tableName)
      ExceptT.mk (pure (a.concludeGuarded size r policy next now candidates))
  ExceptT.lift (access.record (recordResponse response))
  pure (response, a.leave)

/-- What a visit comes to, where entries have a size. -/
def visitGuarded (size : ℕ) (a : Assembler) (v : Visit) : Except Abort (Response × Assembler) :=
  ((assembleGuarded RateTable.amid size (a.meet v) v.request v.now v.clock).run.run
    (v.table, v.moments)).run.1

/-- The end of a visit, where the last stage may have broken off. -/
theorem run_recordGuarded (σ : RateTable × List Moment)
    (concluded : Except Abort (Response × Assembler)) :
    ((do
      let (response, a) ← ExceptT.mk (pure concluded)
      ExceptT.lift (RateTable.amid.record (recordResponse response))
      pure (response, a.leave) :
      ExceptT Abort RateTable.Amid (Response × Assembler)).run.run σ).run.1 =
      concluded.map fun c => (c.1, c.2.leave) := by
  cases concluded with
  | ok c => rfl
  | error abort => rfl

/-- The three stages with their guards. -/
theorem run_assembleGuarded (size : ℕ) (a : Assembler) (v : Visit) :
    a.visitGuarded size v =
      match (a.meet v).enter.prepare v.request v.now v.clock with
      | (.refused response, b) => .ok (response, b.leave)
      | (.throttled _ response, b) => .ok (response, b.leave)
      | (.admitted policy next, b) =>
        (b.concludeGuarded size v.request policy next v.now (a.candidatesOf v policy)).map
          fun concluded =>
          (concluded.1, concluded.2.leave) := by
  unfold visitGuarded assembleGuarded
  simp only [prepareGuarded_eq]
  generalize hprepare : (a.meet v).enter.prepare v.request v.now v.clock = prepared
  obtain ⟨preparation, b⟩ := prepared
  cases preparation with
  | refused response => rfl
  | throttled reason response => rfl
  | admitted policy next => exact run_recordGuarded _ _

/-- The visit has candidates to choose from, and room is asked for more entries
    than can be addressed. -/
def Overreaches (size : ℕ) (a : Assembler) (v : Visit) : Prop :=
  ∃ policy, Asks v.request policy ∧ Scheduler.throttleOf (signalOf v) = none ∧
    (a.candidatesOf v policy).isOk ∧
    largestRoom < a.selector.reserved policy v.request.client * size

theorem Asks.eq {policy' : Policy} (h : Asks r policy) (h' : Asks r policy') : policy' = policy :=
  Except.ok.inj (h'.known.symm.trans h.known)

open Classical in
/-- **A visit breaks off for want of room, and for nothing else.** Otherwise the
    guards change nothing. -/
theorem visitGuarded_eq (size : ℕ) (a : Assembler) (v : Visit) :
    a.visitGuarded size v = if a.Overreaches size v then .error .outOfRoom
      else .ok (a.answer v, a.left v) := by
  have hvisit : (a.answer v, a.left v) = _ := a.run_assemble v
  have hprepare := prepare_cases (a.meet v).enter v.request v.now v.clock
  rw [run_assembleGuarded]
  generalize (a.meet v).enter.prepare v.request v.now v.clock = prepared at hvisit hprepare ⊢
  cases hprepare with
  | refused title detail faulty =>
    have hfits : ¬ a.Overreaches size v := fun ⟨policy, asks, _⟩ => faulty policy asks
    rw [if_neg hfits, hvisit]
  | throttled asks load =>
    have hfits : ¬ a.Overreaches size v := fun ⟨_, _, free, _⟩ => nomatch free.symm.trans load
    rw [if_neg hfits, hvisit]
  | @admitted policy asks load =>
    have hreaches : a.Overreaches size v ↔ (a.candidatesOf v policy).isOk ∧
        largestRoom < a.selector.reserved policy v.request.client * size :=
      ⟨fun ⟨_, asks', _, h⟩ => asks.eq asks' ▸ h, fun h => ⟨policy, asks, load, h⟩⟩
    dsimp only at hvisit ⊢
    rw [concludeGuarded_eq, hvisit]
    by_cases h : a.Overreaches size v
    · rw [if_pos h]
      exact congrArg (Except.map _) (if_pos (hreaches.mp h))
    · rw [if_neg h]
      exact congrArg (Except.map _) (if_neg (mt hreaches.mpr h))

/-! ## Which configurations are safe -/

variable {c : QueryConfig}

/-- A valid configuration asks for one result at least. -/
theorem maxResults_pos_of_valid (valid : c.fault? = none) : 0 < c.maxResults := by
  refine Nat.pos_of_ne_zero fun hzero => ?_
  unfold QueryConfig.fault? at valid
  -- whatever is looked at before, and if nothing else is found, the number of results is
  repeat (split at valid; · cases valid)
  contradiction

/-- What a valid configuration is built to. -/
theorem build_eq_ok_iff (valid : c.fault? = none) {math : Elementary} {dice : Dice} :
    (∃ a, build c math dice = .ok a) ↔ c.load.windowSeconds ≤ longestWindow := by
  simp only [build, valid, ofConfig]
  split
  · next h => exact iff_of_false (fun ⟨_, h'⟩ => nomatch h') (Nat.not_le.mpr h)
  · next h => exact iff_of_true ⟨_, rfl⟩ (Nat.not_lt.mp h)

theorem maxResults_of_build {math : Elementary} {dice : Dice} (h : build c math dice = .ok a) :
    a.selector.maxResults = c.maxResults := by
  unfold build ofConfig at h
  split at h
  · cases h
  · split at h
    · cases h
    · cases h
      rfl

/-- No more entries are asked for than there may be results. -/
theorem Overreaches.lt {v : Visit} (h : a.Overreaches size v) (pos : 0 < a.selector.maxResults) :
    largestRoom < a.selector.maxResults * size := by
  obtain ⟨policy, -, -, -, hlarge⟩ := h
  refine hlarge.trans_le (Nat.mul_le_mul_right size ?_)
  exact (a.selector.reserved_le policy v.request.client).trans (Nat.max_le.mpr ⟨Nat.le_refl _, pos⟩)

/-- A client that asks for nothing in particular, and finds a table that nobody has written to. -/
def plainVisit : Visit :=
  sampleVisit (RateTable.blank .zero) []

/-- It is enough that such a client comes. -/
theorem overreaches_plainVisit (h : largestRoom < a.selector.maxResults * size) :
    a.Overreaches size plainVisit := by
  refine ⟨.standard, ⟨rfl, fun hmetro => nomatch hmetro.1⟩, rfl, rfl,
    h.trans_le (Nat.mul_le_mul_right size ?_)⟩
  exact Nat.le_max_left _ _

/-- **Which valid configurations never break off.** Exactly those with a window that can be kept and
    so few results that room can be had for them: the assembler can be built, and whatever a visit
    meets, it comes to the answer that it should. Where it breaks off it is for want of room, never
    by a division or by a sum of times. -/
theorem runs_iff (valid : c.fault? = none) (math : Elementary) (dice : Dice) (size : ℕ) :
    ((∃ a, build c math dice = .ok a ∧ ∀ v, a.visitGuarded size v = .ok (a.answer v, a.left v)) ↔
        c.load.windowSeconds ≤ longestWindow ∧ c.maxResults * size ≤ largestRoom) ∧
      ∀ a, build c math dice = .ok a → ∀ v abort, a.visitGuarded size v = .error abort →
        abort = .outOfRoom ∧ largestRoom < c.maxResults * size := by
  constructor
  · constructor
    · rintro ⟨a, hbuild, hall⟩
      refine ⟨(build_eq_ok_iff valid).mp ⟨a, hbuild⟩, Nat.not_lt.mp fun hlarge => ?_⟩
      rw [← maxResults_of_build hbuild] at hlarge
      have hplain := hall plainVisit
      rw [visitGuarded_eq, if_pos (overreaches_plainVisit hlarge)] at hplain
      cases hplain
    · rintro ⟨hwindow, hroom⟩
      obtain ⟨a, hbuild⟩ := (build_eq_ok_iff valid).mpr hwindow
      refine ⟨a, hbuild, fun v => ?_⟩
      rw [visitGuarded_eq, if_neg]
      intro hover
      have hlarge := hover.lt (maxResults_of_build hbuild ▸ maxResults_pos_of_valid valid)
      rw [maxResults_of_build hbuild] at hlarge
      exact Nat.not_lt.mpr hroom hlarge
  · intro a hbuild v abort habort
    rw [visitGuarded_eq] at habort
    split at habort
    · next hover =>
      cases habort
      have hlarge := hover.lt (maxResults_of_build hbuild ▸ maxResults_pos_of_valid valid)
      rw [maxResults_of_build hbuild] at hlarge
      exact ⟨rfl, hlarge⟩
    · cases habort

/-- A service with standard settings does not break off, if an entry takes four hundred octets. -/
theorem runs_iff_sample : Scheduler.sampleConfig.fault? = none ∧
    ∃ a, build Scheduler.sampleConfig sample.scheduler.math (.ofWords #[0]) = .ok a ∧
      ∀ v, a.visitGuarded 400 v = .ok (a.answer v, a.left v) := by
  have valid : Scheduler.sampleConfig.fault? = none := by decide +kernel
  exact ⟨valid, (runs_iff valid sample.scheduler.math (.ofWords #[0]) 400).1.mpr (by decide)⟩

/-- Two valid configurations that are not safe: one cannot be built, for a window of a thousand
    years and a second, and the other one breaks off at the first visit, for as many results as
    there are addresses. -/
theorem broken_off :
    ({ Scheduler.sampleConfig with
      load := { windowSeconds := 31536000001 } } : QueryConfig).fault? = none ∧
      (build { Scheduler.sampleConfig with load := { windowSeconds := 31536000001 } }
        sample.scheduler.math
        (.ofWords #[0])).map (fun _ => ()) = .error .windowTooLong ∧
      ({ Scheduler.sampleConfig with maxResults := 2 ^ 63 } : QueryConfig).fault? = none ∧
      ∃ a, build { Scheduler.sampleConfig with maxResults := 2 ^ 63 } sample.scheduler.math
        (.ofWords #[0]) = .ok a ∧ a.visitGuarded 1 plainVisit = .error .outOfRoom := by
  refine ⟨by decide +kernel, rfl, by decide +kernel, _, rfl, ?_⟩
  rw [visitGuarded_eq, if_pos (overreaches_plainVisit (by decide +kernel))]

end Assembler

end Roster
