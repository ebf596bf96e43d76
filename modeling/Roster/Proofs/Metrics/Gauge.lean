import Roster.Proofs.Metrics.Traffic
import Roster.Proofs.Query.Looks

/-!
# The gauge of queries in flight

The gauge is written when a query begins and not when one ends. A query takes its guard, looks how
many guards there are, and tells the gauge; between any two of these others go on, so that one may
tell late what it has seen early. `Telling` is the traffic at this grain: beside each query stands
how far it is with its telling.

Whoever looks holds a guard itself. So no number that is ever told is zero (`Sound.step`), and what
the gauge shows when the last query has ended is the number of queries at some moment before
(`gauge_at_rest`).
-/

namespace Roster

open Assembler

/-- How far a query is with telling how many there are. -/
inductive Mark where
  /-- it has taken its guard -/
  | begun
  | looked (n : ℕ)
  | told
  deriving DecidableEq

/-- A table, its queries and the gauge they tell, where setting the gauge is a step of its own. -/
structure Telling where
  traffic : Traffic
  /-- for each query, in the order in which they began -/
  marks : List Mark := []

namespace Telling

/-- What happens next; a query looks at the guards and tells the gauge in two steps. -/
inductive Move where
  | enter (r : Request) (now : Instant)
  | look (i : ℕ)
  | tell (i : ℕ)
  /-- everything else that goes on -/
  | onward (move : Traffic.Move)

/-- A query goes on to its first stage when it has told. -/
def ready (marks : List Mark) : Traffic.Move → Bool
  | .query move => move.query?.any fun i => marks[i]? = some .told
  | _ => true

/-- What a move makes of it. It does nothing to a query that is not where the move starts. -/
def step (g : Telling) : Move → Telling
  | .enter r now =>
    { traffic := { g.traffic with queries := g.traffic.queries.step (.enter r now) }
      marks := g.marks ++ [.begun] }
  | .look i =>
    if g.marks[i]? = some .begun then
      { g with marks := g.marks.set i (.looked g.traffic.queries.assembler.load.inFlight) }
    else g
  | .tell i =>
    match g.marks[i]? with
    | some (.looked n) =>
      { traffic :=
          { g.traffic with table := g.traffic.table.record fun l => { l with inFlight := some n } }
        marks := g.marks.set i .told }
    | _ => g
  | .onward move => if ready g.marks move then { g with traffic := g.traffic.step move } else g

/-- What comes of a list of moves. -/
def run (g : Telling) (moves : List Move) : Telling :=
  moves.foldl step g

/-- The queries, in the order in which they began. -/
def calls (g : Telling) : List Call :=
  g.traffic.queries.calls

/-- The number of queries under way. -/
def underWay (g : Telling) : ℕ :=
  g.calls.countP Call.underWay

/-- What the gauge shows, once it has been told. -/
def gauge (g : Telling) : Option ℕ :=
  g.traffic.table.ledger.inFlight

/-- Nothing has happened yet. -/
def start (backends : Backends) (timeout : Duration) (a : Assembler) (limits : LoadLimits) :
    Telling where
  traffic := .start backends timeout a limits

variable {g : Telling} {i : ℕ} {limits : LoadLimits} {P Q : ℕ → Prop}

theorem run_append (g : Telling) (moves moves' : List Move) :
    g.run (moves ++ moves') = (g.run moves).run moves' :=
  List.foldl_append

/-! ## What the others do -/

theorem counted_step {q : Queries} (h : q.guards.Counted limits) (move : Queries.Move) :
    (q.step move).guards.Counted limits := by
  obtain ⟨moves, hguards⟩ := q.guards_step move
  rw [hguards]
  exact Guards.counted_run h moves

/-- A stage of a query begins no other. -/
theorem length_calls_step {q : Queries} {move : Queries.Move} (h : move.query? = some i) :
    (q.step move).calls.length = q.calls.length := by
  rw [q.length_step move]
  cases move with
  | enter r now => cases h
  | _ => rfl

theorem inFlight_recordResponse (response : Response) (l : Ledger) :
    (recordResponse response l).inFlight = l.inFlight := by
  unfold recordResponse
  dsimp only
  split
  · rfl
  · rfl

/-- Only a beginning is told to the gauge. -/
theorem inFlight_noted {q : Queries} {move : Queries.Move} (h : move.query? = some i) (l : Ledger) :
    (q.noted move l).inFlight = l.inFlight := by
  cases move with
  | enter r now => cases h
  | prepare i clock =>
    dsimp only [Queries.noted]
    split
    · next r now hcall =>
      cases (q.assembler.prepare r now clock).1 with
      | refused _ => rfl
      | throttled _ _ => rfl
      | admitted _ _ => rfl
    · rfl
  | conclude i candidates => rfl
  | leave i =>
    dsimp only [Queries.noted]
    split
    · exact inFlight_recordResponse _ l
    · rfl

theorem inFlight_foldl (results : List CycleResult) (l : Ledger) :
    (results.foldl RateTable.recordEnd l).inFlight = l.inFlight := by
  induction results generalizing l with
  | nil => rfl
  | cons result rest ih =>
    refine (ih _).trans ?_
    cases result with
    | ok _ => rfl
    | error _ => rfl

theorem inFlight_sync (t : RateTable) (e : Event) :
    (t.step e).2.ledger.inFlight = t.ledger.inFlight := by
  obtain ⟨l, hledger, hl⟩ := t.ledger_step e
  rw [hledger, inFlight_foldl]
  rcases hl with rfl | ⟨c, n, -, rfl⟩
  · rfl
  · rfl

/-! ## What is told -/

/-- The queries that are under way are counted, whoever has not told is one of them, and every
    number that was seen is of a kind. -/
structure Sound (limits : LoadLimits) (P : ℕ → Prop) (g : Telling) : Prop where
  counted : g.traffic.queries.guards.Counted limits
  marked : g.marks.length = g.calls.length
  telling : ∀ (i : ℕ) (call : Call), g.calls[i]? = some call →
    g.marks[i]? = some Mark.told ∨ call.underWay = true
  looked : ∀ n, Mark.looked n ∈ g.marks → P n
  shown : ∀ n, g.gauge = some n → P n
  told : Mark.told ∈ g.marks → g.gauge ≠ none

namespace Sound

theorem start (backends : Backends) (timeout : Duration) (a : Assembler) (limits : LoadLimits)
    (P : ℕ → Prop) :
    Sound limits P (Telling.start backends timeout a limits) where
  counted := Guards.counted_ofLimits limits
  marked := rfl
  telling _ _ hcall := by
    change [][_]? = some _ at hcall
    cases hcall
  looked _ hn := absurd hn List.not_mem_nil
  shown _ hn := by
    change none = some _ at hn
    cases hn
  told hn := absurd hn List.not_mem_nil

theorem mono (h : Sound limits P g) (himp : ∀ n, P n → Q n) : Sound limits Q g :=
  { h with
    looked n hn := himp n (h.looked n hn)
    shown n hn := himp n (h.shown n hn) }

theorem inFlight_eq (h : Sound limits P g) :
    g.traffic.queries.assembler.load.inFlight = g.underWay :=
  h.counted.held.trans g.traffic.queries.held_guards

/-- The gauge stays sound when a query begins, which has told nothing yet. -/
theorem enter (h : Sound limits P g) (r : Request) (now : Instant) :
    Sound limits P (g.step (.enter r now)) where
  counted := counted_step h.counted _
  marked := by
    change (g.marks ++ [Mark.begun]).length = (g.calls ++ [Call.entered r now]).length
    rw [List.length_append, List.length_append, h.marked]
    rfl
  telling i call hcall := by
    change (g.calls ++ [Call.entered r now])[i]? = some call at hcall
    change (g.marks ++ [Mark.begun])[i]? = some .told ∨ _
    rcases lt_or_ge i g.calls.length with hi | hi
    · rw [List.getElem?_append_left hi] at hcall
      rw [List.getElem?_append_left (h.marked ▸ hi)]
      exact h.telling i call hcall
    · rw [List.getElem?_append_right hi] at hcall
      rw [List.mem_singleton.mp (List.mem_of_getElem? hcall)]
      exact .inr rfl
  looked n hn := h.looked n ((List.mem_append.mp hn).resolve_right (by simp))
  shown := h.shown
  told hn := h.told ((List.mem_append.mp hn).resolve_right (by simp))

/-- A query that has not told is under way. -/
theorem underWay_of_ne {call : Call} (h : Sound limits P g) (hcall : g.calls[i]? = some call)
    (hmark : g.marks[i]? ≠ some .told) : call.underWay = true :=
  (h.telling i call hcall).resolve_left hmark

theorem telling_set (h : Sound limits P g) {mark : Mark}
    (hmark : ∀ call, g.calls[i]? = some call → mark = .told ∨ call.underWay = true) (j : ℕ)
    (call : Call) (hcall : g.calls[j]? = some call) :
    (g.marks.set i mark)[j]? = some .told ∨ call.underWay = true := by
  rcases eq_or_ne i j with rfl | hne
  · have hi : i < g.marks.length := h.marked ▸ (List.getElem?_eq_some_iff.mp hcall).1
    rw [List.getElem?_set_self hi, Option.some_inj]
    exact hmark call hcall
  · rw [List.getElem?_set_ne hne]
    exact h.telling j call hcall

/-- Who looks is under way itself, so that what is seen is not zero. -/
theorem look (h : Sound limits P g) (hP : 0 < g.underWay → P g.underWay) (i : ℕ) :
    Sound limits P (g.step (.look i)) := by
  dsimp only [step]
  split
  · next hmark =>
    have hunderWay : ∀ call, g.calls[i]? = some call → call.underWay = true := fun call hcall =>
      h.underWay_of_ne hcall (by rw [hmark]; nofun)
    refine { h with
      marked := List.length_set.trans h.marked
      telling := h.telling_set fun call hcall => .inr (hunderWay call hcall)
      looked := fun n hn => ?_
      told := fun hn => h.told ((List.mem_or_eq_of_mem_set hn).resolve_right nofun) }
    rcases List.mem_or_eq_of_mem_set hn with hold | hnew
    · exact h.looked n hold
    · obtain rfl := Mark.looked.inj hnew
      rw [h.inFlight_eq]
      have hi : i < g.calls.length := h.marked ▸ (List.getElem?_eq_some_iff.mp hmark).1
      exact hP (List.countP_pos_iff.mpr
        ⟨_, List.getElem_mem hi, hunderWay _ (List.getElem?_eq_getElem hi)⟩)
  · exact h

/-- What was seen is told, whatever has happened meanwhile. -/
theorem tell (h : Sound limits P g) (i : ℕ) : Sound limits P (g.step (.tell i)) := by
  dsimp only [step]
  split
  · next n hmark =>
    have hn : P n := h.looked n (List.mem_of_getElem? hmark)
    exact {
      counted := h.counted
      marked := List.length_set.trans h.marked
      telling := h.telling_set fun _ _ => .inl rfl
      looked := fun m hm => h.looked m ((List.mem_or_eq_of_mem_set hm).resolve_right nofun)
      shown := fun m hm => Option.some_inj.mp hm ▸ hn
      told := fun _ => nofun }
  · exact h

/-- A stage of a query that has told. -/
theorem query (h : Sound limits P g) {move : Queries.Move} (hquery : move.query? = some i)
    (hmark : g.marks[i]? = some .told) :
    Sound limits P { g with traffic := g.traffic.step (.query move) } := by
  have hlength : (g.traffic.queries.step move).calls.length = g.calls.length :=
    length_calls_step hquery
  have hgauge : (g.traffic.queries.noted move g.traffic.table.ledger).inFlight = g.gauge :=
    inFlight_noted hquery _
  exact {
    counted := counted_step h.counted move
    marked := h.marked.trans hlength.symm
    telling := fun j call hcall => by
      rcases eq_or_ne j i with rfl | hne
      · exact .inl hmark
      · have hj : j < g.calls.length := hlength ▸ (List.getElem?_eq_some_iff.mp hcall).1
        have hsame := Queries.getElem?_step_of_ne (List.getElem?_eq_getElem hj)
          (fun hmove => hne (Option.some_inj.mp (hmove.symm.trans hquery)))
        exact h.telling j call ((List.getElem?_eq_getElem hj).trans (hsame.symm.trans hcall))
    looked := h.looked
    shown := fun n hn => h.shown n (hgauge.symm.trans hn)
    told := fun hn => hgauge.trans_ne (h.told hn) }

/-- Everything that goes on besides leaves the gauge sound. -/
theorem onward (h : Sound limits P g) (move : Traffic.Move) :
    Sound limits P (g.step (.onward move)) := by
  dsimp only [step]
  split
  · next hready =>
    cases move with
    | sync e =>
      have hgauge := inFlight_sync g.traffic.table e
      exact { h with
        shown := fun n hn => h.shown n (hgauge.symm.trans hn)
        told := fun hn => hgauge.trans_ne (h.told hn) }
    | cache answer => exact { h with }
    | store i found => exact { h with }
    | query move =>
      obtain ⟨i, hquery, hmark⟩ := (Option.any_eq_true _ _).mp hready
      exact h.query hquery (of_decide_eq_true hmark)
  · exact h

/-- **Whoever moves, what is seen next is the number of queries under way, and it is not zero.** -/
theorem step (h : Sound limits P g) (hP : 0 < g.underWay → P g.underWay) (move : Move) :
    Sound limits P (g.step move) := by
  cases move with
  | enter r now => exact h.enter r now
  | look i => exact h.look hP i
  | tell i => exact h.tell i
  | onward move => exact h.onward move

end Sound

/-- A number that is not zero was the number of queries under way before or after one of the
    moves. -/
def Seen (g : Telling) (moves : List Move) (n : ℕ) : Prop :=
  0 < n ∧ ∃ before, before <+: moves ∧ (g.run before).underWay = n

/-- The gauge is sound after any moves. -/
theorem sound_run (backends : Backends) (timeout : Duration) (a : Assembler) (limits : LoadLimits)
    (moves : List Move) :
    Sound limits ((start backends timeout a limits).Seen moves)
      ((start backends timeout a limits).run moves) := by
  induction moves using List.reverseRecOn with
  | nil => exact .start backends timeout a limits _
  | append_singleton moves move ih =>
    rw [run_append]
    refine Sound.step (ih.mono fun n hn => ?_) (fun hpos => ?_) move
    · obtain ⟨hpos, before, hbefore, hn⟩ := hn
      exact ⟨hpos, before, hbefore.trans (List.prefix_append _ _), hn⟩
    · exact ⟨hpos, moves, List.prefix_append _ _, rfl⟩

/-! ## What programs do -/

/-- Every query has told. -/
def Settled (g : Telling) : Prop :=
  g.marks = List.replicate g.calls.length .told

theorem run_entering (h : g.Settled) (r : Request) (now : Instant) :
    g.run [.enter r now, .look g.calls.length, .tell g.calls.length] =
      { traffic := g.traffic.step (.query (.enter r now)), marks := g.marks ++ [.told] } := by
  have hlength : g.marks.length = g.calls.length := by rw [h, List.length_replicate]
  have hset (old new : Mark) : (g.marks ++ [old]).set g.calls.length new = g.marks ++ [new] := by
    rw [← hlength, List.set_append_right _ _ le_rfl, Nat.sub_self]
    rfl
  have hlast (mark : Mark) : (g.marks ++ [mark])[g.calls.length]? = some mark := by
    rw [← hlength, List.getElem?_concat_length]
  simp only [run, List.foldl_cons, List.foldl_nil, step, hlast, hset, if_true]
  rfl

/-- To a query that there is not nothing is done. -/
theorem step_query_of_none {s : Traffic} {move : Queries.Move} (hquery : move.query? = some i)
    (h : s.queries.calls[i]? = none) : s.step (.query move) = s := by
  cases move with
  | enter r now => cases hquery
  | prepare j clock =>
    obtain rfl := Option.some_inj.mp hquery
    simp [Traffic.step, Queries.step, Queries.noted, RateTable.record, h]
  | conclude j candidates =>
    obtain rfl := Option.some_inj.mp hquery
    simp [Traffic.step, Queries.step, Queries.noted, RateTable.record, h]
  | leave j =>
    obtain rfl := Option.some_inj.mp hquery
    simp [Traffic.step, Queries.step, Queries.noted, RateTable.record, h]

/-- What the traffic does at its own grain is done at this one. -/
theorem exists_run_step (h : g.Settled) (move : Traffic.Move) :
    ∃ moves, (g.run moves).traffic = g.traffic.step move ∧ (g.run moves).Settled := by
  cases move with
  | sync e => exact ⟨[.onward (.sync e)], rfl, h⟩
  | cache answer => exact ⟨[.onward (.cache answer)], rfl, h⟩
  | store j found => exact ⟨[.onward (.store j found)], rfl, h⟩
  | query move =>
    cases hquery : move.query? with
    | none =>
      cases move with
      | enter r now =>
        refine ⟨[.enter r now, .look g.calls.length, .tell g.calls.length], ?_, ?_⟩
        · rw [run_entering h]
        · rw [run_entering h]
          change g.marks ++ [Mark.told] =
            List.replicate (g.calls ++ [Call.entered r now]).length .told
          rw [h, List.length_append, List.length_singleton, List.replicate_succ']
      | _ => cases hquery
    | some i =>
      cases hcall : g.calls[i]? with
      | none => exact ⟨[], (step_query_of_none hquery hcall).symm, h⟩
      | some call =>
        have htold : g.marks[i]? = some .told := by
          rw [h, List.getElem?_replicate_of_lt (List.getElem?_eq_some_iff.mp hcall).1]
        have hready : ready g.marks (.query move) := by simp [ready, hquery, htold]
        have hstep : g.run [.onward (.query move)] =
            { g with traffic := g.traffic.step (.query move) } := if_pos hready
        refine ⟨[.onward (.query move)], by rw [hstep], ?_⟩
        rw [hstep]
        exact h.trans (congrArg (List.replicate · _) (length_calls_step hquery).symm)

/-- Any traffic is also a run of the finer moves, in which each query tells the gauge at once. -/
theorem exists_run_traffic (h : g.Settled) (moves : List Traffic.Move) :
    ∃ finer, (g.run finer).traffic = g.traffic.run moves ∧ (g.run finer).Settled := by
  induction moves generalizing g with
  | nil => exact ⟨[], rfl, h⟩
  | cons move rest ih =>
    obtain ⟨first, hfirst, hsettled⟩ := exists_run_step h move
    obtain ⟨later, hlater, hsettled⟩ := ih hsettled
    refine ⟨first ++ later, ?_, ?_⟩
    · rw [run_append, hlater, hfirst]
      rfl
    · rw [run_append]
      exact hsettled

/-- **The gauge never shows that no query is in flight.** When none is, it shows how many there were
    at some moment before. The moves are what the programs do: when every query has told, one that
    comes and has the assembler for itself does what some moves do. -/
theorem gauge_at_rest (backends : Backends) (timeout : Duration) (a : Assembler)
    (limits : LoadLimits) (moves : List Move) :
    let g := (start backends timeout a limits).run moves
    g.gauge ≠ some 0 ∧
      (g.calls ≠ [] → (∀ call ∈ g.calls, call.underWay = false) →
        g.traffic.queries.assembler.load.inFlight = 0 ∧
          ∃ n, g.gauge = some n ∧ 0 < n ∧
            ∃ before, before <+: moves ∧
              ((start backends timeout a limits).run before).underWay = n) ∧
      ((∀ mark ∈ g.marks, mark = .told) → ∀ r now clock moments,
        let ended := ((assemble RateTable.amid g.traffic.queries.assembler r now clock).run
          (g.traffic.table, moments)).run
        ∃ more, (g.run more).traffic.table = ended.2.1 ∧
          (g.run more).traffic.queries = ⟨ended.1.2, g.calls ++ [.ended (some ended.1.1)]⟩) := by
  intro g
  have h := sound_run backends timeout a limits moves
  refine ⟨fun hzero => (h.shown 0 hzero).1.false, fun hcalls hrest => ?_,
    fun htold r now clock moments => ?_⟩
  · have hnone : g.underWay = 0 :=
      List.countP_eq_zero.mpr fun call hcall => by simp [hrest call hcall]
    refine ⟨h.inFlight_eq.trans hnone, ?_⟩
    obtain ⟨call, rest, hcons⟩ := List.exists_cons_of_ne_nil hcalls
    have hfirst : g.calls[0]? = some call := by rw [hcons]; rfl
    have htold : g.marks[0]? = some .told := (h.telling 0 call hfirst).resolve_right (by
      rw [hrest call (List.mem_of_getElem? hfirst)]
      nofun)
    obtain ⟨n, hn⟩ := Option.ne_none_iff_exists'.mp (h.told (List.mem_of_getElem? htold))
    exact ⟨n, hn, h.shown n hn⟩
  · have hsettled : g.Settled := List.eq_replicate_iff.mpr ⟨h.marked, htold⟩
    obtain ⟨moves, htable, -, hqueries⟩ := g.traffic.exists_run_assemble r now clock moments
    obtain ⟨more, htraffic, -⟩ := exists_run_traffic hsettled moves
    exact ⟨more, htraffic ▸ htable, htraffic ▸ hqueries⟩

/-- A query for the standard policy. -/
def sampleRequest : Request where
  service := "ndt"
  path := "/v2/query/ndt"

/-- Two queries begin, and the one that has looked first tells last. Nobody corrects it
    when both have ended. -/
theorem gauge_at_rest_overtaken :
    let moves : List Move :=
      [.enter sampleRequest ⟨0⟩, .look 0, .enter sampleRequest ⟨0⟩, .look 1, .tell 1, .tell 0,
        .onward (.query (.leave 0)), .onward (.query (.leave 1))]
    let g := (start {} .zero Assembler.sample {}).run moves
    g.calls.length = 2 ∧ (∀ call ∈ g.calls, call.underWay = false) ∧
      (∀ mark ∈ g.marks, mark = .told) ∧
      g.traffic.queries.assembler.load.inFlight = 0 ∧ g.gauge = some 1 ∧
      ∃ n, g.gauge = some n ∧ 0 < n := by
  intro moves g
  have hcalls : g.calls = [.ended none, .ended none] := rfl
  have hrest : ∀ call ∈ g.calls, call.underWay = false := by
    rw [hcalls]
    simp [Call.underWay]
  have hsome : g.calls ≠ [] := hcalls ▸ List.cons_ne_nil _ _
  obtain ⟨-, hgauge, -⟩ := gauge_at_rest {} .zero Assembler.sample {} moves
  obtain ⟨hload, n, hn, hpos, -⟩ := hgauge hsome hrest
  exact ⟨rfl, hrest, by decide, hload, rfl, n, hn, hpos⟩

/-- A query that is refused at once is over when it has been answered, and the
    gauge still counts it. -/
theorem gauge_after_refusal :
    let s := Traffic.start {} .zero Assembler.sample {}
    let r := { sampleRequest with policy := some "nearest" }
    let ended := ((assemble RateTable.amid s.queries.assembler r ⟨0⟩ ⟨0⟩).run (s.table, [])).run
    ended.1.1.status = 400 ∧ ended.1.2.load.inFlight = 0 ∧ ended.2.1.ledger.inFlight = some 1 :=
  ⟨rfl, rfl, rfl⟩

end Telling

end Roster
