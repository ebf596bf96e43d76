import Roster.Proofs.Query.Selection
import Roster.Proofs.Query.Visit
import Roster.Proofs.Read.AtRest

/-!
# Who is served

A client gets targets exactly if an entry that can serve it has been published
(`served_iff_published`). The way from the rows to the answer is long, but only its ends are
compared here: the candidates are the published entries as they are read back, and a selection among
them is empty only if there is none to select. What is left is that reading back changes nothing
that decides about an entry. It changes the probability, but not whether there is one.
-/

namespace Roster

namespace Assembler

variable {a : Assembler} {v : Visit} {r : Request} {policy : Policy} {e d : Entry}

/-- An entry that can serve a request under a policy. -/
structure Serves (r : Request) (policy : Policy) (e : Entry) : Prop where
  path : e.key.path = r.service
  listed : e.key.policy = policy.tableName
  fits : Selector.Fits policy r.client e
  positive : 0.0 < e.probability

/-! ## Reading back -/

theorem fits_congr {client : Client} (hkey : d.key = e.key) (hfamily : d.family = e.family)
    (hmetro : d.metro = e.metro) :
    Selector.Fits policy client d ↔ Selector.Fits policy client e := by
  rw [← Selector.eligible_iff, ← Selector.eligible_iff]
  unfold Selector.eligible Entry.matchesRequester Selector.familyFits Selector.metroFits
  rw [hkey, hfamily, hmetro]

/-- What is read back of an entry serves whom the entry serves. -/
theorem serves_iff_of_decode (r : Request) (policy : Policy) (h : e.Valid)
    (hd : Entry.decode e.encode = .ok d) :
    d.key = e.key ∧ (0.0 ≤ d.probability ∧ d.probability ≤ 1.0) ∧
      (Serves r policy d ↔ Serves r policy e) := by
  obtain ⟨p, ⟨hproportion, hpositive⟩, hdecode⟩ := Entry.decode_encode h
  obtain rfl := Except.ok.inj (hd.symm.trans hdecode)
  have hfits : Selector.Fits policy r.client
      { e with probability := p, requestsPerDay := min e.requestsPerDay (2 ^ 63 - 1) } ↔
      Selector.Fits policy r.client e := fits_congr rfl rfl rfl
  refine ⟨rfl, hproportion, fun h => ?_, fun h => ?_⟩
  · exact ⟨h.path, h.listed, hfits.mp h.fits, hpositive.mp h.positive⟩
  · exact ⟨h.path, h.listed, hfits.mpr h.fits, hpositive.mpr h.positive⟩

/-! ## The last stage -/

variable {candidates : List Entry} (next : NextRequest) (now : Instant)

/-- Without a target the answer is that there is none. -/
theorem conclude_of_select (h : (a.selector.select policy candidates r.client a.dice).1 = []) :
    ((a.conclude r policy next now (.ok candidates)).1.status = 404) ∧
      (a.conclude r policy next now (.ok candidates)).1.targets = [] := by
  rw [conclude_ok, if_pos h]
  exact ⟨rfl, rfl⟩

/-- With targets the answer is these. -/
theorem conclude_of_select_ne_nil
    (h : (a.selector.select policy candidates r.client a.dice).1 ≠ []) :
    (a.conclude r policy next now (.ok candidates)).1.status = 200 ∧
      (a.conclude r policy next now (.ok candidates)).1.targets =
        (a.selector.select policy candidates r.client a.dice).1.map
          (Target.ofEntry a.services) := by
  rw [conclude_ok, if_neg h]
  exact ⟨rfl, rfl⟩

/-- The answer to candidates that are known has targets exactly if one of them can serve the
    client. -/
theorem conclude_served_iff (h : Selector.Proportionate candidates)
    (hcandidates : ∀ d ∈ candidates, d.key.path = r.service ∧ d.key.policy = policy.tableName) :
    let response := (a.conclude r policy next now (.ok candidates)).1
    (response.status = 200 ↔ ∃ d ∈ candidates, Serves r policy d) ∧
      (∀ target ∈ response.targets, ∃ d ∈ candidates, Serves r policy d ∧
        target.machine = d.key.target) ∧
      (response.status = 200 → response.targets ≠ []) ∧
      (response.status ≠ 200 → response.status = 404) := by
  intro response
  by_cases hempty : (a.selector.select policy candidates r.client a.dice).1 = []
  · obtain ⟨hstatus, htargets⟩ := conclude_of_select next now hempty
    have hnone := (Selector.select_eq_nil_iff h).mp hempty
    refine ⟨?_, ?_, ?_, fun _ => hstatus⟩
    · refine iff_of_false (by rw [hstatus]; decide) ?_
      rintro ⟨d, hd, hserves⟩
      exact hnone d hd hserves.fits hserves.positive
    · rw [htargets]
      exact nofun
    · rw [hstatus]
      exact nofun
  · obtain ⟨hstatus, htargets⟩ := conclude_of_select_ne_nil next now hempty
    have hserves : ∀ d ∈ (a.selector.select policy candidates r.client a.dice).1,
        d ∈ candidates ∧ Serves r policy d := by
      intro d hd
      obtain ⟨hcandidate, hfits, hpositive⟩ := Selector.mem_select h hd
      exact ⟨hcandidate, (hcandidates d hcandidate).1, (hcandidates d hcandidate).2,
        hfits, hpositive⟩
    refine ⟨?_, ?_, ?_, fun hne => absurd hstatus hne⟩
    · refine iff_of_true hstatus ?_
      obtain ⟨d, hd⟩ := List.exists_mem_of_ne_nil _ hempty
      exact ⟨d, hserves d hd⟩
    · rw [htargets]
      intro target htarget
      obtain ⟨d, hd, rfl⟩ := List.mem_map.mp htarget
      exact ⟨d, (hserves d hd).1, (hserves d hd).2, rfl⟩
    · rw [htargets, ne_eq, List.map_eq_nil_iff]
      exact fun _ => hempty

/-! ## What the readers find -/

/-- The candidates of a request are the entries of a snapshot for its service, as
    they are read back. -/
def ReadBack (snapshot : Snapshot) (r : Request) (policy : Policy) (candidates : List Entry) :
    Prop :=
  ∀ d, d ∈ candidates ↔ ∃ e ∈ snapshot.entries, e.key.path = r.service ∧
    e.key.policy = policy.tableName ∧ Entry.decode e.encode = .ok d

section ReadBack

variable {snapshot : Snapshot} (h : ReadBack snapshot r policy candidates) (hv : snapshot.Valid)
include h hv

theorem ReadBack.proportionate : Selector.Proportionate candidates := by
  intro d hd
  obtain ⟨e, he, -, -, hdecode⟩ := (h d).mp hd
  exact (serves_iff_of_decode r policy (hv e he) hdecode).2.1

theorem ReadBack.listed :
    ∀ d ∈ candidates, d.key.path = r.service ∧ d.key.policy = policy.tableName := by
  intro d hd
  obtain ⟨e, he, hpath, hlisted, hdecode⟩ := (h d).mp hd
  rw [(serves_iff_of_decode r policy (hv e he) hdecode).1]
  exact ⟨hpath, hlisted⟩

theorem ReadBack.exists_entry (hd : d ∈ candidates) (hserves : Serves r policy d) :
    ∃ e ∈ snapshot.entries, Serves r policy e ∧ d.key = e.key := by
  obtain ⟨e, he, -, -, hdecode⟩ := (h d).mp hd
  obtain ⟨hkey, -, hback⟩ := serves_iff_of_decode r policy (hv e he) hdecode
  exact ⟨e, he, hback.mp hserves, hkey⟩

/-- Who is served by a candidate is served by the entry that it was read from, and
    the other way round. -/
theorem ReadBack.serves_iff :
    (∃ d ∈ candidates, Serves r policy d) ↔ ∃ e ∈ snapshot.entries, Serves r policy e := by
  constructor
  · rintro ⟨d, hd, hserves⟩
    obtain ⟨e, he, hserves', -⟩ := h.exists_entry hv hd hserves
    exact ⟨e, he, hserves'⟩
  · rintro ⟨e, he, hserves⟩
    obtain ⟨p, -, hdecode⟩ := Entry.decode_encode (hv e he)
    exact ⟨_, (h _).mpr ⟨e, he, hserves.path, hserves.listed, hdecode⟩,
      (serves_iff_of_decode r policy (hv e he) hdecode).2.2.mpr hserves⟩

end ReadBack

/-! ## From rows to answers -/

variable {t : RateTable} {rows : List Row} {listing : Verdict} {writes : List (UInt64 × Verdict)}
  {report : CycleReport}

/-- The readers of a visit after a successful cycle find what it has published. -/
theorem candidatesOf_of_aCycle (a : Assembler) (policy : Policy)
    (hrun : t.run (RateTable.aCycle rows listing writes) = ([.ok report], v.table))
    (calm : ∀ moment ∈ v.moments, moment.Calm) :
    ∃ candidates, a.candidatesOf v policy = .ok candidates ∧
      ReadBack (Snapshot.ofRows rows).1 v.request policy candidates := by
  obtain ⟨m, hlists, hrests⟩ := RateTable.rests_of_aCycle hrun calm
  exact RateTable.candidates_of_rests (Snapshot.valid_ofRows rows) hlists
    (hrests.withLedger _) v.request.service policy.tableName

/-- **A client is told targets exactly if an entry that can serve it has been published**, whatever
    the words are and however the cache answers, and every machine it is told is the target of such
    an entry. Otherwise it is told that there are none. -/
theorem served_iff_published
    (hrun : t.run (RateTable.aCycle rows listing writes) = ([.ok report], v.table))
    (calm : ∀ moment ∈ v.moments, moment.Calm)
    (hpolicy : policyOf v.request.policy = .ok policy)
    (hmetro : policy = .metro → v.request.client.metro.isSome)
    (hload : Scheduler.throttleOf (signalOf v) = none) :
    ((a.answer v).status = 200 ↔
        ∃ e ∈ (Snapshot.ofRows rows).1.entries, Serves v.request policy e) ∧
      (∀ target ∈ (a.answer v).targets, ∃ e ∈ (Snapshot.ofRows rows).1.entries,
        Serves v.request policy e ∧ target.machine = e.key.target) ∧
      ((a.answer v).status = 200 → (a.answer v).targets ≠ []) ∧
      ((a.answer v).status ≠ 200 → (a.answer v).status = 404) := by
  obtain ⟨candidates, hcandidates, hread⟩ := candidatesOf_of_aCycle a policy hrun calm
  have hvalid := Snapshot.valid_ofRows rows
  have hanswer := answer_cases a v
  generalize a.answer v = response at hanswer ⊢
  cases hanswer with
  | refused title detail faulty =>
    obtain ⟨heq, hnone⟩ := faulty policy hpolicy
    have hsome := hmetro heq
    rw [Option.isNone_iff_eq_none.mp hnone] at hsome
    cases hsome
  | throttled status title detail known load =>
    rw [hload] at load
    cases load
  | concluded after known metro load =>
    cases hpolicy.symm.trans known
    rw [hcandidates]
    obtain ⟨hstatus, htargets, hne, hnone⟩ :=
      conclude_served_iff (a := { a with load := after, dice := (a.scheduleOf v).2 })
        (a.scheduleOf v).1.next v.now (hread.proportionate hvalid) (hread.listed hvalid)
    refine ⟨hstatus.trans (hread.serves_iff hvalid), fun target htarget => ?_, hne, hnone⟩
    obtain ⟨d, hd, hserves, hmachine⟩ := htargets target htarget
    obtain ⟨e, he, hserves', hkey⟩ := hread.exists_entry hvalid hd hserves
    exact ⟨e, he, hserves', by rw [hmachine, hkey]⟩

/-! ## A client that is served -/

/-- A row of the standard policy. -/
def servingRow : Row :=
  { RateTable.rowFor "10.0.0.2" with policy := "geo_options" }

theorem run_servingRow :
    (RateTable.blank .zero).run
      (RateTable.aCycle [servingRow] .passed (List.replicate 4 (9, .passed))) =
      ([.ok { cycle := 1, rowsFetched := 1, rejected := 0, new := 1, changed := 0, unchanged := 0
              evicted := 0 }],
        ((RateTable.blank .zero).run
          (RateTable.aCycle [servingRow] .passed (List.replicate 4 (9, .passed)))).2) :=
  Prod.ext (RateTable.eq_of_map_toOption (by decide +kernel)) rfl

/-- The cache fails at the manifest and has nothing to say about the entry. -/
theorem served_from_store :
    ∃ report t',
      (RateTable.blank .zero).run
          (RateTable.aCycle [servingRow] .passed (List.replicate 4 (9, .passed))) =
        ([.ok report], t') ∧
      (sample.answer (sampleVisit t' [{ cache := .fails }, {}, { cache := .misses }])).status =
        200 := by
  refine ⟨_, _, run_servingRow, ?_⟩
  have hserved := served_iff_published (a := sample)
    (v := sampleVisit _ [{ cache := .fails }, {}, { cache := .misses }]) run_servingRow
    (by simp [sampleVisit, Moment.Calm]) (rfl : policyOf none = .ok .geoOptions) nofun rfl
  refine hserved.1.mpr ?_
  have hentry : (Snapshot.ofRows [servingRow]).1.entries.any fun e =>
      e.key.path == "ndt" && e.key.policy == "geo_options" &&
        Selector.eligible .geoOptions {} e && 0.0 < e.probability := by
    decide
  obtain ⟨e, he, hserves⟩ := List.any_eq_true.mp hentry
  simp only [Bool.and_eq_true, beq_iff_eq, decide_eq_true_eq] at hserves
  obtain ⟨⟨⟨hpath, hpolicy⟩, heligible⟩, hpositive⟩ := hserves
  exact ⟨e, he, hpath, hpolicy, Selector.eligible_iff.mp heligible, hpositive⟩

end Assembler

end Roster
