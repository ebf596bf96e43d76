import Roster.Proofs.Decimal.Comparison
import Roster.Proofs.Sync.Republication

/-!
# What counts as unchanged

A cycle counts an entry as unchanged if it has the content that was published last. What was
published last is what the synchronizer remembers, and not what the backends hold, and the two can
differ in three ways. A publication that fails is remembered as if it had succeeded, so an entry
that could not be written counts as unchanged in the next cycle. A publication that is cut off is
not remembered at all, although some of it is in the backends. And content is compared as numbers,
where zero is zero, while the octets have its sign.

So a run is followed with a list of *doubted* keys (`RateTable.doubts`): those under which something
else than what is remembered may have been put, which is known from the changes that were tried and
the results that were told. `Current` is the invariant, that apart from these keys both backends
hold what is remembered, and `Current.step` the one step. A cycle that succeeds leaves nothing to
doubt, one that fails only keys that it tells, and one that fetches nothing adds none.
-/

namespace Roster

open Decimal

/-! ## Content and octets -/

namespace Entry

variable {a b : Entry}

theorem beq_of_sameContent (h : a.sameContent b) :
    a.latitude == b.latitude ∧ a.longitude == b.longitude ∧ a.probability == b.probability := by
  simp only [sameContent, Bool.and_eq_true] at h
  obtain ⟨⟨⟨⟨-, hlatitude⟩, hlongitude⟩, -⟩, hprobability⟩ := h.1
  exact ⟨hlatitude, hlongitude, hprobability⟩

/-- All but three of the fields are compared as they are. -/
theorem eq_of_sameContent (h : a.sameContent b) (hlatitude : a.latitude = b.latitude)
    (hlongitude : a.longitude = b.longitude) (hprobability : a.probability = b.probability) :
    a = b := by
  simp only [sameContent, Bool.and_eq_true, beq_iff_eq] at h
  obtain ⟨⟨⟨⟨⟨⟨⟨hkey, hfamily⟩, hformat⟩, -⟩, -⟩, hmetro⟩, -⟩, hrequests⟩ := h
  cases a
  cases b
  simp_all

/-- The bytes of an entry determine its row. -/
theorem toJson_eq_of_encode (h : a.encode = b.encode) : a.toRow.toJson = b.toRow.toJson := by
  have hread : Json.read? (Json.symbols a.encode) = some a.toRow.toJson :=
    Json.read?_write (Row.wf_toJson a.toRow)
  rw [h] at hread
  exact Option.some.inj (hread.symm.trans (Json.read?_write (Row.wf_toJson b.toRow)))

theorem coordinate_eq {x y : Option Float} (hx : ∀ z, x = some z → z.isFinite)
    (hy : ∀ z, y = some z → z.isFinite) (h : coordinateText x = coordinateText y) : x = y := by
  have hread := readCoordinate_text .latitude hx
  rw [h, readCoordinate_text .latitude hy] at hread
  exact (Except.ok.inj hread).symm

/-- **Entries of one content are written in one form only if they are one entry**: the form has
    the sign of a zero. -/
theorem encode_eq_iff (ha : a.Valid) (hb : b.Valid) (h : a.sameContent b) :
    a.encode = b.encode ↔ a = b := by
  refine ⟨fun hencode => ?_, fun heq => heq ▸ rfl⟩
  have hjson := toJson_eq_of_encode hencode
  simp only [Row.toJson, Json.fields, Json.text, Json.float, Json.number, List.map_cons,
    List.map_nil, Tree.object.injEq, List.cons.injEq, Prod.mk.injEq, Tree.scalar.injEq,
    Json.Scalar.string.injEq, Json.Scalar.number.injEq, Option.some.injEq, true_and, and_true]
    at hjson
  obtain ⟨-, -, hlatitude, hlongitude, -, -, -, hprobability, -⟩ := hjson
  have hsign : signBit a.probability = signBit b.probability := by
    have hnegative := congrArg Numeral.negative hprobability
    rwa [negative_ofFloat, negative_ofFloat] at hnegative
  refine eq_of_sameContent h (coordinate_eq ha.latitude hb.latitude hlatitude)
    (coordinate_eq ha.longitude hb.longitude hlongitude)
    (eq_of_beq_of_sign (beq_of_sameContent h).2.2 ?_)
  rw [sign, sign, hsign]

/-- No double of the entry is a zero with a minus sign. -/
structure Unsigned (e : Entry) : Prop where
  latitude : e.latitude ≠ some (-0.0)
  longitude : e.longitude ≠ some (-0.0)
  probability : e.probability ≠ -0.0

/-- Of entries without negative zeros the content is all there is. -/
theorem Unsigned.eq_of_sameContent (ha : a.Unsigned) (hb : b.Unsigned) (h : a.sameContent b) :
    a = b := by
  obtain ⟨hlatitude, hlongitude, hprobability⟩ := beq_of_sameContent h
  exact Entry.eq_of_sameContent h (option_eq_of_beq hlatitude ha.latitude hb.latitude)
    (option_eq_of_beq hlongitude ha.longitude hb.longitude)
    (eq_of_beq hprobability ha.probability hb.probability)

end Entry

namespace Snapshot

/-- What a snapshot has under a key, in the form in which it is written. -/
def Holds (s : Snapshot) (key : String) (content : Option ByteArray) : Prop :=
  ∃ e ∈ s.entries, e.key.render = key ∧ content = some e.encode

instance (s : Snapshot) (key : String) (content : Option ByteArray) :
    Decidable (s.Holds key content) :=
  inferInstanceAs (Decidable (∃ e ∈ s.entries, _))

variable {s : Snapshot} {key : String} {content content' : Option ByteArray}

theorem Holds.eq (hs : s.Valid) (h : s.Holds key content) (h' : s.Holds key content') :
    content = content' := by
  obtain ⟨e, he, rfl, rfl⟩ := h
  obtain ⟨e', he', hkey, rfl⟩ := h'
  rw [eq_of_render_eq hs he' he hkey]

end Snapshot

namespace Diff

/-- An entry that counts as unchanged has the content of one that is remembered. -/
theorem exists_before_of_unchanged {published : Snapshot} {e : Entry}
    (h : changeOf published e = .unchanged) :
    ∃ before ∈ published.entries, before.key = e.key ∧ before.sameContent e := by
  unfold changeOf at h
  split at h
  · cases h
  · next before hbefore =>
    split at h
    · next hsame =>
      exact ⟨before, List.mem_of_find?_eq_some hbefore,
        by simpa using List.find?_some hbefore, hsame⟩
    · cases h

end Diff

/-! ## Publications -/

namespace Publication

variable {p : Publication} {w : Write} {ok : Bool}

/-- A change ends one task at most. -/
theorem mem_tasks_advance {task first : Task} {rest : List Task} (htasks : p.tasks = first :: rest)
    (h : task ∈ rest) : task ∈ (p.advance w ok).tasks := by
  have hsettle (ok : Bool) : (p.settle ok).tasks = rest := by
    simp [settle, htasks]
  cases hhalf : p.half with
  | some half => rwa [advance_of_some htasks hhalf, hsettle]
  | none =>
    rw [advance_of_none htasks hhalf]
    split
    · exact htasks ▸ List.mem_cons_of_mem first h
    · rwa [hsettle]

/-- When all tasks are over, both backends show every entry that is not among the failures. -/
theorem Sound.shows_of_not_failed {b : Backends} {cycle : UInt64} {done : List Task} {e : Entry}
    (h : p.Sound cycle b done) (left : p.tasks = []) (he : e ∈ p.snapshot.entries)
    (hfailed : e.key.render ∉ p.failed) (backend : Backend) :
    b.Shows backend e.key.render (some e.encode) := by
  have hdone : Task.entry e ∈ done := by
    have hwhole := h.plan
    rw [left, List.append_nil] at hwhole
    exact hwhole ▸ mem_whole_entry_iff.mpr he
  obtain hnoted | ⟨time, hshows⟩ := h.settled _ hdone
  · exact absurd hnoted.1 hfailed
  · exact hshows backend

end Publication

/-! ## Doubted keys -/

namespace RateTable

variable {t t' : RateTable} {e : Event} {doubted : List String}

/-- The change that is asked for in an event. -/
def asked? (t : RateTable) (e : Event) : Option Write :=
  e.askedAt?.bind t.nextWrite?

theorem asked?_wrote {p : Publication} {time : UInt64} {w : Write}
    (running : t.synchronizer.running = some (.publishing p))
    (next : p.next? t.synchronizer.cycles time = some w) (verdict : Verdict) :
    t.asked? (.wrote time verdict) = some w := by
  simp [asked?, Event.askedAt?, nextWrite?, running, next]

/-- Nothing happens to the backends but what is asked for. -/
theorem tried_of_asked (t : RateTable) (e : Event) :
    t.asked? e = none ∧ (t.step e).2.backends = t.backends ∨
      ∃ w, t.asked? e = some w ∧ t.backends.Tried w (t.step e).2.backends := by
  have hland (onItsWay : Option UInt64) :
      onItsWay.bind t.nextWrite? = none ∧ (t.land onItsWay).backends = t.backends ∨
        ∃ w, onItsWay.bind t.nextWrite? = some w ∧
          t.backends.Tried w (t.land onItsWay).backends := by
    rw [land]
    cases hasked : onItsWay.bind t.nextWrite? with
    | none => exact .inl ⟨rfl, rfl⟩
    | some w => exact .inr ⟨w, rfl, t.backends.tried_apply w⟩
  have htransition := transition_step t e
  generalize (t.step e).1 = result, (t.step e).2 = t' at htransition ⊢
  cases htransition with
  | ignored e =>
    cases hasked : t.asked? e with
    | none => exact .inl ⟨rfl, rfl⟩
    | some w => exact .inr ⟨w, rfl, .refl w⟩
  | @advanced p p' time verdict w l running next =>
    exact .inr ⟨w, asked?_wrote running next verdict, t.backends.tried_write w verdict⟩
  | @concluded p p' time verdict w l running next =>
    exact .inr ⟨w, asked?_wrote running next verdict, t.backends.tried_write w verdict⟩
  | expired => exact hland _
  | dropped => exact hland _
  | _ => exact .inl ⟨rfl, rfl⟩

/-- The key under which something else than what was published is asked for. -/
def overwritten? (t : RateTable) (e : Event) : Option String :=
  match t.asked? e with
  | some w => if t.synchronizer.published.Holds w.key w.content then none else some w.key
  | none => none

theorem holds_of_asked? {w : Write} (hasked : t.asked? e = some w)
    (hkey : w.key ∉ (t.overwritten? e).toList) :
    t.synchronizer.published.Holds w.key w.content := by
  by_contra hnot
  simp [overwritten?, hasked, hnot] at hkey

/-- The keys that are to be doubted after an event with a result. -/
def doubtsAfter (t : RateTable) (doubted : List String) (e : Event) (result : Option CycleResult) :
    List String :=
  let doubted := (t.overwritten? e).toList ++ doubted
  match result with
  | some (.ok _) => []
  | some (.error (.partialPublish failed _)) => doubted.filter failed.contains
  | _ => doubted

/-- The keys that are in doubt at the end of a run. -/
def doubtsFrom (t : RateTable) (doubted : List String) : List Event → List String
  | [] => doubted
  | e :: rest => (t.step e).2.doubtsFrom (t.doubtsAfter doubted e (t.step e).1) rest

/-- The keys under which the backends may hold something else than what is remembered as published,
    after a run of a synchronizer that has published nothing before. -/
def doubts (t : RateTable) (history : List Event) : List String :=
  t.doubtsFrom [] history

/-! ## The invariant -/

/-- Apart from the doubted keys, both backends hold what is remembered. And while a publication
    runs, an entry whose task is over is doubted or was remembered in the same form. -/
structure Current (doubted : List String) (t : RateTable) : Prop where
  valid : t.synchronizer.published.Valid
  shows : ∀ key content, t.synchronizer.published.Holds key content → key ∉ doubted →
    ∀ backend, t.backends.Shows backend key content
  tried : ∀ p, t.synchronizer.running = some (.publishing p) → ∀ e ∈ p.snapshot.entries,
    Task.entry e ∉ p.tasks → e.key.render ∉ doubted →
      t.synchronizer.published.Holds e.key.render (some e.encode)

theorem current_of_empty (idle : t.synchronizer.running = none)
    (hempty : t.synchronizer.published = .empty) :
    t.Current [] where
  valid e he := by
    rw [hempty] at he
    cases he
  shows key content hholds := by
    rw [hempty] at hholds
    obtain ⟨e, he, -⟩ := hholds
    cases he
  tried p hr := by
    rw [idle] at hr
    cases hr

/-- What is remembered is still shown after an event, unless something else was asked for. -/
theorem Current.shows_step (h : t.Current doubted) (e : Event) {key : String}
    {content : Option ByteArray} (hholds : t.synchronizer.published.Holds key content)
    (hkey : key ∉ (t.overwritten? e).toList ++ doubted) (backend : Backend) :
    (t.step e).2.backends.Shows backend key content := by
  rw [List.mem_append, not_or] at hkey
  have hshows := h.shows key content hholds hkey.2
  obtain ⟨-, hsame⟩ | ⟨w, hasked, tried⟩ := t.tried_of_asked e
  · rw [hsame]
    exact hshows backend
  · by_cases hown : backend = w.backend ∧ key = w.key
    · obtain ⟨rfl, rfl⟩ := hown
      rw [hholds.eq h.valid (holds_of_asked? hasked hkey.1)] at hshows ⊢
      exact tried.own.elim (fun hsame => hsame.shows (hshows _)) id
    · exact (tried.other backend key hown).shows (hshows backend)

/-- The entry whose task is over with a change was asked for by this change. -/
theorem Current.tried_advance {p : Publication} {done : List Task} {w : Write} {time : UInt64}
    (h : t.Current doubted) (ok : Bool) (sound : p.Sound t.synchronizer.cycles t.backends done)
    (running : t.synchronizer.running = some (.publishing p))
    (next : p.next? t.synchronizer.cycles time = some w) (verdict : Verdict) :
    ∀ e ∈ (p.advance w ok).snapshot.entries, Task.entry e ∉ (p.advance w ok).tasks →
      e.key.render ∉ (t.overwritten? (.wrote time verdict)).toList ++ doubted →
      t.synchronizer.published.Holds e.key.render (some e.encode) := by
  intro e he hover hkey
  rw [List.mem_append, not_or] at hkey
  rw [(p.advance_fixed w ok).1] at he
  by_cases hbefore : Task.entry e ∈ p.tasks
  · obtain ⟨task, rest, time', htasks, hwkey, hwcontent⟩ := sound.next?_spec next
    rw [htasks] at hbefore
    obtain rfl | hrest := List.mem_cons.mp hbefore
    · have hholds := holds_of_asked? (asked?_wrote running next verdict) (hwkey ▸ hkey.1)
      rwa [hwkey, hwcontent] at hholds
    · exact absurd (Publication.mem_tasks_advance htasks hrest) hover
  · exact h.tried p running e he hbefore hkey.2

/-- What a publication leaves behind that has come to its end: an entry that failed is shown, too,
    if it was only put again in the form that it had. -/
theorem Current.conclude {p p' : Publication} {time : UInt64} {verdict : Verdict} {w : Write}
    {ledger : Ledger} (h : t.Current doubted) (working : t.Working)
    (hshows : ∀ {key content}, t.synchronizer.published.Holds key content →
      key ∉ (t.overwritten? (.wrote time verdict)).toList ++ doubted →
      ∀ backend, (t.backends.write w verdict).2.Shows backend key content)
    (running : t.synchronizer.running = some (.publishing p))
    (next : p.next? t.synchronizer.cycles time = some w)
    (advance : p' = p.advance w (t.backends.write w verdict).1.isOk) (left : p'.tasks = []) :
    Current (t.doubtsAfter doubted (.wrote time verdict) (some (p'.result t.synchronizer.cycles)))
      ⟨(t.backends.write w verdict).2,
        (t.synchronizer.conclude p').finish (p'.result t.synchronizer.cycles), ledger⟩ := by
  obtain ⟨done, sound⟩ := working.sound p running
  obtain ⟨done', sound'⟩ :=
    sound.advance next (t.backends.tried_write w verdict) Backends.shows_of_ok
  have htried := h.tried_advance (t.backends.write w verdict).1.isOk sound running next verdict
  rw [← advance] at sound' htried
  refine ⟨sound'.formed.valid, ?_, nofun⟩
  rintro _ _ ⟨e, he, rfl, rfl⟩ hkey backend
  by_cases hfailed : e.key.render ∈ p'.failed
  · have hresult : p'.result t.synchronizer.cycles =
        .error (.partialPublish p'.failed p'.attempted) :=
      if_neg (by simpa using List.ne_nil_of_mem hfailed)
    rw [hresult, doubtsAfter, List.mem_filter, List.contains_iff_mem] at hkey
    have hundoubted : e.key.render ∉ (t.overwritten? (.wrote time verdict)).toList ++ doubted :=
      fun hmem => hkey ⟨hmem, hfailed⟩
    exact hshows (htried e he (by simp [left]) hundoubted) hundoubted backend
  · exact sound'.shows_of_not_failed left he hfailed backend

/-- **Apart from the doubted keys, the backends hold what is remembered**, whatever happens. -/
theorem Current.step (h : t.Current doubted) (working : t.Working) (e : Event) :
    (t.step e).2.Current (t.doubtsAfter doubted e (t.step e).1) := by
  have hshows {key : String} {content : Option ByteArray}
      (hholds : t.synchronizer.published.Holds key content) := h.shows_step e hholds
  have htransition := transition_step t e
  generalize (t.step e).1 = result, (t.step e).2 = t' at htransition hshows ⊢
  have htried : ∀ p, t.synchronizer.running = some (.publishing p) → ∀ e' ∈ p.snapshot.entries,
      Task.entry e' ∉ p.tasks → e'.key.render ∉ (t.overwritten? e).toList ++ doubted →
        t.synchronizer.published.Holds e'.key.render (some e'.encode) :=
    fun p hr e' he hover hkey => h.tried p hr e' he hover fun hmem =>
      hkey (List.mem_append_right _ hmem)
  cases htransition with
  | ignored e => exact ⟨h.valid, fun _ _ => hshows, htried⟩
  | refused running => exact ⟨h.valid, fun _ _ => hshows, htried⟩
  | begun idle => exact ⟨h.valid, fun _ _ => hshows, nofun⟩
  | notFetched running => exact ⟨h.valid, fun _ _ => hshows, nofun⟩
  | fetched running => exact ⟨h.valid, fun _ _ => hshows, nofun⟩
  | listed running =>
    refine ⟨h.valid, fun _ _ => hshows, ?_⟩
    rintro p hr e' he hover
    cases hr
    exact absurd (Publication.mem_whole_entry_iff.mpr he) hover
  | advanced running next advance left =>
    refine ⟨h.valid, fun _ _ => hshows, ?_⟩
    rintro p₁ hr
    cases hr
    obtain ⟨done, sound⟩ := working.sound _ running
    rw [advance]
    exact h.tried_advance _ sound running next _
  | concluded running next advance left => exact h.conclude working hshows running next advance left
  | expired running => exact ⟨h.valid, fun _ _ => hshows, nofun⟩
  | dropped => exact ⟨h.valid, fun _ _ => hshows, nofun⟩

/-- A run leaves everything current but the keys that are in doubt. -/
theorem Current.run (h : t.Current doubted) (working : t.Working) (history : List Event) :
    (t.run history).2.Current (t.doubtsFrom doubted history) := by
  induction history generalizing t doubted with
  | nil => exact h
  | cons e rest ih => exact ih (h.step working e) (working_step working e)

/-! ## Cycles that succeed -/

variable {rows : List Row} {listing : Verdict} {writes : List (UInt64 × Verdict)}
  {report : CycleReport}

theorem doubtsFrom_writing_of_idle (idle : t.synchronizer.running = none)
    (writes : List (UInt64 × Verdict)) : t.doubtsFrom doubted (writing writes) = doubted := by
  induction writes with
  | nil => rfl
  | cons w rest ih =>
    have hstep : t.step (.wrote w.1 w.2) = (none, t) := by
      simp [RateTable.step, wrote, idle]
    have hasked : t.asked? (.wrote w.1 w.2) = none := by
      simp [asked?, Event.askedAt?, nextWrite?, idle]
    have hafter : t.doubtsAfter doubted (.wrote w.1 w.2) none = doubted := by
      simp [doubtsAfter, overwritten?, hasked]
    change (t.step (.wrote w.1 w.2)).2.doubtsFrom (t.doubtsAfter doubted (.wrote w.1 w.2)
      (t.step (.wrote w.1 w.2)).1) (writing rest) = doubted
    rw [hstep, hafter, ih]

theorem idle_of_step_wrote {time : UInt64} {verdict : Verdict} {result : CycleResult}
    (h : (t.step (.wrote time verdict)).1 = some result) :
    (t.step (.wrote time verdict)).2.synchronizer.running = none := by
  have htransition := transition_step t (.wrote time verdict)
  generalize (t.step (.wrote time verdict)).2 = t' at htransition ⊢
  rw [h] at htransition
  cases htransition
  rfl

/-- Writes that end in a report leave nothing in doubt. -/
theorem doubtsFrom_writing (hrun : t.run (writing writes) = ([.ok report], t')) :
    t.doubtsFrom doubted (writing writes) = [] := by
  induction writes generalizing t doubted with
  | nil => cases hrun
  | cons w rest ih =>
    change t.run (.wrote w.1 w.2 :: writing rest) = _ at hrun
    change (t.step (.wrote w.1 w.2)).2.doubtsFrom (t.doubtsAfter doubted (.wrote w.1 w.2)
      (t.step (.wrote w.1 w.2)).1) (writing rest) = []
    simp only [RateTable.run, Prod.mk.injEq] at hrun
    cases hresult : (t.step (.wrote w.1 w.2)).1 with
    | none =>
      rw [hresult] at hrun
      exact ih (Prod.ext hrun.1 hrun.2)
    | some result =>
      -- with its result the cycle is over
      rw [hresult] at hrun
      obtain ⟨rfl, -⟩ := List.cons.inj hrun.1
      exact doubtsFrom_writing_of_idle (idle_of_step_wrote hresult) rest

/-- **A cycle that succeeds leaves nothing to doubt**, whatever was doubted before it. -/
theorem doubtsFrom_aCycle (hrun : t.run (aCycle rows listing writes) = ([.ok report], t')) :
    t.doubtsFrom doubted (aCycle rows listing writes) = [] := by
  rw [run_aCycle (idle_of_run_aCycle hrun)] at hrun
  exact doubtsFrom_writing hrun

/-- **What counts as unchanged is unchanged, unless its key is to be doubted.** A cycle that
    succeeds, whatever happened before it, counts the entries that have the content of what is
    remembered, and writes their forms. An entry among them whose key is not doubted was in both
    backends before, with this content; and in this form exactly if it is the entry that is
    remembered, as it is unless a zero has changed its sign. -/
theorem unchanged_of_undoubted (idle : t.synchronizer.running = none)
    (hempty : t.synchronizer.published = .empty) (history : List Event)
    (hrun : (t.run history).2.run (aCycle rows listing writes) = ([.ok report], t')) :
    report.unchanged = (Snapshot.ofRows rows).1.entries.countP
        (fun e => Diff.changeOf (t.run history).2.synchronizer.published e = .unchanged) ∧
      ∀ e ∈ (Snapshot.ofRows rows).1.entries,
        Diff.changeOf (t.run history).2.synchronizer.published e = .unchanged →
        (∀ backend, t'.backends.get backend e.key.render = .ok (some e.encode)) ∧
        (e.key.render ∉ t.doubts history → ∃ before : Entry, before.sameContent e ∧
          (∀ backend, (t.run history).2.backends.get backend e.key.render =
            .ok (some before.encode)) ∧
          ((∀ backend, (t.run history).2.backends.get backend e.key.render = .ok (some e.encode)) ↔
            before = e) ∧
          (before.Unsigned → e.Unsigned → before = e)) := by
  obtain ⟨⟨-, -, hcount, -⟩, -⟩ := reported_of_aCycle hrun rfl
  obtain ⟨m, -, hwritten, -⟩ := shows_of_aCycle hrun
  refine ⟨hcount, fun e he hunchanged =>
    ⟨fun backend => (hwritten e he backend).get, fun hundoubted => ?_⟩⟩
  have current := (current_of_empty idle hempty).run (working_of_idle idle) history
  obtain ⟨before, hbefore, hkey, hsame⟩ := Diff.exists_before_of_unchanged hunchanged
  have hshown := current.shows _ _ ⟨before, hbefore, congrArg Key.render hkey, rfl⟩ hundoubted
  have hencode :=
    Entry.encode_eq_iff (current.valid before hbefore) (Snapshot.valid_ofRows rows e he) hsame
  refine ⟨before, hsame, fun backend => (hshown backend).get, ?_,
    fun hb hu => hb.eq_of_sameContent hu hsame⟩
  constructor
  · intro hget
    have hboth := (hshown .store).get.symm.trans (hget .store)
    exact hencode.mp (Option.some.inj (Except.ok.inj hboth))
  · rintro rfl backend
    exact (hshown backend).get

/-- The row of the first target, at half its probability. -/
def halvedRow : Row :=
  { rowFor "10.0.0.1" with probability := 0.5 }

/-- The table in which the first target has been halved. -/
def halvedRows : List Row :=
  [halvedRow, rowFor "10.0.0.2"]

/-- Two entries are published. Then one is to be changed, which the store refuses, and the cache
    refuses to take the other one again. -/
def refusedHistory : List Event :=
  aCycle [rowFor "10.0.0.1", rowFor "10.0.0.2"] .passed (List.replicate 6 (9, .passed)) ++
    aCycle halvedRows .passed [(10, .refused (.unavailable "down")), (10, .passed),
      (10, .refused (.unavailable "down")), (10, .passed), (10, .passed)]

/-- A table after a cycle that was refused the change of one entry. -/
def refusedTable : RateTable :=
  ((blank .zero).run refusedHistory).2

/-- The table after a cycle that tries again. -/
def retriedTable : RateTable :=
  (refusedTable.run (aCycle halvedRows .passed (List.replicate 6 (11, .passed)))).2

theorem run_refusedTable :
    refusedTable.run (aCycle halvedRows .passed (List.replicate 6 (11, .passed))) =
      ([.ok { cycle := 3, rowsFetched := 2, rejected := 0, new := 0, changed := 0, unchanged := 2
              evicted := 0 }], retriedTable) :=
  Prod.ext (eq_of_map_toOption (by decide +kernel)) rfl

/-- The entry that was refused is to be doubted, and the other one is not, though it failed, too. -/
theorem unchanged_of_undoubted_refusedTable :
    (blank .zero).doubts refusedHistory = ["#ndt##10.0.0.1"] ∧
      ∃ e ∈ (Snapshot.ofRows halvedRows).1.entries, e.key.render = "#ndt##10.0.0.2" ∧
        ∃ before : Entry, before.sameContent e ∧
          ∀ backend, refusedTable.backends.get backend e.key.render = .ok (some before.encode) := by
  have hdoubts : (blank .zero).doubts refusedHistory = ["#ndt##10.0.0.1"] := by decide +kernel
  obtain ⟨-, hentries⟩ :=
    unchanged_of_undoubted (t := blank .zero) rfl rfl refusedHistory run_refusedTable
  obtain ⟨e, he, hkey, hunchanged⟩ : ∃ e ∈ (Snapshot.ofRows halvedRows).1.entries,
      e.key.render = "#ndt##10.0.0.2" ∧
        Diff.changeOf refusedTable.synchronizer.published e = .unchanged := by
    decide +kernel
  obtain ⟨before, hsame, hshown, -⟩ := (hentries e he hunchanged).2 (by rw [hdoubts, hkey]; decide)
  exact ⟨hdoubts, e, he, hkey, before, hsame, hshown⟩

/-- The entry that was refused counts as unchanged in the next cycle, which is the
    first one to write it. -/
theorem unchanged_refused :
    refusedTable.run (aCycle halvedRows .passed (List.replicate 6 (11, .passed))) =
        ([.ok { cycle := 3, rowsFetched := 2, rejected := 0, new := 0, changed := 0, unchanged := 2
                evicted := 0 }], retriedTable) ∧
      ∃ e ∈ (Snapshot.ofRows halvedRows).1.entries,
        Diff.changeOf refusedTable.synchronizer.published e = .unchanged ∧
        (∀ backend, retriedTable.backends.get backend e.key.render = .ok (some e.encode)) ∧
        ∀ backend, refusedTable.backends.get backend e.key.render ≠ .ok (some e.encode) := by
  obtain ⟨m, -, hwritten, -⟩ := shows_of_aCycle run_refusedTable
  obtain ⟨e, he, hunchanged, hstore, hcache⟩ : ∃ e ∈ (Snapshot.ofRows halvedRows).1.entries,
      Diff.changeOf refusedTable.synchronizer.published e = .unchanged ∧
      (refusedTable.backends.get .store e.key.render).toOption ≠ some (some e.encode) ∧
      (refusedTable.backends.get .cache e.key.render).toOption ≠ some (some e.encode) := by
    decide +kernel
  refine ⟨run_refusedTable, e, he, hunchanged, fun backend => (hwritten e he backend).get,
    fun backend hget => ?_⟩
  cases backend with
  | store => exact hstore (by rw [hget]; rfl)
  | cache => exact hcache (by rw [hget]; rfl)

end RateTable

end Roster
