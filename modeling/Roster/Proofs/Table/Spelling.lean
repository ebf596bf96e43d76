import Roster.Proofs.Table.Entry
import Roster.Proofs.Table.Key

/-!
# No two keys are spelled alike

A faultless key is read back from its written form. What is asked here is the rest: what becomes of
the written form of a key with a fault, and whether it can be taken for another key. It cannot, and
the reason is a number. A written form has three separators of its own (`count_separator_render`)
and those of the parts, so that one that is read at all, which takes exactly three, comes from parts
without any. Those are then found where they were put (`eq_of_parse?_render`).
-/

namespace Roster

namespace Key

variable {k k' : Key}

theorem parts_injective (h : k.parts = k'.parts) : k = k' := by
  obtain ⟨requester, path, policy, target⟩ := k
  obtain ⟨requester', path', policy', target'⟩ := k'
  simp only [parts, List.cons.injEq, String.toList_inj, and_true] at h
  obtain ⟨rfl, rfl, rfl, rfl⟩ := h
  rfl

/-- The separators of a key without faults are between its parts. -/
theorem splitOn_render (h : ∀ part ∈ k.parts, separator ∉ part) :
    k.render.toList.splitOn separator = k.parts := by
  rw [toList_render]
  exact List.splitOn_intercalate separator h (by simp [parts])

/-- The separators of a written key are three and those of its parts. -/
theorem count_separator_render (k : Key) :
    k.render.toList.count separator =
      k.requester.toList.count separator + k.path.toList.count separator +
        k.policy.toList.count separator +
        k.target.toList.count separator + 3 := by
  rw [toList_render]
  simp [parts]
  omega

/-- A written key has no more separators than it needs exactly if there is none in its parts. -/
theorem count_separator_eq_iff :
    k.render.toList.count separator = 3 ↔ ∀ part ∈ k.parts, separator ∉ part := by
  rw [count_separator_render]
  simp only [parts, List.forall_mem_cons, ← List.count_eq_zero]
  constructor
  · intro h
    exact ⟨by omega, by omega, by omega, by omega, fun _ hnone => absurd hnone List.not_mem_nil⟩
  · rintro ⟨hrequester, hpath, hpolicy, htarget, -⟩
    omega

/-- **The written form of a key is that of no faultless key but itself.** -/
theorem eq_of_render_eq (h : k'.fault? = none) (heq : k.render = k'.render) : k = k' := by
  have hparts' := separator_not_mem_parts h
  -- the one has as many separators as the other, which is as few as can be
  have hparts : ∀ part ∈ k.parts, separator ∉ part := by
    rw [← count_separator_eq_iff, heq]
    exact count_separator_eq_iff.mpr hparts'
  apply parts_injective
  calc
    k.parts = k.render.toList.splitOn separator := (splitOn_render hparts).symm
    _ = k'.render.toList.splitOn separator := by rw [heq]
    _ = k'.parts := splitOn_render hparts'

/-- What is read from a written key is that key. -/
theorem eq_of_parse?_render (h : parse? k.render = some k') : k' = k := by
  obtain ⟨hfault, heq⟩ := parse?_eq_some_iff.mp h
  exact (eq_of_render_eq hfault heq.symm).symm

/-- A key is read back if and only if it has no fault. -/
theorem parse?_render_iff : parse? k.render = some k ↔ k.fault? = none := by
  rw [parse?_eq_some_iff, and_iff_left rfl]

/-- A key whose written form is not read as the key cannot be read at all. -/
theorem parse?_render_eq_none (h : k.fault? ≠ none) : parse? k.render = none := by
  cases hparse : parse? k.render with
  | none => rfl
  | some k' =>
    obtain rfl := eq_of_parse?_render hparse
    exact absurd (parse?_render_iff.mp hparse) h

/-- **A key and its written form stand for each other.** What is read as a key is its written form.
    A key is read back exactly if none of its parts has the separator in it and the path and the
    target are not empty, and if it is not read back, nothing is. The keys of two accepted rows are
    written alike only if they are the same. The manifest's name is the written form of no key,
    whatever its parts are. -/
theorem spelled_uniquely :
    (∀ text k, parse? text = some k → k.render = text) ∧
    (∀ k : Key,
      let spelled :=
        '#' ∉ k.requester.toList ∧ '#' ∉ k.path.toList ∧ '#' ∉ k.policy.toList ∧
          '#' ∉ k.target.toList ∧ k.path ≠ "" ∧ k.target ≠ ""
      (parse? k.render = some k ↔ spelled) ∧ (¬ spelled → parse? k.render = none)) ∧
    (∀ row row' e e', Entry.ofRow row = .ok e → Entry.ofRow row' = .ok e' →
      e.key.render = e'.key.render → e.key = e'.key) ∧
    ∀ k : Key, k.render ≠ Manifest.name := by
  refine ⟨fun text k h => (parse?_eq_some_iff.mp h).2, ?_, ?_, render_ne_name⟩
  · intro k spelled
    have hspelled : k.fault? = none ↔ spelled := by
      rw [fault?_eq_none_iff]
      simp [parts, spelled, separator, and_assoc]
    exact ⟨parse?_render_iff.trans hspelled, fun h => parse?_render_eq_none (mt hspelled.mp h)⟩
  · intro row row' e e' _ h' heq
    exact eq_of_render_eq (Entry.valid_of_ofRow h').key heq

/-- A row without a requester and a policy, in which nothing is wrong. -/
def sparseRow (probability : Float) : Row :=
  { path := "ndt", target := "10.0.0.1", probability, requestsPerDay := 1 }

theorem exists_ofRow_sparseRow (probability : Float) (h : 0.0 ≤ probability ∧ probability ≤ 1.0) :
    ∃ e, Entry.ofRow (sparseRow probability) = .ok e ∧ e.key = ⟨"", "ndt", "", "10.0.0.1"⟩ := by
  have hkey : fault? ⟨"", "ndt", "", "10.0.0.1"⟩ = none := by decide
  simp only [Entry.ofRow_eq_ok_iff, Entry.check_eq_ok_iff]
  exact ⟨_, ⟨hkey, h, Int.one_nonneg, none, none, none, rfl, rfl, rfl, rfl⟩, rfl⟩

/-- Two rows with one key, and a key that would be spelled with five parts. -/
theorem spelled_uniquely_of_sample :
    (parse? "#ndt##10.0.0.1" = some ⟨"", "ndt", "", "10.0.0.1"⟩ ∧
      render ⟨"", "ndt", "", "10.0.0.1"⟩ = "#ndt##10.0.0.1") ∧
    parse? (render ⟨"", "ndt", "a#b", "10.0.0.1"⟩) = none ∧
    ∃ e e', Entry.ofRow (sparseRow 0.5) = .ok e ∧ Entry.ofRow (sparseRow 1.0) = .ok e' ∧
      e.key.render = e'.key.render ∧ e.key = e'.key := by
  obtain ⟨hread, hspelled, hrows, -⟩ := spelled_uniquely
  have hparse : parse? "#ndt##10.0.0.1" = some ⟨"", "ndt", "", "10.0.0.1"⟩ := by decide +kernel
  obtain ⟨e, he, hkey⟩ := exists_ofRow_sparseRow 0.5 (by decide)
  obtain ⟨e', he', hkey'⟩ := exists_ofRow_sparseRow 1.0 (by decide)
  have heq : e.key.render = e'.key.render := by rw [hkey, hkey']
  refine ⟨⟨hparse, hread _ _ hparse⟩, (hspelled ⟨"", "ndt", "a#b", "10.0.0.1"⟩).2 (by decide), ?_⟩
  exact ⟨e, e', he, he', heq, hrows _ _ e e' he he' heq⟩

end Key

end Roster
