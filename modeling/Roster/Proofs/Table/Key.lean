import Roster.Table.Key
import Roster.Table.Manifest

/-!
# Keys and their written forms

A written key is its four parts with the separator between them, as a list operation: `intercalate`.
What `splitOn` says about `intercalate` then settles both directions of `parse?_eq_some_iff`, and
nothing here looks at characters. The separator is also what keeps the manifest's reserved name
apart from every key, faultless or not.
-/

namespace Roster.Key

/-- The parts of a key in the order in which they are written. -/
def parts (k : Key) : List (List Char) :=
  [k.requester.toList, k.path.toList, k.policy.toList, k.target.toList]

variable {k : Key} {text : String}

/-- A key is rendered as its parts with separators between them. -/
theorem toList_render (k : Key) : k.render.toList = [separator].intercalate k.parts := by
  simp [render, parts, separator]

/-- No key is rendered as the name of the manifest. -/
theorem render_ne_name (k : Key) : k.render ≠ Manifest.name := by
  intro h
  -- A written key has three separators even where its parts are empty, and the name has none.
  have hmem : separator ∈ k.render.toList := by
    rw [toList_render]
    simp [parts]
  rw [h] at hmem
  exact absurd hmem (by decide)

theorem render_ne_empty (k : Key) : k.render ≠ "" := by
  intro h
  have hlist := toList_render k
  rw [h] at hlist
  simp [parts] at hlist

/-! ## Faults -/

theorem separator_not_mem_parts (h : k.fault? = none) : ∀ part ∈ k.parts, separator ∉ part := by
  unfold fault? at h
  split at h
  · cases h
  · next hfind =>
    simp only [List.find?_eq_none, decide_eq_true_eq] at hfind
    simpa [parts, get] using hfind

/-- A key has no fault if and only if no part has a separator in it, and the path and the target are
    not empty. -/
theorem fault?_eq_none_iff :
    k.fault? = none ↔ (∀ part ∈ k.parts, separator ∉ part) ∧ k.path ≠ "" ∧ k.target ≠ "" := by
  constructor
  · intro h
    refine ⟨separator_not_mem_parts h, ?_⟩
    unfold fault? at h
    split at h
    · cases h
    · grind
  · rintro ⟨hparts, hpath, htarget⟩
    have hfind : ([Part.requester, .path, .policy, .target].find?
        fun p => separator ∈ (k.get p).toList) = none := by
      simp only [List.find?_eq_none, decide_eq_true_eq]
      simpa [parts, get] using hparts
    rw [fault?, hfind]
    simp [hpath, htarget]

/-- That a key has a fault. It may have others too. -/
def Has (k : Key) : Fault → Prop
  | .separatorIn part => separator ∈ (k.get part).toList
  | .emptyPath => k.path = ""
  | .emptyTarget => k.target = ""

/-- A key has the fault that is found of it. -/
theorem has_of_fault? {fault : Fault} (h : k.fault? = some fault) : k.Has fault := by
  unfold fault? at h
  split at h
  · next part hfind =>
    cases h
    have hmem := List.find?_some hfind
    rw [decide_eq_true_iff] at hmem
    exact hmem
  · split at h
    · next hpath =>
      cases h
      exact hpath
    · split at h
      · next htarget =>
        cases h
        exact htarget
      · cases h

/-! ## Reading back -/

/-- **A text is read as a key exactly if it is the written form of that key and the
    key has no fault.** -/
theorem parse?_eq_some_iff : parse? text = some k ↔ k.fault? = none ∧ k.render = text := by
  constructor
  · intro h
    unfold parse? at h
    split at h
    · next requester path policy target hsplit =>
      dsimp only at h
      split at h
      · next hfault =>
        cases h
        refine ⟨by simpa using hfault, ?_⟩
        -- The parts of a text make it up again, with nothing in between but separators.
        have hjoin : [separator].intercalate (text.toList.splitOn separator) = text.toList :=
          List.intercalate_splitOn separator
        apply String.ext
        rw [toList_render, ← hjoin, hsplit]
        simp [parts]
      · cases h
    · cases h
  · rintro ⟨hfault, rfl⟩
    have hsplit : k.render.toList.splitOn separator = k.parts := by
      rw [toList_render]
      exact List.splitOn_intercalate separator (separator_not_mem_parts hfault) (by simp [parts])
    rw [parse?, hsplit]
    simp [parts, hfault]

theorem parse?_render (h : k.fault? = none) : parse? k.render = some k :=
  parse?_eq_some_iff.mpr ⟨h, rfl⟩

/-- Keys without faults are told apart by how they are rendered. -/
theorem render_injective {a b : Key} (ha : a.fault? = none) (hb : b.fault? = none)
    (h : a.render = b.render) : a = b := by
  have hparse := parse?_render ha
  rw [h, parse?_render hb] at hparse
  exact (Option.some.inj hparse).symm

end Roster.Key
