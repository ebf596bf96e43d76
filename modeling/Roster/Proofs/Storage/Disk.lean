import Roster.Storage.Disk

/-!
# What a change at one place leaves alone

A folder of records is changed one file at a time, and everything that is asked about one of its
files comes down to two questions: whether the folder can be reached, and what stands at the file's
own place. So the lemmas here are about siblings, places that differ in their last name: a walk to
one of them never looks at another.
-/

namespace Roster.Disk

variable {d : Disk} {p q : Place} {n : Node}

/-! ## Single places -/

theorem lookup_filter_ne (nodes : List (Place × Node)) (p q : Place) :
    (nodes.filter fun item => item.1 ≠ p).lookup q = if q = p then none else nodes.lookup q := by
  induction nodes with
  | nil => simp
  | cons item rest ih =>
    obtain ⟨k, v⟩ := item
    by_cases hk : k = p
    -- The first item goes, so at `p` the list answers `none`, and nowhere else is it missed.
    · rw [List.filter_cons_of_neg (by simp [hk]), ih, List.lookup_cons]
      by_cases hq : q = p
      · rw [if_pos hq, if_pos hq]
      · rw [if_neg hq, if_neg hq, beq_eq_false_iff_ne.mpr (hk ▸ hq)]
    · rw [List.filter_cons_of_pos (by simp [hk]), List.lookup_cons, List.lookup_cons, ih]
      by_cases hq : q = k
      · subst hq
        simp [hk]
      · rw [beq_eq_false_iff_ne.mpr hq]

theorem node?_of_ne_nil (hp : p ≠ []) : d.node? p = d.nodes.lookup p := by
  cases p with
  | nil => exact absurd rfl hp
  | cons name rest => rfl

/-- Clearing a place empties that place alone. -/
theorem node?_clear (hp : p ≠ []) : (d.clear p).node? q = if q = p then none else d.node? q := by
  by_cases hq : q = []
  · subst hq
    rw [if_neg (Ne.symm hp)]
    rfl
  · rw [node?_of_ne_nil hq, node?_of_ne_nil hq, clear, lookup_filter_ne]

/-- Setting a place changes that place alone. -/
theorem node?_set (hp : p ≠ []) : (d.set p n).node? q = if q = p then some n else d.node? q := by
  by_cases hq : q = []
  · subst hq
    rw [if_neg (Ne.symm hp)]
    rfl
  · rw [node?_of_ne_nil hq, node?_of_ne_nil hq, set, List.lookup_cons, lookup_filter_ne]
    by_cases h : q = p
    · simp [h]
    · simp [h, beq_eq_false_iff_ne.mpr h]

/-- A place has a node if and only if one is listed for it. -/
theorem isSome_node?_iff (hp : p ≠ []) : (d.node? p).isSome ↔ ∃ n, (p, n) ∈ d.nodes := by
  rw [node?_of_ne_nil hp]
  induction d.nodes with
  | nil => simp
  | cons item rest ih =>
    obtain ⟨k, v⟩ := item
    by_cases h : p = k
    · subst h
      simp
    · simp [List.lookup_cons, beq_eq_false_iff_ne.mpr h, ih, h]

/-! ## Walks -/

/-- A walk looks only at places on its way. -/
theorem walk_congr {d' : Disk} : ∀ {names : List String} {p : Place},
    (∀ q, p <+: q → q <+: p ++ names → d'.node? q = d.node? q) → d'.walk p names = d.walk p names
  | [], p, h => by
    rw [walk, walk, h p (List.prefix_refl p) (by simp)]
  | name :: rest, p, h => by
    have here := h p (List.prefix_refl p) (List.prefix_append p _)
    -- All that the rest of the walk passes, this walk passes too.
    have below : d'.walk (p ++ [name]) rest = d.walk (p ++ [name]) rest :=
      walk_congr fun q hp hq =>
        h q ((List.prefix_append p [name]).trans hp) (by rwa [List.append_assoc] at hq)
    rw [walk, walk, here, below]

/-- The way to a place goes by the folder that it is in. -/
theorem walk_concat : ∀ {names : List String} {p : Place} {name : String},
    d.walk p (names ++ [name]) =
      match d.walk p names with
      | .error fault => .error fault
      | .ok none => .error .notFound
      | .ok (some .folder) =>
        if longestName < name.utf8ByteSize then .error .nameTooLong
        else .ok (d.node? (p ++ names ++ [name]))
      | .ok (some _) => .error .notADirectory
  | [], p, name => by
    simp only [List.nil_append, walk, List.append_nil]
    cases d.node? p with
    | none => rfl
    | some n => cases n <;> rfl
  | first :: rest, p, name => by
    simp only [List.cons_append, walk]
    cases d.node? p with
    | none => rfl
    | some n =>
      cases n with
      | folder =>
        by_cases long : longestName < first.utf8ByteSize
        · simp [long]
        · simp only [long, if_false]
          rw [walk_concat]
          simp [List.append_assoc]
      | text content => rfl
      | record key value => rfl
      | other => rfl

/-- Reaching a name in a folder is reaching the folder and looking. -/
theorem reach_concat {folder : Place} {name : String} :
    d.reach (folder ++ [name]) =
      match d.reach folder with
      | .error fault => .error fault
      | .ok none => .error .notFound
      | .ok (some .folder) =>
        if longestName < name.utf8ByteSize then .error .nameTooLong
        else .ok (d.node? (folder ++ [name]))
      | .ok (some _) => .error .notADirectory := by
  rw [reach, walk_concat]
  rfl

/-! ## Operations on a file in a folder -/

theorem openNode_concat {folder : Place} {name : String}
    (h : d.openNode (folder ++ [name]) = .ok n) :
    d.reach folder = .ok (some .folder) ∧ d.node? (folder ++ [name]) = some n := by
  rw [openNode, reach_concat] at h
  cases hr : d.reach folder with
  | error fault => rw [hr] at h; cases h
  | ok found =>
    rw [hr] at h
    cases found with
    | none => cases h
    | some node =>
      cases node with
      | folder =>
        by_cases long : longestName < name.utf8ByteSize
        · simp [long] at h
        · simp only [long, if_false] at h
          cases hn : d.node? (folder ++ [name]) with
          | none => simp [hn] at h
          | some found =>
            simp only [hn, Except.ok.injEq] at h
            exact ⟨rfl, by rw [h]⟩
      | text content => cases h
      | record key value => cases h
      | other => cases h

/-- A place that could be reached once can be reached as long as its folder can, and then it can be
    opened if something stands there. -/
theorem openNode_of_reach {folder : Place} {name : String} {found : Option Node} {d' : Disk}
    (h : d.reach (folder ++ [name]) = .ok found) (hr : d'.reach folder = d.reach folder) :
    d'.openNode (folder ++ [name]) =
      match d'.node? (folder ++ [name]) with
      | none => .error .notFound
      | some n => .ok n := by
  rw [reach_concat] at h
  rw [openNode, reach_concat, hr]
  split at h
  · cases h
  · cases h
  · split at h
    · cases h
    · next long =>
      simp only [if_neg long]
      cases d'.node? (folder ++ [name]) <;> rfl
  · cases h

/-- What is not found in a folder that is reached is not there. -/
theorem node?_of_openNode_notFound {folder : Place} {name : String}
    (h : d.openNode (folder ++ [name]) = .error .notFound)
    (hr : d.reach folder = .ok (some .folder)) : d.node? (folder ++ [name]) = none := by
  rw [openNode, reach_concat, hr] at h
  by_cases long : longestName < name.utf8ByteSize
  · simp [long] at h
  · simp only [long, if_false] at h
    cases hn : d.node? (folder ++ [name]) with
    | none => rfl
    | some n => simp [hn] at h

/-- What is opened has been reached. -/
theorem reach_of_openNode (h : d.openNode p = .ok n) : d.reach p = .ok (some n) := by
  unfold openNode at h
  split at h
  · cases h
  · cases h
  · next hr =>
    cases h
    exact hr

/-- A write that works has reached its place, and sets it. -/
theorem write_eq_ok {d' : Disk} (h : d.write p n = .ok d') :
    (∃ found, d.reach p = .ok found) ∧ d' = d.set p n := by
  unfold write at h
  split at h
  · cases h
  · cases h
  · next found _ hr =>
    cases h
    exact ⟨⟨_, hr⟩, rfl⟩

/-- A renaming that works moves what was opened to a place that is reached. -/
theorem rename_eq_ok {d' : Disk} (h : d.rename p q = .ok d') :
    ∃ found content, d.openNode p = .ok content ∧ d.reach q = .ok found ∧
      d' = (d.clear p).set q content := by
  unfold rename at h
  split at h
  · cases h
  · cases h
  · cases h
  · next content found _ ho hr =>
    cases h
    exact ⟨_, _, ho, hr, rfl⟩

/-- A removal that works clears a place that was opened. -/
theorem remove_eq_ok {d' : Disk} (h : d.remove p = .ok d') :
    (∃ content, d.openNode p = .ok content) ∧ d' = d.clear p := by
  unfold remove at h
  split at h
  · cases h
  · cases h
  · next content _ ho =>
    cases h
    exact ⟨⟨_, ho⟩, rfl⟩

/-- Where there is nothing to remove there is nothing to open. -/
theorem openNode_of_remove_notFound (h : d.remove p = .error .notFound) :
    d.openNode p = .error .notFound := by
  unfold remove at h
  split at h
  · next fault ho =>
    cases h
    exact ho
  · cases h
  · cases h

/-! ## Siblings -/

/-- Two disks that differ at most in what stands under the given names of a folder. -/
def AgreeBeside (folder : Place) (names : List String) (d d' : Disk) : Prop :=
  ∀ q, (∀ name ∈ names, q ≠ folder ++ [name]) → d'.node? q = d.node? q

namespace AgreeBeside

variable {folder : Place} {names : List String} {d₁ d₂ d₃ : Disk} {name : String}

theorem refl : AgreeBeside folder names d d :=
  fun _ _ => rfl

theorem trans (h : AgreeBeside folder names d₁ d₂) (h' : AgreeBeside folder names d₂ d₃) :
    AgreeBeside folder names d₁ d₃ :=
  fun q hq => (h' q hq).trans (h q hq)

theorem set (h : name ∈ names) : AgreeBeside folder names d (d.set (folder ++ [name]) n) := by
  intro q hq
  rw [node?_set (by simp), if_neg (hq name h)]

theorem clear (h : name ∈ names) : AgreeBeside folder names d (d.clear (folder ++ [name])) := by
  intro q hq
  rw [node?_clear (by simp), if_neg (hq name h)]

/-- What is beside the names is the same on both disks. -/
theorem node? (h : AgreeBeside folder names d₁ d₂) (hn : name ∉ names) :
    d₂.node? (folder ++ [name]) = d₁.node? (folder ++ [name]) := by
  refine h _ fun other hother heq => hn ?_
  have := List.append_cancel_left heq
  rw [List.cons.injEq] at this
  exact this.1 ▸ hother

/-- The way to the folder is too short to come by any of the names. -/
theorem reach (h : AgreeBeside folder names d₁ d₂) : d₂.reach folder = d₁.reach folder := by
  -- A place on the way is no longer than the folder's own, and each of the names is one longer.
  refine walk_congr fun q _ hq => h q fun name _ heq => ?_
  have := hq.length_le
  rw [heq, List.nil_append, List.length_append, List.length_singleton] at this
  omega

end AgreeBeside

/-! ## Lists of names -/

/-- A place is in a folder by one name. -/
theorem nameIn_eq_some_iff {folder : Place} {name : String} :
    nameIn folder p = some name ↔ p = folder ++ [name] := by
  unfold nameIn
  cases h : p.reverse with
  | nil =>
    rw [List.reverse_eq_nil_iff] at h
    subst h
    simp
  | cons last rest =>
    have hp : p = rest.reverse ++ [last] := by rw [← p.reverse_reverse, h, List.reverse_cons]
    subst hp
    simp only
    constructor
    · intro heq
      split at heq
      · next hf =>
        simp only [Option.some.injEq] at heq
        rw [hf, heq]
      · cases heq
    · intro heq
      obtain ⟨hf, hl⟩ := List.append_inj' heq rfl
      rw [if_pos hf]
      simpa using hl

/-- The names that a folder lists are those under which something stands. -/
theorem mem_list_iff {folder : Place} {listed : List String} {name : String}
    (h : d.list folder = .ok listed) :
    name ∈ listed ↔ (d.node? (folder ++ [name])).isSome := by
  unfold list at h
  split at h
  · cases h
  · simp only [Except.ok.injEq] at h
    subst h
    rw [isSome_node?_iff (by simp)]
    simp only [List.mem_filterMap, nameIn_eq_some_iff, Prod.exists]
    constructor
    · rintro ⟨p, n, hmem, rfl⟩
      exact ⟨n, hmem⟩
    · rintro ⟨n, hmem⟩
      exact ⟨_, n, hmem, rfl⟩
  · cases h

/-- A folder that is listed has been reached. -/
theorem reach_of_list {folder : Place} {listed : List String} (h : d.list folder = .ok listed) :
    d.reach folder = .ok (some .folder) := by
  unfold list openNode at h
  cases hr : d.reach folder with
  | error fault => rw [hr] at h; cases h
  | ok found =>
    rw [hr] at h
    cases found with
    | none => cases h
    | some n => cases n <;> first | rfl | cases h

/-- Whether a folder can be listed depends on the way to it alone. -/
theorem isOk_list_congr {folder : Place} {d' : Disk} (h : d'.reach folder = d.reach folder) :
    (d'.list folder).isOk = (d.list folder).isOk := by
  have hopen : d'.openNode folder = d.openNode folder := by rw [openNode, openNode, h]
  unfold list
  rw [hopen]
  cases d.openNode folder with
  | error fault => rfl
  | ok n => cases n <;> rfl

end Roster.Disk
