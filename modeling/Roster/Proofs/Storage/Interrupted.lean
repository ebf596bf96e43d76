import Roster.Proofs.Storage.Interchange

/-!
# Writes that stop half way

A record is drafted beside its place and then moved there. However far that comes and whatever the
draft holds by then, only the two files of the key are touched, and the one that is ever read is the
former record or the whole new one (`stopped_spec`). That is so because a draft is no key's file,
and the draft of one key is not the draft of another.

So drafts that were left behind may lie about anywhere. What is kept by every change, whether it
comes to its end or not, is that a folder is `Intact`: it has nothing but files, and each file that
stands for a key holds its record. Of drafts nothing is said there, and nothing need be, since the
next write of a key begins its draft anew.

A key whose file would have too long a name is the exception. Nothing is ever kept under it, but
whoever asks is not told that there is nothing: the file system refuses to look.
-/

namespace Roster.FileStore

variable {s : FileStore} {d d' : Disk} {key other : String} {value : ByteArray}

/-- The disks that a write leaves if it stops: after any number of its steps, or with a draft that
    is there and holds anything, a part of the record or nothing. Of a step that fails nothing is
    left but such a draft. -/
inductive Stopped (s : FileStore) (key : String) (value : ByteArray) (d : Disk) : Disk → Prop
  | after (steps : ℕ) : Stopped s key value d (carryOut ((s.writeSteps key value).take steps) d).2
  | torn {content : Node} {d' : Disk} (file : content ≠ .folder)
      (drafted : d.write (s.placeOf (draftName key)) content = .ok d') : Stopped s key value d d'

/-- The disks that come of an empty folder by changes of records, of which writes may have
    stopped. -/
inductive Reached (s : FileStore) : Disk → Prop
  | opened {d : Disk} (empty : d.list s.folder = .ok []) : Reached s d
  | put {d : Disk} (before : Reached s d) (key : String) (value : ByteArray) :
      Reached s (s.put d key value).2
  | delete {d : Disk} (before : Reached s d) (key : String) : Reached s (s.delete d key).2
  | stopped {d d' : Disk} {key : String} {value : ByteArray} (before : Reached s d)
      (stop : s.Stopped key value d d') : Reached s d'

/-! ## What is left of a write -/

/-- A draft is no record's file. -/
theorem keyOf?_draftName (key : String) : keyOf? (draftName key) = none :=
  Option.eq_none_iff_forall_ne_some.mpr fun other hkey =>
    fileName_ne_draftName other key (keyOf?_eq_some_iff.mp hkey).2.symm

theorem Aside.draft (h : s.Aside key d d') (n : Node) :
    s.Aside key d (d'.set (s.placeOf (draftName key)) n) :=
  h.trans (Disk.AgreeBeside.set (by simp))

theorem node?_draft (n : Node) :
    s.node? (d.set (s.placeOf (draftName key)) n) other = s.node? d other := by
  rw [node?, Disk.node?_set (by simp [placeOf]), if_neg]
  · rfl
  · exact fun heq => fileName_ne_draftName other key (by simpa [placeOf] using heq)

/-- The first two steps of a write go to the draft. -/
theorem exists_draft_of_mem {step : Disk → Except SystemFault Disk}
    (hmem : step ∈ (s.writeSteps key value).take 2) :
    ∃ content : Node, content ≠ .folder ∧
      step = fun d => d.write (s.placeOf (draftName key)) content := by
  simp only [writeSteps, List.take_succ_cons, List.take_zero, List.mem_cons, List.not_mem_nil,
    or_false] at hmem
  rcases hmem with rfl | rfl
  · exact ⟨.other, by simp, rfl⟩
  · exact ⟨.record key value, by simp, rfl⟩

/-- **A write that stops has left the former record in its place, or the whole new one.** -/
theorem stopped_spec (h : s.Stopped key value d d') :
    s.Aside key d d' ∧
      (s.node? d' key = s.node? d key ∨
        d'.openNode (s.placeOf (fileName key)) = .ok (.record key value)) := by
  cases h with
  | torn file drafted =>
    obtain ⟨-, rfl⟩ := Disk.write_eq_ok drafted
    exact ⟨Aside.draft Disk.AgreeBeside.refl _, .inl (node?_draft _)⟩
  | after steps =>
    by_cases hall : 3 ≤ steps
    · rw [List.take_of_length_le hall, ← put]
      rcases s.put_cases d key value with ⟨fault, d', hput, aside, hnode⟩ | ⟨d', hput, aside, hopen⟩
      · rw [hput]
        exact ⟨aside, .inl hnode⟩
      · rw [hput]
        exact ⟨aside, .inr hopen⟩
    -- The first two steps write the draft, and the third, which moves it, is not reached.
    · have hdrafts : s.Aside key d (carryOut ((s.writeSteps key value).take steps) d).2 ∧
          s.node? (carryOut ((s.writeSteps key value).take steps) d).2 key = s.node? d key := by
        refine carryOut_keeps (P := fun d' => s.Aside key d d' ∧ s.node? d' key = s.node? d key)
          (fun step hmem d₁ d₂ hstep kept => ?_) ⟨Disk.AgreeBeside.refl, rfl⟩
        obtain ⟨content, -, rfl⟩ :=
          exists_draft_of_mem ((List.take_sublist_take_left (by omega)).subset hmem)
        obtain ⟨-, rfl⟩ := Disk.write_eq_ok hstep
        exact ⟨kept.1.draft _, (node?_draft _).trans kept.2⟩
      exact ⟨hdrafts.1, .inl hdrafts.2⟩

/-- After a write that stopped its record is the old one or the new one. -/
theorem get_of_stopped (h : s.Stopped key value d d') :
    s.get d' key = s.get d key ∨ s.get d' key = .ok (some value) := by
  obtain ⟨aside, hnode | hopen⟩ := stopped_spec h
  · exact .inl (get_congr aside.reach hnode)
  · exact .inr (get_of_openNode hopen)

/-- After a write that stopped all other records are as they were. -/
theorem get_of_stopped_of_ne (h : s.Stopped key value d d') (hne : other ≠ key) :
    s.get d' other = s.get d other := by
  obtain ⟨aside, -⟩ := stopped_spec h
  exact get_congr aside.reach (aside.node? hne)

/-! ## Folders that are intact -/

theorem Sound.of_write {name : String} {content : Node} (h : s.Sound d) (file : content ≠ .folder)
    (hwrite : d.write (s.placeOf name) content = .ok d') : s.Sound d' := by
  obtain ⟨-, rfl⟩ := Disk.write_eq_ok hwrite
  exact h.set file

theorem Sound.step (h : s.Sound d) {step : Disk → Except SystemFault Disk}
    (hmem : step ∈ s.writeSteps key value) (hstep : step d = .ok d') : s.Sound d' := by
  rw [← List.take_append_drop 2 (s.writeSteps key value), List.mem_append] at hmem
  rcases hmem with hdraft | hmove
  · obtain ⟨content, file, rfl⟩ := exists_draft_of_mem hdraft
    exact h.of_write file hstep
  · obtain rfl := List.mem_singleton.mp hmove
    obtain ⟨_, content, hopen, -, rfl⟩ := Disk.rename_eq_ok hstep
    -- what is moved was a file of the folder
    have hnode : d.node? (s.placeOf (draftName key)) = some content :=
      (Disk.openNode_concat hopen).2
    exact h.clear.set fun hfolder => h.files (draftName key) (by rw [hnode, hfolder])

/-- A folder stays sound when a write stops. -/
theorem Sound.stopped (h : s.Sound d) (stop : s.Stopped key value d d') : s.Sound d' := by
  cases stop with
  | torn file drafted => exact h.of_write file drafted
  | after steps =>
    exact carryOut_keeps (fun step hmem _ _ hstep sound =>
      sound.step (List.mem_of_mem_take hmem) hstep) h

theorem Sound.of_delete (h : s.Sound d) (key : String) : s.Sound (s.delete d key).2 := by
  unfold FileStore.delete
  split
  · exact h
  · exact h
  · next hremove =>
    obtain ⟨-, rfl⟩ := Disk.remove_eq_ok hremove
    exact h.clear

/-- A folder of files in which each file that stands for a key holds the record of that key. -/
structure Intact (s : FileStore) (d : Disk) : Prop extends s.Sound d where
  found : ∀ key, s.Has d key → ∃ value, s.get d key = .ok (some value)

namespace Intact

/-- An empty folder is intact. -/
theorem of_empty (h : d.list s.folder = .ok []) : s.Intact d := by
  have hnone (name : String) : d.node? (s.placeOf name) = none := by
    rw [← Option.not_isSome_iff_eq_none]
    exact fun hnode => nomatch (Disk.mem_list_iff h).mpr hnode
  refine ⟨⟨Disk.reach_of_list h, fun name => ?_⟩, fun key hhas => ?_⟩
  · rw [hnone]
    exact nofun
  · have hnode := hhas.2
    rw [node?, hnone] at hnode
    cases hnode

/-- A change to one key leaves the folder intact if the key has its record
    afterwards, or has no file. -/
theorem aside (h : s.Intact d) (sound : s.Sound d') (aside : s.Aside key d d')
    (own : s.Has d' key → ∃ value, s.get d' key = .ok (some value)) : s.Intact d' := by
  refine ⟨sound, fun other hhas => ?_⟩
  by_cases heq : other = key
  · rw [heq] at hhas ⊢
    exact own hhas
  · have hnode := aside.node? heq
    rw [get_congr aside.reach hnode]
    exact h.found other ((has_congr aside.reach hnode).mp hhas)

/-- A folder stays intact when a write stops. -/
theorem stopped (h : s.Intact d) (stop : s.Stopped key value d d') : s.Intact d' := by
  obtain ⟨aside, hnode | hopen⟩ := stopped_spec stop
  · refine h.aside (h.toSound.stopped stop) aside fun hhas => ?_
    rw [get_congr aside.reach hnode]
    exact h.found key ((has_congr aside.reach hnode).mp hhas)
  · exact h.aside (h.toSound.stopped stop) aside fun _ => ⟨value, get_of_openNode hopen⟩

theorem delete (h : s.Intact d) (key : String) : s.Intact (s.delete d key).2 := by
  have sound := h.toSound.of_delete key
  rcases s.delete_cases d key with ⟨fault, hdel⟩ | ⟨d', hdel, aside, -, hnot⟩
  · rw [hdel]
    exact h
  · rw [hdel] at sound ⊢
    exact h.aside sound aside fun hhas => absurd hhas hnot

/-- Every disk that is reached is intact. -/
theorem of_reached (h : s.Reached d) : s.Intact d := by
  induction h with
  | opened empty => exact of_empty empty
  | put before key value ih => exact ih.stopped (.after 3)
  | delete before key ih => exact ih.delete key
  | stopped before stop ih => exact ih.stopped stop

/-- Every record with a short name can be read in an intact folder. -/
theorem exists_get (h : s.Intact d) (short : (fileName key).utf8ByteSize ≤ Disk.longestName) :
    ∃ found, s.get d key = .ok found := by
  by_cases hhas : s.Has d key
  · obtain ⟨value, hget⟩ := h.found key hhas
    exact ⟨some value, hget⟩
  · rw [get_of_not_has h.folder hhas, if_neg (Nat.not_lt.mpr short)]
    exact ⟨none, rfl⟩

/-- What is listed is what is found. -/
theorem exists_keys (h : s.Intact d) :
    ∃ listed, s.keys d = .ok listed ∧ ∀ key, key ∈ listed ↔
      key ≠ "" ∧ ∃ value, s.get d key = .ok (some value) := by
  refine ⟨s.listed d, keys_eq h.folder, fun key => ?_⟩
  rw [mem_keys_iff (keys_eq h.folder)]
  exact and_congr_right fun _ => ⟨h.found key, fun ⟨_, hget⟩ => has_of_get hget⟩

/-- A record with a short name can be put into an intact folder, and is read back. -/
theorem put (h : s.Intact d) (short : (fileName key).utf8ByteSize ≤ Disk.longestName)
    (value : ByteArray) :
    (s.put d key value).1 = .ok () ∧ s.get (s.put d key value).2 key = .ok (some value) := by
  have hok := (h.toSound.put short value).1
  rcases s.put_cases d key value with ⟨fault, d', hput, -, -⟩ | ⟨d', hput, -, hopen⟩
  · rw [hput] at hok
    cases hok
  · rw [hput]
    exact ⟨rfl, get_of_openNode hopen⟩

end Intact

/-! ## Names that are too long -/

theorem Sound.get_of_long (h : s.Sound d) (long : Disk.longestName < (fileName key).utf8ByteSize) :
    s.get d key = .error (.system .nameTooLong) := by
  rw [FileStore.get, placeOf, Disk.openNode, Disk.reach_concat, h.folder]
  simp only [if_pos long]

theorem Sound.write_of_long {name : String} (h : s.Sound d)
    (long : Disk.longestName < name.utf8ByteSize) (n : Node) :
    d.write (s.placeOf name) n = .error .nameTooLong := by
  rw [Disk.write, placeOf, Disk.reach_concat, h.folder]
  simp only [if_pos long]

theorem longestName_lt_draftName (long : Disk.longestName < (fileName key).utf8ByteSize) :
    Disk.longestName < (draftName key).utf8ByteSize := by
  have hne : key ≠ "" := by
    rintro rfl
    exact absurd long (by decide)
  rwa [utf8ByteSize_draftName hne]

/-- Putting a record with a long name fails and leaves the disk as it is. -/
theorem Sound.put_of_long (h : s.Sound d) (long : Disk.longestName < (fileName key).utf8ByteSize)
    (value : ByteArray) :
    s.put d key value = (.error (.system .nameTooLong), d) := by
  rw [FileStore.put, writeSteps, carryOut, h.write_of_long (longestName_lt_draftName long)]

/-- Where there is no room for the name there is not even a draft. -/
theorem Sound.stopped_of_long (h : s.Sound d)
    (long : Disk.longestName < (fileName key).utf8ByteSize) (stop : s.Stopped key value d d') :
    d' = d := by
  have hwrite := h.write_of_long (longestName_lt_draftName long)
  cases stop with
  | torn file drafted =>
    rw [hwrite] at drafted
    cases drafted
  | after steps =>
    cases steps with
    | zero => rfl
    | succ steps => rw [writeSteps, List.take_succ_cons, carryOut, hwrite]

/-! ## Atomicity -/

/-- **A write is done or not done, wherever it stops.** Its key has the former record or the new
    one, and can be read; all other keys have what they had; what is listed are the keys under which
    a record is found; and drafts that are left behind are listed under no key and stand in the way
    of no later write. All this is said of keys for whose files the file system has names. Under any
    other key nothing is ever written, and reading it fails. -/
theorem stopped_atomic (reached : s.Reached d) (stop : s.Stopped key value d d') :
    ((fileName key).utf8ByteSize ≤ Disk.longestName →
      ∃ found, s.get d' key = .ok found ∧ (s.get d key = .ok found ∨ found = some value)) ∧
    (Disk.longestName < (fileName key).utf8ByteSize →
      d' = d ∧ s.get d' key = .error (.system .nameTooLong) ∧
        s.put d' key value = (.error (.system .nameTooLong), d')) ∧
    (∀ other, other ≠ key → s.get d' other = s.get d other) ∧
    (∃ listed, s.keys d' = .ok listed ∧
      ∀ other, other ∈ listed ↔ other ≠ "" ∧ ∃ found, s.get d' other = .ok (some found)) ∧
    (∀ other, keyOf? (draftName other) = none) ∧
    ∀ other content, (fileName other).utf8ByteSize ≤ Disk.longestName →
      (s.put d' other content).1 = .ok () ∧
        s.get (s.put d' other content).2 other = .ok (some content) := by
  have before := Intact.of_reached reached
  have after := before.stopped stop
  refine ⟨fun short => ?_, fun long => ?_, fun other hne => get_of_stopped_of_ne stop hne,
    after.exists_keys, keyOf?_draftName, fun other content short => after.put short content⟩
  · obtain ⟨found, hfound⟩ := after.exists_get short
    refine ⟨found, hfound, (get_of_stopped stop).imp (fun hsame => ?_) fun hnew => ?_⟩
    · rw [← hsame, hfound]
    · rw [hfound] at hnew
      exact Except.ok.inj hnew
  · exact ⟨before.toSound.stopped_of_long long stop, after.toSound.get_of_long long,
      after.toSound.put_of_long long value⟩

/-- A folder with nothing in it. -/
def emptyFolder : Disk where
  nodes := [(["table"], .folder)]

/-- After a first write a second one leaves a torn draft, and a third stops before
    its draft is moved. -/
theorem stopped_atomic_twice :
    let s : FileStore := ⟨["table"]⟩
    let torn := (s.put emptyFolder "a/b" "1".toUTF8).2.set (s.placeOf (draftName "a/b")) .other
    let drafted := (carryOut ((s.writeSteps "a/b" "3".toUTF8).take 2) torn).2
    s.Reached torn ∧ s.Stopped "a/b" "3".toUTF8 torn drafted ∧
      drafted.node? (s.placeOf (draftName "a/b")) = some (.record "a/b" "3".toUTF8) ∧
      s.get drafted "a/b" = .ok (some "1".toUTF8) ∧
      (∃ listed, s.keys drafted = .ok listed ∧ "a/b" ∈ listed) ∧
      (s.put drafted "a/b" "4".toUTF8).1 = .ok () := by
  intro s torn drafted
  have htorn : s.Stopped "a/b" "2".toUTF8 (s.put emptyFolder "a/b" "1".toUTF8).2 torn :=
    .torn (show Node.other ≠ .folder from nofun) rfl
  have hreached : s.Reached torn := .stopped (.put (.opened rfl) "a/b" "1".toUTF8) htorn
  have hstopped : s.Stopped "a/b" "3".toUTF8 torn drafted := .after 2
  have hget : s.get drafted "a/b" = .ok (some "1".toUTF8) := by rfl
  obtain ⟨-, -, -, ⟨listed, hkeys, hlisted⟩, -, hput⟩ := stopped_atomic hreached hstopped
  exact ⟨hreached, hstopped, rfl, hget, ⟨listed, hkeys, (hlisted "a/b").mpr ⟨by decide, _, hget⟩⟩,
    (hput "a/b" "4".toUTF8 (by decide)).1⟩

/-- A write fails because the name of its file is too long, and after it the key cannot be read. -/
theorem get_stopped_longName :
    let s : FileStore := ⟨["table"]⟩
    let key := String.ofList (List.replicate 189 'a')
    let stopped := (s.put emptyFolder key "1".toUTF8).2
    s.Reached emptyFolder ∧ s.Stopped key "1".toUTF8 emptyFolder stopped ∧
      (fileName key).utf8ByteSize = 256 ∧ s.get stopped key = .error (.system .nameTooLong) := by
  intro s key stopped
  have hreached : s.Reached emptyFolder := .opened rfl
  have hstopped : s.Stopped key "1".toUTF8 emptyFolder stopped := .after 3
  have hlength : (fileName key).utf8ByteSize = 256 := by decide +kernel
  have long : Disk.longestName < (fileName key).utf8ByteSize := by
    rw [hlength]
    decide
  have hintact := (Intact.of_reached hreached).stopped hstopped
  exact ⟨hreached, hstopped, hlength, hintact.toSound.get_of_long long⟩

end Roster.FileStore
