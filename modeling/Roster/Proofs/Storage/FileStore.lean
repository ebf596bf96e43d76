import Mathlib.Data.List.TakeDrop
import Roster.Proofs.Storage.Disk
import Roster.Proofs.Text.Octets
import Roster.Storage.FileStore

/-!
# A folder of records as a map

What the operations of a `FileStore` do to the files is told here in terms of keys. Each key has a
file of its own and a draft of its own, no two of which share a name, so an operation on one key is
a change beside the files of all others (`Disk.AgreeBeside`).

A record that could not be written leaves the former one where it was: the only file that the first
two steps touch is the draft. So of an operation that fails, as of one that is cut off, it is known
that the key has its old value or its new one.

The empty key is the one exception to everything that is said about listings. Its file would be
named by an ending alone, which is no ending to a file system, so it is never listed.
-/

namespace Roster.FileStore

/-! ## Names -/

/-- A name is split at its last point. -/
theorem splitName_eq {name : String} {stem ending : List Char} (hs : stem ≠ [])
    (he : '.' ∉ ending) (h : name.toList = stem ++ '.' :: ending) :
    splitName name = (.ofList stem, some (.ofList ending)) := by
  have hrev : name.toList.reverse = ending.reverse ++ '.' :: stem.reverse := by
    rw [h, List.reverse_append, List.reverse_cons, List.append_assoc]
    rfl
  -- Read backwards the first point is the last one, since the ending has none.
  have hspan : name.toList.reverse.span (· ≠ '.') = (ending.reverse, '.' :: stem.reverse) := by
    rw [hrev, List.span_eq_takeWhile_dropWhile]
    have hall : ∀ c ∈ ending.reverse, decide (c ≠ '.') = true := by
      intro c hc
      have : c ≠ '.' := fun heq => he (heq ▸ List.mem_reverse.mp hc)
      simpa using this
    rw [List.takeWhile_append_of_pos hall, List.dropWhile_append_of_pos hall]
    simp
  unfold splitName
  rw [hspan]
  cases hr : stem.reverse with
  | nil => exact absurd (List.reverse_eq_nil_iff.mp hr) hs
  | cons c rest =>
    have hstem : stem = (c :: rest).reverse := by rw [← hr, List.reverse_reverse]
    simp only [List.reverse_reverse]
    rw [hstem]

theorem toList_of_splitName {name stem ending : String} (h : splitName name = (stem, some ending)) :
    name.toList = stem.toList ++ '.' :: ending.toList := by
  unfold splitName at h
  rw [List.span_eq_takeWhile_dropWhile] at h
  have hsplit := List.takeWhile_append_dropWhile (p := (· ≠ '.')) (l := name.toList.reverse)
  simp only at h
  split at h
  · next c rest hdrop =>
    simp only [Prod.mk.injEq, Option.some.injEq] at h
    obtain ⟨rfl, rfl⟩ := h
    rw [hdrop] at hsplit
    calc name.toList = (_ ++ '.' :: c :: rest).reverse := by rw [hsplit, List.reverse_reverse]
      _ = (String.ofList (c :: rest).reverse).toList ++
          '.' :: (String.ofList (List.takeWhile _ name.toList.reverse).reverse).toList := by simp
  · simp at h

theorem fileName_toList (key : String) :
    (fileName key).toList =
      (Base64Url.encode key.toUTF8.data.toList).toList ++ '.' :: recordEnding.toList := by
  rw [fileName, String.toList_append, String.toList_append, List.append_assoc]
  rfl

/-- Two keys have two files. -/
theorem fileName_injective {a b : String} (h : fileName a = fileName b) : a = b := by
  have := congrArg String.toList h
  rw [fileName_toList, fileName_toList] at this
  have := Base64Url.encode_injective (String.toList_inj.mp (List.append_cancel_right this))
  exact toUTF8_injective (ByteArray.ext (Array.toList_inj.mp this))

theorem encode_ne_nil {key : String} (h : key ≠ "") :
    (Base64Url.encode key.toUTF8.data.toList).toList ≠ [] := by
  intro hnil
  have hdec := Base64Url.decode?_encode key.toUTF8.data.toList
  rw [Base64Url.decode?, hnil, Base64Url.decodeChars, Option.some.injEq] at hdec
  refine h (toUTF8_injective (ByteArray.ext (Array.toList_inj.mp ?_)))
  rw [← hdec]
  rfl

/-- The name of a record's file is split into the encoded key and the ending. -/
theorem splitName_fileName {key : String} (h : key ≠ "") :
    splitName (fileName key) =
      (Base64Url.encode key.toUTF8.data.toList, some recordEnding) := by
  rw [splitName_eq (encode_ne_nil h) (by decide) (fileName_toList key), String.ofList_toList,
    String.ofList_toList]

/-- A file is known by its name: the names that stand for a key are those that are given to keys,
    and each of them stands for its own. -/
theorem keyOf?_eq_some_iff {name key : String} :
    keyOf? name = some key ↔ key ≠ "" ∧ name = fileName key := by
  constructor
  · intro h
    unfold keyOf? at h
    split at h
    · next stem ending hsplit =>
      split at h
      · next hending =>
        obtain ⟨octets, hdec, hutf⟩ := Option.bind_eq_some_iff.mp h
        have hname := toList_of_splitName hsplit
        have hoctets : key.toUTF8.data.toList = octets := by rw [toUTF8_of_fromUTF8? hutf]
        have heq : name = fileName key := by
          apply String.toList_inj.mp
          rw [hname, fileName_toList, hoctets, Base64Url.encode_of_decode? hdec, hending]
        refine ⟨?_, heq⟩
        -- The file of the empty key is all ending, which to a file system is no ending.
        rintro rfl
        have hnone : (splitName (fileName "")).2 = none := by decide
        rw [← heq, hsplit] at hnone
        cases hnone
      · cases h
    · cases h
  · rintro ⟨hne, rfl⟩
    unfold keyOf?
    rw [splitName_fileName hne]
    simp only [if_true, Base64Url.decode?_encode, Option.bind_some]
    exact fromUTF8?_toUTF8 key

theorem draftName_toList (key : String) :
    ∃ stem : List Char, (draftName key).toList = stem ++ draftEnding.toList := by
  refine ⟨((splitName (fileName key)).1 ++ ".").toList, ?_⟩
  rw [draftName, withEnding, String.toList_append]

/-- No record's file is another one's draft. -/
theorem fileName_ne_draftName (key other : String) : fileName key ≠ draftName other := by
  intro h
  obtain ⟨stem, hdraft⟩ := draftName_toList other
  have hfile := fileName_toList key
  rw [h, hdraft] at hfile
  have := congrArg (fun cs => cs.reverse.head?) hfile
  simp [recordEnding, draftEnding] at this

/-! ## The files of one key -/

variable {s : FileStore} {d d' : Disk} {key other : String} {value : ByteArray}

/-- What stands where the record of a key belongs. -/
def node? (s : FileStore) (d : Disk) (key : String) : Option Node :=
  d.node? (s.placeOf (fileName key))

/-- Whether the folder is there and has a file for the key, whatever stands in the file. -/
def Has (s : FileStore) (d : Disk) (key : String) : Prop :=
  d.reach s.folder = .ok (some .folder) ∧ (s.node? d key).isSome

/-- Two disks that differ at most in the files of one key: its record and its draft. -/
def Aside (s : FileStore) (key : String) (d d' : Disk) : Prop :=
  Disk.AgreeBeside s.folder [fileName key, draftName key] d d'

/-- The other records are left as they are. -/
theorem Aside.node? (h : s.Aside key d d') (hne : other ≠ key) :
    s.node? d' other = s.node? d other := by
  refine Disk.AgreeBeside.node? h ?_
  simp only [List.mem_cons, List.not_mem_nil, or_false, not_or]
  exact ⟨fun heq => hne (fileName_injective heq), fileName_ne_draftName other key⟩

/-- The folder is left as it is. -/
theorem Aside.reach (h : s.Aside key d d') : d'.reach s.folder = d.reach s.folder :=
  Disk.AgreeBeside.reach h

/-- What is found under a key is told by the way to the folder and by what stands
    at the key's place. -/
theorem openNode_congr (hr : d'.reach s.folder = d.reach s.folder)
    (hn : s.node? d' key = s.node? d key) :
    d'.openNode (s.placeOf (fileName key)) = d.openNode (s.placeOf (fileName key)) := by
  have hreach : d'.reach (s.placeOf (fileName key)) = d.reach (s.placeOf (fileName key)) := by
    rw [placeOf, Disk.reach_concat, Disk.reach_concat, hr]
    change Disk.node? _ _ = Disk.node? _ _ at hn
    rw [placeOf] at hn
    rw [hn]
  rw [Disk.openNode, Disk.openNode, hreach]

/-- What is read of a record depends on the folder and on its file. -/
theorem get_congr (hr : d'.reach s.folder = d.reach s.folder)
    (hn : s.node? d' key = s.node? d key) :
    s.get d' key = s.get d key := by
  rw [get, get, openNode_congr hr hn]

theorem has_congr (hr : d'.reach s.folder = d.reach s.folder)
    (hn : s.node? d' key = s.node? d key) :
    s.Has d' key ↔ s.Has d key := by
  rw [Has, Has, hr, hn]

/-- What was once within reach is found again as long as the folder is. -/
theorem openNode_of_reach {found : Option Node}
    (h : d.reach (s.placeOf (fileName key)) = .ok found)
    (hr : d'.reach s.folder = d.reach s.folder) :
    d'.openNode (s.placeOf (fileName key)) =
      match s.node? d' key with
      | none => .error .notFound
      | some n => .ok n :=
  Disk.openNode_of_reach h hr

/-! ## Reading -/

theorem openNode_of_get {found : ByteArray} (h : s.get d key = .ok (some found)) :
    d.openNode (s.placeOf (fileName key)) = .ok (.record key found) := by
  unfold get at h
  split at h
  · cases h
  · cases h
  · next held value ho =>
    split at h
    · next hk =>
      cases h
      rw [ho, hk]
    · cases h
  · cases h

/-- What is read is there. -/
theorem has_of_get {found : ByteArray} (h : s.get d key = .ok (some found)) : s.Has d key := by
  obtain ⟨hr, hn⟩ := Disk.openNode_concat (openNode_of_get h)
  exact ⟨hr, by rw [node?, placeOf, hn]; rfl⟩

theorem get_of_openNode (h : d.openNode (s.placeOf (fileName key)) = .ok (.record key value)) :
    s.get d key = .ok (some value) := by
  simp [get, h]

/-- Where there is no file, none is found, unless the name that it would have is too
    long to be asked for. -/
theorem get_of_not_has (hr : d.reach s.folder = .ok (some .folder)) (h : ¬ s.Has d key) :
    s.get d key =
      if Disk.longestName < (fileName key).utf8ByteSize then .error (.system .nameTooLong)
      else .ok none := by
  have hnode : d.node? (s.folder ++ [fileName key]) = none := by
    rw [← Option.not_isSome_iff_eq_none]
    exact fun hn => h ⟨hr, hn⟩
  rw [get, placeOf, Disk.openNode, Disk.reach_concat, hr, hnode]
  by_cases long : Disk.longestName < (fileName key).utf8ByteSize
  · simp [long]
  · simp [long]

/-- **The keys that are listed are those that have a file**, the empty one apart. -/
theorem mem_keys_iff {listed : List String} (h : s.keys d = .ok listed) :
    key ∈ listed ↔ key ≠ "" ∧ s.Has d key := by
  unfold keys at h
  split at h
  · cases h
  · next names hl =>
    cases h
    have hfolder := Disk.reach_of_list hl
    simp only [List.mem_filterMap, keyOf?_eq_some_iff]
    constructor
    · rintro ⟨name, hmem, hne, rfl⟩
      exact ⟨hne, hfolder, (Disk.mem_list_iff hl).mp hmem⟩
    · rintro ⟨hne, -, hnode⟩
      exact ⟨_, (Disk.mem_list_iff hl).mpr hnode, hne, rfl⟩

/-- Whether the keys can be listed depends on the folder alone. -/
theorem isOk_keys_congr (h : d'.reach s.folder = d.reach s.folder) :
    (s.keys d').isOk = (s.keys d).isOk := by
  have hl := Disk.isOk_list_congr h
  unfold keys
  cases h' : d'.list s.folder <;> cases h : d.list s.folder <;> rw [h, h'] at hl <;>
    first | rfl | cases hl

/-! ## Writing -/

/-- A write either stops with the former record in its place, or ends with the new one there. -/
theorem put_cases (s : FileStore) (d : Disk) (key : String) (value : ByteArray) :
    (∃ fault d', s.put d key value = (.error (.system fault), d') ∧ s.Aside key d d' ∧
      s.node? d' key = s.node? d key) ∨
    (∃ d', s.put d key value = (.ok (), d') ∧ s.Aside key d d' ∧
      d'.openNode (s.placeOf (fileName key)) = .ok (.record key value)) := by
  have hdraft : draftName key ∈ [fileName key, draftName key] := by simp
  have hfile : fileName key ∈ [fileName key, draftName key] := by simp
  -- Until the draft is moved no step touches the record, whatever becomes of it.
  have hplaces : s.placeOf (fileName key) ≠ s.placeOf (draftName key) := by
    intro h
    exact fileName_ne_draftName key key (by simpa [placeOf] using h)
  simp only [put, writeSteps, carryOut]
  cases h₁ : d.write (s.placeOf (draftName key)) .other with
  | error fault => exact .inl ⟨fault, d, rfl, Disk.AgreeBeside.refl, rfl⟩
  | ok d₁ =>
    obtain ⟨-, rfl⟩ := Disk.write_eq_ok h₁
    simp only
    cases h₂ : (d.set (s.placeOf (draftName key)) .other).write (s.placeOf (draftName key))
        (.record key value) with
    | error fault =>
      refine .inl ⟨fault, _, rfl, Disk.AgreeBeside.set hdraft, ?_⟩
      rw [node?, node?, Disk.node?_set (by simp [placeOf]), if_neg hplaces]
    | ok d₂ =>
      obtain ⟨-, rfl⟩ := Disk.write_eq_ok h₂
      simp only
      have aside : s.Aside key d
          ((d.set (s.placeOf (draftName key)) .other).set (s.placeOf (draftName key))
            (.record key value)) :=
        (Disk.AgreeBeside.set hdraft).trans (Disk.AgreeBeside.set hdraft)
      generalize hd₂ : (d.set (s.placeOf (draftName key)) .other).set (s.placeOf (draftName key))
        (.record key value) = d₂ at aside ⊢
      cases h₃ : d₂.rename (s.placeOf (draftName key)) (s.placeOf (fileName key)) with
      | error fault =>
        refine .inl ⟨fault, _, rfl, aside, ?_⟩
        rw [node?, node?, ← hd₂, Disk.node?_set (by simp [placeOf]), if_neg hplaces,
          Disk.node?_set (by simp [placeOf]), if_neg hplaces]
      | ok d₃ =>
        obtain ⟨found, content, ho, hr, rfl⟩ := Disk.rename_eq_ok h₃
        -- What is moved is what the second step wrote, not the empty draft of the first.
        have hcontent : content = .record key value := by
          have := (Disk.openNode_concat ho).2
          change d₂.node? (s.placeOf (draftName key)) = _ at this
          rw [← hd₂, Disk.node?_set (by simp [placeOf]), if_pos rfl] at this
          exact (Option.some.inj this).symm
        have moved : s.Aside key d₂
            ((d₂.clear (s.placeOf (draftName key))).set (s.placeOf (fileName key)) content) :=
          (Disk.AgreeBeside.clear hdraft).trans (Disk.AgreeBeside.set hfile)
        refine .inr ⟨_, rfl, aside.trans moved, ?_⟩
        have hnode : s.node? ((d₂.clear (s.placeOf (draftName key))).set (s.placeOf (fileName key))
            content) key = some (.record key value) := by
          rw [node?, Disk.node?_set (by simp [placeOf]), if_pos rfl, hcontent]
        rw [openNode_of_reach hr moved.reach, hnode]

/-! ## Removing -/

/-- A removal either fails and changes nothing, or leaves nothing under the key. -/
theorem delete_cases (s : FileStore) (d : Disk) (key : String) :
    (∃ fault, s.delete d key = (.error (.system fault), d)) ∨
    (∃ d', s.delete d key = (.ok (), d') ∧ s.Aside key d d' ∧ s.get d' key = .ok none ∧
      ¬ s.Has d' key) := by
  unfold delete
  cases h : d.remove (s.placeOf (fileName key)) with
  | error fault =>
    cases fault with
    | notFound =>
      -- Nothing to remove counts as removed, and then nothing was there to be found.
      have hopen := Disk.openNode_of_remove_notFound h
      refine .inr ⟨d, rfl, Disk.AgreeBeside.refl, by rw [get, hopen], ?_⟩
      rintro ⟨hr, hn⟩
      rw [node?, placeOf, Disk.node?_of_openNode_notFound hopen hr] at hn
      cases hn
    | _ => exact .inl ⟨_, rfl⟩
  | ok d' =>
    obtain ⟨⟨content, ho⟩, rfl⟩ := Disk.remove_eq_ok h
    have aside : s.Aside key d (d.clear (s.placeOf (fileName key))) :=
      Disk.AgreeBeside.clear (by simp)
    have hnode : s.node? (d.clear (s.placeOf (fileName key))) key = none := by
      rw [node?, Disk.node?_clear (by simp [placeOf]), if_pos rfl]
    refine .inr ⟨_, rfl, aside, ?_, fun hhas => by rw [Has, hnode] at hhas; cases hhas.2⟩
    rw [get, openNode_of_reach (Disk.reach_of_openNode ho) aside.reach, hnode]

end Roster.FileStore
