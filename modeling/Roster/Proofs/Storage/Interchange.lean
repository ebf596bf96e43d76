import Roster.Proofs.Storage.FileStore
import Roster.Storage.Backends

/-!
# A store in files and a store in memory

Nobody who only asks for keys can tell whether records are kept in files or in memory: as long as
the file system does its part, a folder that starts without records answers whatever it is asked as
an empty memory does.

What carries this is that the folder `Mirrors` the records, key by key: at the place of a key there
is the record of that key, or nothing. The rest of the disk is left open. In the folder itself there
may be drafts and files of strangers, and they are never listed, because a name that stands for a
key is the one that the key is given. That no key is listed twice is a part of the invariant and not
read off it, since a disk is a list of places and its order of changes is what keeps them apart.

The empty key is left out, as everywhere where there is something to list.
-/

namespace Roster

namespace Store

/-! ## Questions and answers -/

/-- What a store can be asked to do. -/
inductive Ask where
  | put (key : String) (value : ByteArray)
  | get (key : String)
  | delete (key : String)
  | keys

/-- The key that is asked about. -/
def Ask.key? : Ask → Option String
  | .put key _ => some key
  | .get key => some key
  | .delete key => some key
  | .keys => none

/-- What a store says to one thing asked of it. -/
inductive Answer where
  | done (result : Except StoreError Unit)
  | found (result : Except StoreError (Option ByteArray))
  | listed (result : Except StoreError (List String))

/-- Why there is no answer, if the operating system is to blame for it. -/
def Answer.fault? : Answer → Option SystemFault
  | .done (.error (.system fault)) => some fault
  | .found (.error (.system fault)) => some fault
  | .listed (.error (.system fault)) => some fault
  | _ => none

/-- Two answers that say the same. The order of a listing says nothing, but no key
    stands in it twice. -/
inductive Answer.Agrees : Answer → Answer → Prop
  | done (result : Except StoreError Unit) : Agrees (.done result) (.done result)
  | found (result : Except StoreError (Option ByteArray)) : Agrees (.found result) (.found result)
  | listed {keys keys' : List String} (nodup : keys.Nodup) (perm : keys.Perm keys') :
      Agrees (.listed (.ok keys)) (.listed (.ok keys'))

/-- A store answers one thing asked of it. -/
def ask (s : Store) : Ask → Answer × Store
  | .put key value => ((.done (s.put key value).1), (s.put key value).2)
  | .get key => (.found (s.get key), s)
  | .delete key => (.done (s.delete key).1, (s.delete key).2)
  | .keys => (.listed s.keys, s)

/-- What a store answers to one question after the other. -/
def answers (s : Store) : List Ask → List Answer
  | [] => []
  | a :: rest => (s.ask a).1 :: answers (s.ask a).2 rest

end Store

namespace FileStore

variable {f : FileStore} {d d' : Disk} {r : Records} {key : String} {value : ByteArray}

/-! ## Listings -/

/-- The keys of which there are files in the folder. -/
def listed (f : FileStore) (d : Disk) : List String :=
  (d.nodes.filterMap fun item => Disk.nameIn f.folder item.1).filterMap keyOf?

theorem keys_eq (h : d.reach f.folder = .ok (some .folder)) : f.keys d = .ok (f.listed d) := by
  rw [keys, Disk.list, Disk.openNode, h]
  rfl

/-- The keys that are listed are those that have a file. -/
theorem mem_listed_iff : key ∈ f.listed d ↔ key ≠ "" ∧ (f.node? d key).isSome := by
  rw [node?, placeOf, Disk.isSome_node?_iff (by simp)]
  simp only [listed, List.mem_filterMap, keyOf?_eq_some_iff, Disk.nameIn_eq_some_iff, Prod.exists]
  constructor
  · rintro ⟨name, ⟨p, n, hmem, rfl⟩, hne, rfl⟩
    exact ⟨hne, n, hmem⟩
  · rintro ⟨hne, n, hmem⟩
    exact ⟨_, ⟨_, n, hmem, rfl⟩, hne, rfl⟩

theorem nodup_listed_clear (p : Place) (h : (f.listed d).Nodup) : (f.listed (d.clear p)).Nodup :=
  ((List.filter_sublist.filterMap _).filterMap _).nodup h

theorem listed_set (name : String) (n : Node) :
    f.listed (d.set (f.placeOf name) n) =
      (keyOf? name).toList ++ f.listed (d.clear (f.placeOf name)) := by
  have hname : Disk.nameIn f.folder (f.placeOf name) = some name := Disk.nameIn_eq_some_iff.mpr rfl
  simp only [listed, Disk.set, List.filterMap_cons, hname]
  cases keyOf? name <;> rfl

theorem nodup_listed_set (name : String) (n : Node) (h : (f.listed d).Nodup) :
    (f.listed (d.set (f.placeOf name) n)).Nodup := by
  rw [listed_set]
  have hrest := nodup_listed_clear (f.placeOf name) h
  cases hkey : keyOf? name with
  | none => exact hrest
  | some key =>
    refine List.nodup_cons.mpr ⟨fun hmem => ?_, hrest⟩
    -- the file of that key was taken away before the new one came
    have hnode := (mem_listed_iff.mp hmem).2
    rw [(keyOf?_eq_some_iff.mp hkey).2, node?, Disk.node?_clear (by simp [placeOf]),
      if_pos rfl] at hnode
    cases hnode

/-! ## Steps -/

/-- What each step of a change keeps, the change keeps, however far it comes. -/
theorem carryOut_keeps {P : Disk → Prop} {steps : List (Disk → Except SystemFault Disk)}
    (hstep : ∀ step ∈ steps, ∀ d d', step d = .ok d' → P d → P d') (h : P d) :
    P (carryOut steps d).2 := by
  induction steps generalizing d with
  | nil => exact h
  | cons step rest ih =>
    rw [carryOut]
    cases hd : step d with
    | error fault => exact h
    | ok d' =>
      exact ih (fun step hmem => hstep step (.tail _ hmem)) (hstep step (.head _) d d' hd h)

/-- Putting a record does not list a key twice. -/
theorem nodup_listed_put (key : String) (value : ByteArray) (h : (f.listed d).Nodup) :
    (f.listed (f.put d key value).2).Nodup := by
  refine carryOut_keeps (P := fun d => (f.listed d).Nodup) (fun step hmem d d' hd hnodup => ?_) h
  simp only [writeSteps, List.mem_cons, List.not_mem_nil, or_false] at hmem
  rcases hmem with rfl | rfl | rfl
  · obtain ⟨-, rfl⟩ := Disk.write_eq_ok hd
    exact nodup_listed_set _ _ hnodup
  · obtain ⟨-, rfl⟩ := Disk.write_eq_ok hd
    exact nodup_listed_set _ _ hnodup
  · obtain ⟨_, content, -, -, rfl⟩ := Disk.rename_eq_ok hd
    exact nodup_listed_set _ _ (nodup_listed_clear _ hnodup)

/-- Deleting a record does not list a key twice. -/
theorem nodup_listed_delete (key : String) (h : (f.listed d).Nodup) :
    (f.listed (f.delete d key).2).Nodup := by
  unfold delete
  split
  · exact h
  · exact h
  · next d' hd =>
    obtain ⟨-, rfl⟩ := Disk.remove_eq_ok hd
    exact nodup_listed_clear _ h

/-! ## A folder that mirrors records -/

/-- A folder in which each key has the file that its record asks for. -/
structure Mirrors (f : FileStore) (d : Disk) (r : Records) : Prop where
  folder : d.reach f.folder = .ok (some .folder)
  node : ∀ key, key ≠ "" → f.node? d key = (r.get? key).map (.record key)
  nodup : (f.listed d).Nodup
  named : r.get? "" = none

/-- A folder in which no key is listed mirrors an empty memory, whatever else may be in it. -/
theorem mirrors_empty (h : f.keys d = .ok []) : f.Mirrors d .empty := by
  have hfolder : d.reach f.folder = .ok (some .folder) := by
    unfold keys at h
    split at h
    · cases h
    · next hl => exact Disk.reach_of_list hl
  have hlisted : f.listed d = [] := Except.ok.inj ((keys_eq hfolder).symm.trans h)
  refine ⟨hfolder, fun key hne => ?_, by rw [hlisted]; exact List.nodup_nil, rfl⟩
  rw [Records.get?_empty, Option.map_none, ← Option.not_isSome_iff_eq_none]
  intro hnode
  have hmem : key ∈ f.listed d := mem_listed_iff.mpr ⟨hne, hnode⟩
  rw [hlisted] at hmem
  cases hmem

namespace Mirrors

/-- A folder that mirrors the records tells what they tell, unless the system fails. -/
theorem get (h : f.Mirrors d r) (hne : key ≠ "") :
    (∃ fault, f.get d key = .error (.system fault)) ∨ f.get d key = .ok (r.get? key) := by
  have hnode : d.node? (f.folder ++ [fileName key]) = (r.get? key).map (.record key) :=
    h.node key hne
  rw [FileStore.get, placeOf, Disk.openNode, Disk.reach_concat, h.folder, hnode]
  by_cases long : Disk.longestName < (fileName key).utf8ByteSize
  · simp [long]
  · cases r.get? key <;> simp [long]

/-- A folder mirrors the records after both have been given one more, unless the system fails. -/
theorem put (h : f.Mirrors d r) (hne : key ≠ "") (value : ByteArray) :
    (∃ fault, (f.put d key value).1 = .error (.system fault)) ∨
      (f.put d key value).1 = .ok () ∧ f.Mirrors (f.put d key value).2 (r.put key value) := by
  have hnodup := nodup_listed_put key value h.nodup
  rcases f.put_cases d key value with ⟨fault, d', hput, -, -⟩ | ⟨d', hput, aside, hopen⟩
  · exact .inl ⟨fault, by rw [hput]⟩
  · rw [hput] at hnodup ⊢
    refine .inr ⟨rfl, aside.reach.trans h.folder, fun other hother => ?_, hnodup, ?_⟩
    · rw [Records.get?_put]
      by_cases heq : other = key
      · rw [if_pos heq, heq]
        exact (Disk.openNode_concat hopen).2
      · rw [if_neg heq, aside.node? heq, h.node other hother]
    · rw [Records.get?_put, if_neg (Ne.symm hne), h.named]

/-- A folder mirrors the records after both have lost one, unless the system fails. -/
theorem delete (h : f.Mirrors d r) (hne : key ≠ "") :
    (∃ fault, (f.delete d key).1 = .error (.system fault)) ∨
      (f.delete d key).1 = .ok () ∧ f.Mirrors (f.delete d key).2 (r.erase key) := by
  have hnodup := nodup_listed_delete key h.nodup
  rcases f.delete_cases d key with ⟨fault, hdel⟩ | ⟨d', hdel, aside, -, hnot⟩
  · exact .inl ⟨fault, by rw [hdel]⟩
  · rw [hdel] at hnodup ⊢
    have hfolder := aside.reach.trans h.folder
    refine .inr ⟨rfl, hfolder, fun other hother => ?_, hnodup, ?_⟩
    · rw [Records.get?_erase]
      by_cases heq : other = key
      · rw [if_pos heq, heq, Option.map_none, ← Option.not_isSome_iff_eq_none]
        exact fun hnode => hnot ⟨hfolder, hnode⟩
      · rw [if_neg heq, aside.node? heq, h.node other hother]
    · rw [Records.get?_erase, if_neg (Ne.symm hne), h.named]

theorem mem_listed_iff (h : f.Mirrors d r) : key ∈ f.listed d ↔ key ∈ r.keys := by
  rw [FileStore.mem_listed_iff, Records.mem_keys_iff]
  constructor
  · rintro ⟨hne, hnode⟩
    rwa [h.node key hne, Option.isSome_map] at hnode
  · intro hsome
    have hne : key ≠ "" := by
      rintro rfl
      rw [h.named] at hsome
      cases hsome
    exact ⟨hne, by rwa [h.node key hne, Option.isSome_map]⟩

/-- A folder that mirrors the records lists their keys, in some order. -/
theorem listed_perm (h : f.Mirrors d r) : (f.listed d).Perm r.keys :=
  (List.perm_ext_iff_of_nodup h.nodup r.nodup_keys).mpr fun _ => h.mem_listed_iff

end Mirrors

/-! ## A folder that no change fails in -/

/-- A draft's name is as long as the file's. -/
theorem utf8ByteSize_draftName (hne : key ≠ "") :
    (draftName key).utf8ByteSize = (fileName key).utf8ByteSize := by
  rw [draftName, withEnding, splitName_fileName hne, fileName]
  simp only [String.utf8ByteSize_append]
  rfl

theorem utf8ByteSize_draftName_le (short : (fileName key).utf8ByteSize ≤ Disk.longestName) :
    (draftName key).utf8ByteSize ≤ Disk.longestName := by
  by_cases hne : key = ""
  -- The file of the empty key is all ending, so its draft has a longer name.
  · subst hne
    decide
  · rwa [utf8ByteSize_draftName hne]

/-- A folder that is there and has nothing but files in it. -/
structure Sound (f : FileStore) (d : Disk) : Prop where
  folder : d.reach f.folder = .ok (some .folder)
  files : ∀ name, d.node? (f.placeOf name) ≠ some .folder

namespace Sound

variable {name : String} {n : Node}

theorem reach (h : f.Sound d) (short : name.utf8ByteSize ≤ Disk.longestName) :
    d.reach (f.placeOf name) = .ok (d.node? (f.placeOf name)) := by
  rw [placeOf, Disk.reach_concat, h.folder]
  exact if_neg (Nat.not_lt.mpr short)

theorem clear (h : f.Sound d) : f.Sound (d.clear (f.placeOf name)) where
  folder := (Disk.AgreeBeside.clear (List.mem_singleton_self name)).reach.trans h.folder
  files other := by
    rw [Disk.node?_clear (by simp [placeOf])]
    split
    · intro heq
      cases heq
    · exact h.files other

theorem set (h : f.Sound d) (hn : n ≠ .folder) : f.Sound (d.set (f.placeOf name) n) where
  folder := (Disk.AgreeBeside.set (List.mem_singleton_self name)).reach.trans h.folder
  files other := by
    rw [Disk.node?_set (by simp [placeOf])]
    split
    · exact fun heq => hn (Option.some.inj heq)
    · exact h.files other

/-- A write under a name that is short enough works. -/
theorem write (h : f.Sound d) (short : name.utf8ByteSize ≤ Disk.longestName) :
    d.write (f.placeOf name) n = .ok (d.set (f.placeOf name) n) := by
  have hfile := h.files name
  rw [Disk.write, h.reach short]
  cases hn : d.node? (f.placeOf name) with
  | none => rfl
  | some found =>
    cases found with
    | folder => exact absurd hn hfile
    | _ => rfl

theorem openNode (h : f.Sound d) (short : name.utf8ByteSize ≤ Disk.longestName)
    (hnode : d.node? (f.placeOf name) = some n) : d.openNode (f.placeOf name) = .ok n := by
  rw [Disk.openNode, h.reach short, hnode]

/-- A renaming between names that are short enough works. -/
theorem rename {other : String} (h : f.Sound d) (short : name.utf8ByteSize ≤ Disk.longestName)
    (short' : other.utf8ByteSize ≤ Disk.longestName) (hnode : d.node? (f.placeOf name) = some n) :
    d.rename (f.placeOf name) (f.placeOf other) =
      .ok ((d.clear (f.placeOf name)).set (f.placeOf other) n) := by
  have hfile := h.files other
  rw [Disk.rename, h.openNode short hnode, h.reach short']
  cases hn : d.node? (f.placeOf other) with
  | none => rfl
  | some found =>
    cases found with
    | folder => exact absurd hn hfile
    | _ => rfl

/-- Putting a record works in a sound folder, if its name is short enough. -/
theorem put (h : f.Sound d) (short : (fileName key).utf8ByteSize ≤ Disk.longestName)
    (value : ByteArray) :
    (f.put d key value).1 = .ok () ∧ f.Sound (f.put d key value).2 := by
  have shortDraft := utf8ByteSize_draftName_le short
  have drafted : f.Sound (d.set (f.placeOf (draftName key)) .other) := h.set nofun
  have written : f.Sound ((d.set (f.placeOf (draftName key)) .other).set (f.placeOf (draftName key))
      (.record key value)) := drafted.set nofun
  have hnode : ((d.set (f.placeOf (draftName key)) .other).set (f.placeOf (draftName key))
      (.record key value)).node? (f.placeOf (draftName key)) = some (.record key value) := by
    rw [Disk.node?_set (by simp [placeOf]), if_pos rfl]
  rw [FileStore.put, writeSteps, carryOut, h.write shortDraft]
  simp only [carryOut, drafted.write shortDraft, written.rename shortDraft short hnode]
  exact ⟨trivial, written.clear.set nofun⟩

/-- Deleting a record works in a sound folder, if its name is short enough. -/
theorem delete (h : f.Sound d) (short : (fileName key).utf8ByteSize ≤ Disk.longestName) :
    (f.delete d key).1 = .ok () ∧ f.Sound (f.delete d key).2 := by
  have hfile := h.files (fileName key)
  cases hnode : d.node? (f.placeOf (fileName key)) with
  | none =>
    have hremove : d.remove (f.placeOf (fileName key)) = .error .notFound := by
      rw [Disk.remove, Disk.openNode, h.reach short, hnode]
    rw [FileStore.delete, hremove]
    exact ⟨rfl, h⟩
  | some n =>
    have hremove : d.remove (f.placeOf (fileName key)) =
        .ok (d.clear (f.placeOf (fileName key))) := by
      rw [Disk.remove, h.openNode short hnode]
      cases n with
      | folder => exact absurd hnode hfile
      | _ => rfl
    rw [FileStore.delete, hremove]
    exact ⟨rfl, h.clear⟩

/-- Reading a record of a sound folder does not fail by the system, if its name is short enough. -/
theorem get (h : f.Sound d) (short : (fileName key).utf8ByteSize ≤ Disk.longestName)
    (fault : SystemFault) :
    f.get d key ≠ .error (.system fault) := by
  intro hget
  cases hnode : d.node? (f.placeOf (fileName key)) with
  | none =>
    rw [FileStore.get, Disk.openNode, h.reach short, hnode] at hget
    cases hget
  | some n =>
    rw [FileStore.get, h.openNode short hnode] at hget
    cases n with
    | record held value =>
      simp only at hget
      split at hget <;> cases hget
    | _ => cases hget

end Sound

end FileStore

namespace Store

open FileStore

variable {f : FileStore} {d : Disk} {r : Records} {s s' : Store}

/-- A store in files and one in memory, of which the first mirrors the second. -/
inductive Alike : Store → Store → Prop
  | intro {f : FileStore} {d : Disk} {r : Records} (mirrors : f.Mirrors d r) :
      Alike (.files f d) (.memory r)

/-- Stores that are alike answer alike and stay alike, unless the system fails the one in files. -/
theorem Alike.ask (h : Alike s s') {a : Ask} (named : a.key? ≠ some "")
    (unfailed : (s.ask a).1.fault? = none) :
    (s.ask a).1.Agrees (s'.ask a).1 ∧ Alike (s.ask a).2 (s'.ask a).2 := by
  obtain ⟨mirrors⟩ := h
  cases a with
  | put key value =>
    rcases mirrors.put (fun h => named (congrArg some h)) value
      with ⟨fault, hfault⟩ | ⟨hok, mirrors'⟩
    · simp [Store.ask, Store.put, hfault, Answer.fault?] at unfailed
    · simp only [Store.ask, Store.put, hok]
      exact ⟨.done _, .intro mirrors'⟩
  | get key =>
    rcases mirrors.get (fun h => named (congrArg some h)) with ⟨fault, hfault⟩ | hget
    · simp [Store.ask, Store.get, hfault, Answer.fault?] at unfailed
    · simp only [Store.ask, Store.get, hget]
      exact ⟨.found _, .intro mirrors⟩
  | delete key =>
    rcases mirrors.delete (fun h => named (congrArg some h)) with ⟨fault, hfault⟩ | ⟨hok, mirrors'⟩
    · simp [Store.ask, Store.delete, hfault, Answer.fault?] at unfailed
    · simp only [Store.ask, Store.delete, hok]
      exact ⟨.done _, .intro mirrors'⟩
  | keys =>
    simp only [Store.ask, Store.keys, keys_eq mirrors.folder]
    exact ⟨.listed mirrors.nodup mirrors.listed_perm, .intro mirrors⟩

/-- Stores that are alike answer alike to whatever they are asked, up to the order of a listing. -/
theorem Alike.answers (h : Alike s s') {asks : List Ask} (named : ∀ a ∈ asks, a.key? ≠ some "")
    (unfailed : ∀ answer ∈ s.answers asks, answer.fault? = none) :
    List.Forall₂ Answer.Agrees (s.answers asks) (s'.answers asks) := by
  induction asks generalizing s s' with
  | nil => exact .nil
  | cons a rest ih =>
    obtain ⟨agrees, alike⟩ := h.ask (named a (.head _)) (unfailed _ (.head _))
    exact .cons agrees (ih alike (fun a hmem => named a (.tail _ hmem))
      fun answer hmem => unfailed answer (.tail _ hmem))

/-- **The system fails nobody whose names are short**, in a folder where there are only files. -/
theorem unfailed_of_sound (h : f.Sound d) {asks : List Ask}
    (short : ∀ a ∈ asks, ∀ key ∈ a.key?, (fileName key).utf8ByteSize ≤ Disk.longestName) :
    ∀ answer ∈ (Store.files f d).answers asks, answer.fault? = none := by
  induction asks generalizing d with
  | nil => exact nofun
  | cons a rest ih =>
    have short' := fun a hmem => short a (List.mem_cons_of_mem _ hmem)
    rw [Store.answers, List.forall_mem_cons]
    cases a with
    | put key value =>
      have hput := h.put (short _ (.head _) key rfl) value
      exact ⟨by simp [Store.ask, Store.put, hput.1, Answer.fault?], ih hput.2 short'⟩
    | get key =>
      have hget := h.get (short _ (.head _) key rfl)
      refine ⟨?_, ih h short'⟩
      change (Answer.found (f.get d key)).fault? = none
      cases hfound : f.get d key with
      | ok found => rfl
      | error e =>
        cases e with
        | system fault => exact absurd hfound (hget fault)
        | _ => rfl
    | delete key =>
      have hdel := h.delete (short _ (.head _) key rfl)
      exact ⟨by simp [Store.ask, Store.delete, hdel.1, Answer.fault?], ih hdel.2 short'⟩
    | keys => exact ⟨by simp [Store.ask, Store.keys, keys_eq h.folder, Answer.fault?], ih h short'⟩

/-- **A store in files answers as one in memory does.** Whatever is put, asked for, deleted and
    listed under keys that are not empty, a folder that begins without records gives the answers
    that an empty memory gives, if the system does not fail it. For no two keys share a file, the
    name of a key's file gives the key back, and a name that is not given to a key, as that of a
    draft, stands for none. -/
theorem answers_agree (empty : f.keys d = .ok []) (asks : List Ask)
    (named : ∀ a ∈ asks, a.key? ≠ some "")
    (unfailed : ∀ answer ∈ (Store.files f d).answers asks, answer.fault? = none) :
    List.Forall₂ Answer.Agrees ((Store.files f d).answers asks)
      ((Store.memory .empty).answers asks) ∧
      Function.Injective fileName ∧ (∀ key, key ≠ "" → keyOf? (fileName key) = some key) ∧
      (∀ name, (∀ key, key ≠ "" → name ≠ fileName key) → keyOf? name = none) ∧
      ∀ key, keyOf? (draftName key) = none := by
  have foreign (name : String) (h : ∀ key, key ≠ "" → name ≠ fileName key) : keyOf? name = none :=
    Option.eq_none_iff_forall_ne_some.mpr fun key hkey =>
      h key (keyOf?_eq_some_iff.mp hkey).1 (keyOf?_eq_some_iff.mp hkey).2
  refine ⟨(Alike.intro (mirrors_empty empty)).answers named unfailed, fun _ _ => fileName_injective,
    fun key hne => keyOf?_eq_some_iff.mpr ⟨hne, rfl⟩, foreign, fun key => ?_⟩
  exact foreign _ fun other _ => (fileName_ne_draftName other key).symm

/-! ## A folder with files of strangers -/

/-- A folder in which somebody keeps notes, and in which a draft was left behind. -/
def sharedFolder : Disk where
  nodes :=
    [(["table"], .folder), (["table", "notes.txt"], .text "rates"),
      (["table", draftName "a/b"], .other)]

/-- Puts, listings and a removal, under keys that no file could be named after. -/
def someAsks : List Ask :=
  [.put "a/b" "1".toUTF8, .put "#ndt##10.0.0.1" "2".toUTF8, .put "é.rec" "3".toUTF8,
    .put "a/b" "4".toUTF8, .keys, .get "a/b", .delete "é.rec", .get "é.rec", .keys]

theorem sound_sharedFolder : FileStore.Sound ⟨["table"]⟩ sharedFolder where
  folder := rfl
  files name := by
    simp only [placeOf, sharedFolder, Disk.node?, List.cons_append, List.nil_append,
      List.lookup_cons]
    repeat' split
    all_goals simp_all

theorem answers_agree_sharedFolder :
    FileStore.keys ⟨["table"]⟩ sharedFolder = .ok [] ∧
      List.Forall₂ Answer.Agrees ((Store.files ⟨["table"]⟩ sharedFolder).answers someAsks)
        ((Store.memory .empty).answers someAsks) ∧
      ((Store.memory .empty).answers someAsks)[5]? = some (.found (.ok (some "4".toUTF8))) ∧
      ((Store.memory .empty).answers someAsks)[8]? =
        some (.listed (.ok ["a/b", "#ndt##10.0.0.1"])) := by
  have named : ∀ a ∈ someAsks, a.key? ≠ some "" := by decide
  have short : ∀ a ∈ someAsks, ∀ key ∈ a.key?, (fileName key).utf8ByteSize ≤ Disk.longestName := by
    decide +kernel
  have empty : FileStore.keys ⟨["table"]⟩ sharedFolder = .ok [] := by decide +kernel
  have hsame := answers_agree empty someAsks named (unfailed_of_sound sound_sharedFolder short)
  exact ⟨empty, hsame.1, by rfl, by rfl⟩

end Store

end Roster
