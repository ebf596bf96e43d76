import Roster.Storage.Disk
import Roster.Storage.Error
import Roster.Text.Base64Url

/-!
# Records in files

A folder of records, one file for each. The file is named after the key in a form that every file
system takes, so keys may hold slashes and dots, and the key is found again from the name. A record
also holds its key, so a file under a wrong name is noticed.

A record is written beside its place first and then moved there, in three steps of which each
leaves a disk where the record is either the former one or the new one: `writeSteps` lists them,
and `put` carries them out.
-/

namespace Roster

/-- A folder with one file for each key. -/
structure FileStore where
  folder : Place
  deriving DecidableEq, Repr

namespace FileStore

/-! ## Names -/

/-- A file name before and after its last point, unless that is its first character. -/
def splitName (name : String) : String × Option String :=
  let (ending, rest) := name.toList.reverse.span (· ≠ '.')
  match rest with
  | '.' :: c :: stem => (.ofList (c :: stem).reverse, some (.ofList ending.reverse))
  | _ => (name, none)

/-- A file name with another ending, in the place of the one it has. -/
def withEnding (name ending : String) : String :=
  (splitName name).1 ++ "." ++ ending

/-- The ending of files that hold records. -/
def recordEnding : String := "rec"

/-- The ending of files that are being written. -/
def draftEnding : String := "tmp"

/-- The name of the file that holds the record of a key. -/
def fileName (key : String) : String :=
  Base64Url.encode key.toUTF8.data.toList ++ "." ++ recordEnding

/-- The name of the file in which the record of a key is drafted. -/
def draftName (key : String) : String :=
  withEnding (fileName key) draftEnding

/-- The key whose record a file holds, told by its name. -/
def keyOf? (name : String) : Option String :=
  match splitName name with
  | (stem, some ending) =>
    if ending = recordEnding then
      (Base64Url.decode? stem).bind fun octets => String.fromUTF8? ⟨octets.toArray⟩
    else none
  | _ => none

/-! ## Operations -/

/-- The place of a file of the folder. -/
def placeOf (s : FileStore) (name : String) : Place :=
  s.folder ++ [name]

/-- Opens the folder of a namespace below a place and makes it if it is missing. -/
def openIn (d : Disk) (base : Place) (namespaceName : String) :
    Except StoreError (FileStore × Disk) :=
  let folder := base.resolve namespaceName
  match d.makeFolders folder with
  | .error fault => .error (.system fault)
  | .ok d => .ok (⟨folder⟩, d)

/-- What is said about a file that holds the record of another key. -/
def foreignRecord (key held : String) : String :=
  "record for '" ++ key ++ "' holds key '" ++ held ++ "'"

/-- The value of a key. Where there is no file there is no value, and a file with another key is an
    error. -/
def get (s : FileStore) (d : Disk) (key : String) : Except StoreError (Option ByteArray) :=
  match d.openNode (s.placeOf (fileName key)) with
  | .error .notFound => .ok none
  | .error fault => .error (.system fault)
  | .ok (.record held value) =>
    if held = key then .ok (some value) else .error (.unavailable (foreignRecord key held))
  | .ok _ => .error .decode

/-- The steps in which a record is written: an empty draft, the whole draft, and the move to its
    place. -/
def writeSteps (s : FileStore) (key : String) (value : ByteArray) :
    List (Disk → Except SystemFault Disk) :=
  [fun d => d.write (s.placeOf (draftName key)) .other,
    fun d => d.write (s.placeOf (draftName key)) (.record key value),
    fun d => d.rename (s.placeOf (draftName key)) (s.placeOf (fileName key))]

/-- Takes steps one after the other, up to the first that fails. What was done before it stays. -/
def carryOut : List (Disk → Except SystemFault Disk) → Disk → Except StoreError Unit × Disk
  | [], d => (.ok (), d)
  | step :: rest, d =>
    match step d with
    | .error fault => (.error (.system fault), d)
    | .ok d => carryOut rest d

/-- Gives a key a value. -/
def put (s : FileStore) (d : Disk) (key : String) (value : ByteArray) :
    Except StoreError Unit × Disk :=
  carryOut (s.writeSteps key value) d

/-- Takes the file of a key away. There need not be one. -/
def delete (s : FileStore) (d : Disk) (key : String) : Except StoreError Unit × Disk :=
  match d.remove (s.placeOf (fileName key)) with
  | .error .notFound => (.ok (), d)
  | .error fault => (.error (.system fault), d)
  | .ok d => (.ok (), d)

/-- The keys that have files. -/
def keys (s : FileStore) (d : Disk) : Except StoreError (List String) :=
  match d.list s.folder with
  | .error fault => .error (.system fault)
  | .ok names => .ok (names.filterMap keyOf?)

end FileStore

end Roster
