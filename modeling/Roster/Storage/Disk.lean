import Roster.System.Fault

/-!
# Disks

A tree of folders and files, as far as the program uses one. A place is named by the names from the
root down to it; the root itself is always a folder. Of a file it only matters whether it is a whole
record or a text, so a file is known by the record or the text that it holds, or is some other file.

A walk to a place fails where the system would: at a name that is missing or too long, and at a file
that stands where a folder is needed.
-/

namespace Roster

/-- A path from the root, name by name. -/
abbrev Place := List String

/-- The place that a path names, seen from another place: names with slashes between them, where a
    point stands for the place itself and two points for the one above. -/
def Place.resolve (p : Place) (path : String) : Place :=
  (path.toList.splitOn '/').foldl (fun p part =>
    match part with
    | [] | ['.'] => p
    | ['.', '.'] => p.dropLast
    | _ => p ++ [String.ofList part]) (if path.toList.head? = some '/' then [] else p)

/-- What may be found at a place. -/
inductive Node where
  | folder
  | text (content : String)
  /-- a file that holds a record under its key -/
  | record (key : String) (value : ByteArray)
  /-- a file that holds anything else -/
  | other

/-- It is the record of a key with a value. -/
def Node.holds (n : Node) (key : String) (value : ByteArray) : Bool :=
  match n with
  | .record k v => k == key && v.data == value.data
  | _ => false

/-- What is on a disk. The root is a folder and need not be there. -/
structure Disk where
  nodes : List (Place × Node) := []

namespace Disk

/-- What is at a place. -/
def node? (d : Disk) (p : Place) : Option Node :=
  match p with
  | [] => some .folder
  | p => d.nodes.lookup p

/-- Puts something at a place, instead of what was there. -/
def set (d : Disk) (p : Place) (n : Node) : Disk :=
  ⟨(p, n) :: d.nodes.filter fun item => item.1 ≠ p⟩

/-- Takes away what is at a place. -/
def clear (d : Disk) (p : Place) : Disk :=
  ⟨d.nodes.filter fun item => item.1 ≠ p⟩

/-- Takes away a place and everything below it. -/
def clearBelow (d : Disk) (p : Place) : Disk :=
  ⟨d.nodes.filter fun item => !p.isPrefixOf item.1⟩

/-- The most octets that a name may have. -/
def longestName : Nat := 255

/-- Walks down from a place: what stands at the end, if all before it are folders. -/
def walk (d : Disk) (p : Place) : List String → Except SystemFault (Option Node)
  | [] => .ok (d.node? p)
  | name :: rest =>
    match d.node? p with
    | none => .error .notFound
    | some .folder =>
      if longestName < name.utf8ByteSize then .error .nameTooLong else walk d (p ++ [name]) rest
    | some _ => .error .notADirectory

/-- What is at a place, unless the way there is barred. There may be nothing. -/
def reach (d : Disk) (p : Place) : Except SystemFault (Option Node) :=
  d.walk [] p

/-- What is at a place, where there has to be something. -/
def openNode (d : Disk) (p : Place) : Except SystemFault Node :=
  match d.reach p with
  | .error fault => .error fault
  | .ok none => .error .notFound
  | .ok (some n) => .ok n

/-- Reads the text in a file; none if what stands there is no text. -/
def readText (d : Disk) (p : Place) : Except SystemFault (Option String) :=
  match d.openNode p with
  | .error fault => .error fault
  | .ok (.text content) => .ok (some content)
  | .ok _ => .ok none

/-- Writes a file, in the place of one that is there. -/
def write (d : Disk) (p : Place) (content : Node) : Except SystemFault Disk :=
  match d.reach p with
  | .error fault => .error fault
  | .ok (some .folder) => .error .isADirectory
  | .ok _ => .ok (d.set p content)

/-- Moves a file to a place, over the file that may be there. -/
def rename (d : Disk) (source target : Place) : Except SystemFault Disk :=
  match d.openNode source, d.reach target with
  | .error fault, _ => .error fault
  | _, .error fault => .error fault
  | _, .ok (some .folder) => .error .isADirectory
  | .ok content, .ok _ => .ok ((d.clear source).set target content)

/-- Takes a file away. -/
def remove (d : Disk) (p : Place) : Except SystemFault Disk :=
  match d.openNode p with
  | .error fault => .error fault
  | .ok .folder => .error .isADirectory
  | .ok _ => .ok (d.clear p)

/-- The name of a place in a folder, if it stands directly in it. -/
def nameIn (folder : Place) (p : Place) : Option String :=
  match p.reverse with
  | [] => none
  | name :: rest => if rest.reverse = folder then some name else none

/-- The names in a folder. -/
def list (d : Disk) (folder : Place) : Except SystemFault (List String) :=
  match d.openNode folder with
  | .error fault => .error fault
  | .ok .folder => .ok (d.nodes.filterMap fun item => nameIn folder item.1)
  | .ok _ => .error .notADirectory

/-- Makes the folders down from a place that are missing. -/
def makeBelow (d : Disk) (p : Place) : List String → Except SystemFault Disk
  | [] => .ok d
  | name :: rest =>
    if longestName < name.utf8ByteSize then .error .nameTooLong
    else
      let here := p ++ [name]
      match d.node? here with
      | none => makeBelow (d.set here .folder) here rest
      | some .folder => makeBelow d here rest
      | some _ => .error (if rest.isEmpty then .exists else .notADirectory)

/-- Makes a folder, and all folders above it that are missing. -/
def makeFolders (d : Disk) (p : Place) : Except SystemFault Disk :=
  d.makeBelow [] p

end Disk

end Roster
