/-!
# Faults of the operating system

What the system answers when it refuses to open, to write or to listen: a number and a phrase.
-/

namespace Roster

/-- Why the operating system does not do what it is asked for. -/
inductive SystemFault where
  | notFound
  | permissionDenied
  | exists
  | notADirectory
  | isADirectory
  | nameTooLong
  | addressInUse
  deriving DecidableEq, Repr

namespace SystemFault

/-- The number of a fault. -/
def number : SystemFault → Nat
  | .notFound => 2
  | .permissionDenied => 13
  | .exists => 17
  | .notADirectory => 20
  | .isADirectory => 21
  | .nameTooLong => 36
  | .addressInUse => 98

/-- The words for a fault. -/
def phrase : SystemFault → String
  | .notFound => "No such file or directory"
  | .permissionDenied => "Permission denied"
  | .exists => "File exists"
  | .notADirectory => "Not a directory"
  | .isADirectory => "Is a directory"
  | .nameTooLong => "File name too long"
  | .addressInUse => "Address already in use"

/-- What is said about a fault. -/
def message (f : SystemFault) : String :=
  f.phrase ++ " (os error " ++ toString f.number ++ ")"

end SystemFault

end Roster
