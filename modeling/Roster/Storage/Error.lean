import Roster.System.Fault

/-!
# Errors of the backends

Why a backend did not do what it was asked for.
-/

namespace Roster

/-- Why a backend has failed. -/
inductive StoreError where
  /-- the operating system refused -/
  | system (fault : SystemFault)
  /-- a record could not be written out -/
  | encode
  /-- what was found is no record -/
  | decode
  | unavailable (reason : String)
  deriving DecidableEq, Repr

/-- What is said about an error. The last word about records belongs to their codec. -/
def StoreError.message : StoreError → String
  | .system fault => "I/O error: " ++ fault.message
  | .encode => "encode error"
  | .decode => "decode error"
  | .unavailable reason => "backend unavailable: " ++ reason

end Roster
