import Stanzas.Digest
import Stanzas.Files
import Stanzas.Intent

/-!
# Failures

A `Failure` says why an edit of a file did not take place: there is nothing to edit, the intent is
none, the file could not be read, backed up or written, or somebody else has written it meanwhile.
-/

namespace Stanzas

/-- Why a file was not edited. -/
inductive Failure where
  /-- There is no such file, and none shall be made. -/
  | missing (path : Path)
  | intent (error : Intent.Error)
  | read (path : Path) (fault : Fault)
  | backup (path : Path) (fault : Fault)
  | write (path : Path) (fault : Fault)
  /-- The file holds another text than the one that was edited. -/
  | conflict (path : Path) (expected found : Digest)
  deriving DecidableEq, Repr

namespace Failure

/-- The failure in words. -/
def message : Failure → Text
  | .missing path => "Destination ".toList ++ path.text ++ " does not exist!".toList
  | .intent error => error.message
  | .read path fault => "failed to read ".toList ++ path.text ++ ": ".toList ++ fault.message
  | .backup path fault => "failed to back up ".toList ++ path.text ++ ": ".toList ++ fault.message
  | .write path fault => "failed to write ".toList ++ path.text ++ ": ".toList ++ fault.message
  | .conflict path expected found =>
    path.text ++ " was modified concurrently (expected ".toList ++ expected.hex ++
      ", found ".toList ++ found.hex ++ ")".toList

/-- The code that is reported with a failure that has one. -/
def code? : Failure → Option Nat
  | .missing _ => some 257
  | _ => none

end Failure

end Stanzas
