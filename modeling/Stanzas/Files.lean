import Stanzas.Files.Mode
import Stanzas.Files.Path

/-!
# What an edit asks of a file system

`Files m` lists the operations on files that an edit needs, as actions of a monad `m`. Each of them
takes effect or fails without any. They can be carried out on a disk or on a `FileTree`.
-/

namespace Stanzas

/-- Why an operation on a file has failed. -/
inductive Fault where
  | noEntry
  | occupied
  | notDirectory
  | isDirectory
  | nameTooLong
  /-- A name holds the character that ends names elsewhere. -/
  | nulInName
  /-- The file is not UTF-8. -/
  | notText
  /-- Only files can be copied. -/
  | notFile
  /-- Any other reason, in the words of the system. -/
  | other (message : Text)
  deriving DecidableEq, Repr

/-- The reason in words. -/
def Fault.message : Fault → Text
  | .noEntry => "No such file or directory (os error 2)".toList
  | .occupied => "File exists (os error 17)".toList
  | .notDirectory => "Not a directory (os error 20)".toList
  | .isDirectory => "Is a directory (os error 21)".toList
  | .nameTooLong => "File name too long (os error 36)".toList
  | .nulInName => "file name contained an unexpected NUL byte".toList
  | .notText => "stream did not contain valid UTF-8".toList
  | .notFile => "the source path is neither a regular file nor a symlink to a regular file".toList
  | .other message => message

/-- The operations on files that an edit needs. -/
class Files (m : Type → Type) where
  /-- The bytes of a file. -/
  read : Path → m (Except Fault ByteArray)
  /-- The permission bits of a file or a directory, where the system tells them. -/
  mode : Path → m (Except Fault (Option Mode))
  /-- Whether a path leads to a directory. -/
  isDir : Path → m Bool
  /-- Makes a directory in a directory that is there. -/
  makeDir : Path → m (Except Fault Unit)
  /-- Makes a file with the given bytes, which only its owner can read and write, in the directory
  of a path and under a name that nothing else has, and tells the path of the new file. -/
  stage : Path → ByteArray → m (Except Fault Path)
  /-- Gives other permission bits to a file or a directory. -/
  setMode : Path → Mode → m (Except Fault Unit)
  /-- Moves a file to another path, in place of a file that is there. -/
  rename : Path → Path → m (Except Fault Unit)
  /-- Removes a file. -/
  remove : Path → m Unit
  /-- Copies the bytes and the permission bits of a file to another path. -/
  copy : Path → Path → m (Except Fault Unit)

variable {m : Type → Type} [Monad m] [Files m]

/-- Makes the first of some directories, of which each stands in the next one, and makes those first
if it has to. One that is there already is as good as made. -/
def makeWays : List Path → m (Except Fault Unit)
  | [] => pure (.ok ())
  | path :: above => do
    let settle : Except Fault Unit → m (Except Fault Unit)
      | .ok () => pure (.ok ())
      | .error fault => do
        if ← Files.isDir path then return .ok () else return .error fault
    match ← Files.makeDir path with
    | .error .noEntry =>
      match ← makeWays above with
      | .ok () => settle (← Files.makeDir path)
      | .error fault => return .error fault
    | made => settle made

/-- Makes a directory and those that it stands in. -/
def makeDirs (p : Path) : m (Except Fault Unit) := makeWays p.ways

end Stanzas
