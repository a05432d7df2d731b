import Stanzas.Files

/-!
# Files on a disk

`Disk` carries out operations on files for real. The system lets a program set permission bits but
does not tell them, and so a file whose text stays is taken to have the bits that are asked for. A
file that is replaced keeps its bits all the same: it is written over, unless the new file has got
bits from the program. While that goes on a reader may see a part of it. A backup copy is for its
owner alone. A tree is better in these points, and what is proved of trees is not meant for a disk.
-/

namespace Stanzas

/-- Actions on a disk, with the files that have got their bits from the program. -/
abbrev Disk := StateT (List Path) IO

namespace Disk

/-- A path as the system takes it. -/
def name (p : Path) : String := String.ofList p.text

/-- The number and the words of an error of the system. Some numbers come with a minus sign. -/
def told : IO.Error → Option (Nat × Text)
  | .alreadyExists _ code words | .otherError code words | .resourceBusy code words
  | .resourceVanished code words | .unsupportedOperation code words | .hardwareFault code words
  | .unsatisfiedConstraints code words | .illegalOperation code words | .protocolError code words
  | .timeExpired code words | .interrupted _ code words | .noFileOrDirectory _ code words
  | .invalidArgument _ code words | .permissionDenied _ code words
  | .resourceExhausted _ code words | .inappropriateType _ code words
  | .noSuchThing _ code words => some ((min code (0 - code)).toNat, words.toList)
  | .unexpectedEof | .userError _ => none

/-- The words for an error with their first letter in upper case, and its number. -/
def describe (number : Nat) (words : Text) : Text :=
  (words.take 1).map Char.toUpper ++ words.drop 1 ++
    " (os error ".toList ++ Nat.toDigits 10 number ++ [')']

/-- What has gone wrong. -/
def fault (e : IO.Error) : Fault :=
  match told e with
  | some (2, _) => .noEntry
  | some (17, _) => .occupied
  | some (20, _) => .notDirectory
  | some (21, _) => .isDirectory
  | some (36, _) => .nameTooLong
  | some (number, words) => .other (describe number words)
  | none => .other (toString e).toList

/-- What an action yields, or what has gone wrong with it. -/
def attempt {α : Type} (x : IO α) : IO (Except Fault α) := Except.mapError fault <$> x.toBaseIO

/-- The bytes of a file. -/
def read (p : Path) : IO (Except Fault ByteArray) := attempt (IO.FS.readBinFile (name p))

/-- Writes a file that only its owner can read and write. -/
def write (p : Path) (how : IO.FS.Mode) (bytes : ByteArray) : IO Unit := do
  let file ← IO.FS.Handle.mk (name p) how
  IO.setAccessRights (name p) { user := { read := true, write := true } }
  file.write bytes
  file.flush

/-- Whether there is anything at a path. -/
def find (p : Path) : IO (Except Fault Unit) := do
  match ← attempt (IO.FS.Handle.mk (name p) .read) with
  | .error .noEntry => return .error .noEntry
  | .error .notDirectory => return .error .notDirectory
  | .error .nameTooLong => return .error .nameTooLong
  | _ => return .ok ()

/-- Makes a file with a new name in the directory of a path. -/
def stage (p : Path) (bytes : ByteArray) : IO (Except Fault Path) := do
  let number := (← IO.monoNanosNow) + (← IO.rand 0 999999999)
  let staged := p.directory.child (".tmp".toList ++ Nat.toDigits 10 number)
  match ← attempt (write staged .writeNew bytes) with
  | .ok () => return .ok staged
  | .error fault =>
    let _ ← attempt (IO.FS.removeFile (name staged))
    return .error fault

/-- Puts the bytes of a file into another one that is there, and removes it. -/
def overwrite (src dst : Path) (bytes : ByteArray) : IO Unit := do
  IO.FS.writeBinFile (name dst) bytes
  IO.FS.removeFile (name src)

/-- Copies a file. -/
def copy (src dst : Path) : IO (Except Fault Unit) := do
  match ← read src with
  | .ok bytes => attempt (write dst .write bytes)
  | .error .isDirectory => return .error .notFile
  | .error fault => return .error fault

end Disk

instance : Files Disk where
  read p := Disk.read p
  mode p := do
    let found ← Disk.find p
    return found.map fun _ => none
  isDir p := do
    match ← Disk.read p with
    | .error .isDirectory => return true
    | _ => return false
  makeDir p := Disk.attempt (IO.FS.createDir (Disk.name p))
  stage p bytes := Disk.stage p bytes
  setMode p m := do
    modify (p :: ·)
    Disk.attempt (IO.Prim.setAccessRights (Disk.name p) m.toUInt32)
  rename src dst := do
    let given := (← get).contains src
    match ← Disk.read dst, given with
    | .ok _, false =>
      match ← Disk.read src with
      | .ok bytes => Disk.attempt (Disk.overwrite src dst bytes)
      | .error fault => return .error fault
    | _, _ => Disk.attempt (IO.FS.rename (Disk.name src) (Disk.name dst))
  remove p := do
    let _ ← Disk.attempt (IO.FS.removeFile (Disk.name p))
  copy src dst := Disk.copy src dst

end Stanzas
