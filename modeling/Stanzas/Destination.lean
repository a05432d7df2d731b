import Stanzas.Edit
import Stanzas.Failure

/-!
# The file that an edit is for

The text at a path is read, and replaced: `Path.replaceText` puts the new text into a file next to
the destination and moves that to its place. The destination has to hold the text that was edited
still, as a digest tells. Whatever goes wrong, the destination stays as it is and the new file goes.

A file that is missing counts as empty.
-/

namespace Stanzas

variable {m : Type → Type} [Monad m] [Files m]

/-- An operation on files whose fault is the reason of a failure. -/
def orFail {α : Type} (why : Fault → Failure) (x : m (Except Fault α)) : ExceptT Failure m α :=
  ExceptT.mk (Except.mapError why <$> x)

namespace Path

/-- The text at a path. Where there is no file it is empty, if one may be made. -/
def readText (p : Path) (create : Bool) : ExceptT Failure m Text := do
  match ← (Files.read p : m _) with
  | .error .noEntry => if create then return [] else throw (.missing p)
  | .error fault => throw (.read p fault)
  | .ok bytes =>
    match ofUTF8? bytes with
    | some t => return t
    | none => throw (.read p .notText)

/-- Whether a path leads to anything. -/
def isThere (p : Path) : m Bool := do
  match ← Files.mode p with
  | .ok _ => return true
  | .error _ => return false

/-- The path of a backup copy, with a tag that tells it from others. -/
def backup (p : Path) (tag : Text) : Path := ⟨p.text ++ '.' :: tag ++ ['~']⟩

/-- Copies the file, and tells the path of the copy. -/
def copyToBackup (p : Path) (tag : Text) : ExceptT Failure m Path := do
  orFail (.backup p) (Files.copy p (p.backup tag))
  return p.backup tag

/-- Whether the permission bits of a file differ from `mode`. Bits that are not told count as the
same. -/
def modeDiffers (p : Path) (mode : Mode) : ExceptT Failure m Bool := do
  let bits ← orFail (.read p) (Files.mode p)
  return bits.any fun b => Mode.mask b ≠ mode

/-- Gives other permission bits to a file. -/
def setMode (p : Path) (mode : Mode) : ExceptT Failure m Unit :=
  orFail (.write p) (Files.setMode p mode)

/-! ## Replacing the text -/

/-- The bits for a new file in the place of `p`: those that are asked for, else those of the file
that is there. -/
def bitsFor (p : Path) : Option Mode → m (Option Mode)
  | some mode => return some mode
  | none => do
    match ← Files.mode p with
    | .ok bits => return bits
    | .error _ => return none

/-- Moves a staged file to its destination, if that still holds the text with the digest `base`. -/
def settle (p staged : Path) (base : Digest) (mode : Option Mode) : ExceptT Failure m Unit := do
  let found := Digest.ofText (← p.readText true)
  if found ≠ base then
    throw (.conflict p base found)
  match ← (p.bitsFor mode : m _) with
  | some mode => orFail (.write p) (Files.setMode staged mode)
  | none => pure ()
  orFail (.write p) (Files.rename staged p)

/-- Replaces the text at a path, if it still has the digest `base`. Directories that the path needs
are made. -/
def replaceText (p : Path) (t : Text) (base : Digest) (mode : Option Mode) :
    ExceptT Failure m Unit := do
  orFail (.write p) (makeDirs p.directory)
  let staged ← orFail (.write p) (Files.stage p (utf8 t))
  try settle p staged base mode
  catch failure =>
    (Files.remove staged : m Unit)
    throw failure

end Path

end Stanzas
