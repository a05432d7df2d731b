import Stanzas.Files
import Stanzas.Text.Bytes

/-!
# File trees

A file tree holds directories and files by the names that lead to them. `FileTree.find` follows a
path the way a system does: every name but the last has to be that of a directory, and `..` goes one
directory up. Names and paths have a greatest length in bytes. Reading, making, moving and copying
are functions of the tree, and together they make `StateM FileTree` a monad with `Files`.

Permission bits keep nobody from doing anything to a tree. One thing is as it is for a program without
privileges all the same: the bits that make a file run as its owner get lost where the file is written
(`copyMode`). A program with the privilege to keep them (on Linux `CAP_FSETID`) would make copies that
have all bits of the file.
-/

namespace Stanzas

/-- The names that lead from the top of a tree to an entry. -/
abbrev Key := List Text

/-- An entry of a file tree. -/
inductive Node where
  | dir (mode : Mode)
  | file (bytes : ByteArray) (mode : Mode)

/-- The permission bits of an entry. -/
def Node.mode : Node → Mode
  | .dir mode => mode
  | .file _ mode => mode

/-- The bits of a directory that a program makes by default. -/
def dirMode : Mode := Mode.ofNewDir 0

/-- Directories and files. The directory at the top has no entry, but bits. -/
structure FileTree where
  entries : List (Key × Node) := []
  top : Mode := dirMode

namespace FileTree

/-- The bits of a file that a program has made for itself. -/
def stagedMode : Mode := 0o600

/-- What is in the tree under a key. -/
def node? (t : FileTree) (k : Key) : Option Node :=
  if k = [] then some (.dir t.top) else (t.entries.find? (·.1 = k)).map Prod.snd

/-- The tree with another entry under a key. -/
def insert (t : FileTree) (k : Key) (n : Node) : FileTree :=
  { t with entries := (k, n) :: t.entries.filter (·.1 ≠ k) }

/-- The tree without the entry under a key. -/
def erase (t : FileTree) (k : Key) : FileTree :=
  { t with entries := t.entries.filter (·.1 ≠ k) }

theorem node?_insert {t : FileTree} {k l : Key} {n : Node} (hk : k ≠ []) :
    (t.insert k n).node? l = if l = k then some n else t.node? l := by
  by_cases hl : l = k
  · subst hl
    simp [node?, insert, hk]
  · have : k ≠ l := fun h => hl h.symm
    by_cases h0 : l = []
    · simp [node?, insert, h0, hk.symm]
    · simp only [node?, insert, h0, hl, if_false, List.find?_cons, this, decide_false]
      congr 1
      rw [List.find?_filter]
      congr 1
      funext e
      by_cases he : e.1 = l <;> simp [he, hl]

theorem node?_erase {t : FileTree} {k l : Key} (hk : k ≠ []) :
    (t.erase k).node? l = if l = k then none else t.node? l := by
  by_cases hl : l = k
  · subst hl
    simp [node?, erase, hk]
  · by_cases h0 : l = []
    · simp [node?, erase, h0, hk.symm]
    · simp only [node?, erase, h0, hl, if_false]
      congr 1
      rw [List.find?_filter]
      congr 1
      funext e
      by_cases he : e.1 = l <;> simp [he, hl]

/-! ## Following a path -/

/-- The greatest number of bytes in a name. -/
def maxName : Nat := 255

/-- The greatest number of bytes in a path. -/
def maxPath : Nat := 4095

/-- What a path leads to. -/
inductive Spot where
  | found (k : Key) (n : Node)
  /-- Nothing, but the directory that it would be in is there. -/
  | free (k : Key)

/-- Follows names from a directory. A name is too long only where it is looked up. -/
def walk (t : FileTree) (here : Key) : List Text → Except Fault Spot
  | [] => .ok (.found here ((t.node? here).getD (.dir dirMode)))
  | name :: rest =>
    if name = ['.', '.'] then t.walk here.dropLast rest
    else if maxName < (utf8 name).size then .error .nameTooLong
    else
      match t.node? (here ++ [name]), rest with
      | none, [] => .ok (.free (here ++ [name]))
      | none, _ :: _ => .error .noEntry
      | some (.dir _), rest => t.walk (here ++ [name]) rest
      | some (.file bytes mode), [] => .ok (.found (here ++ [name]) (.file bytes mode))
      | some (.file _ _), _ :: _ => .error .notDirectory

/-- Follows a path. -/
def find (t : FileTree) (p : Path) : Except Fault Spot :=
  if p.text = [] then .error .noEntry
  else if '\x00' ∈ p.text then .error .nulInName
  else if maxPath < (utf8 p.text).size then .error .nameTooLong
  else
    match t.walk [] p.names, p.ending with
    | .ok (.found _ (.file _ _)), .slash => .error .notDirectory
    | .ok (.found _ (.file _ _)), .dot => .error .notDirectory
    | .ok (.free _), .slash => .error .noEntry
    | .ok (.free _), .dot => .error .noEntry
    | spot, _ => spot

/-- Follows a path to the entry that it leads to. -/
def lookup (t : FileTree) (p : Path) : Except Fault (Key × Node) :=
  match t.find p with
  | .ok (.found k n) => .ok (k, n)
  | .ok (.free _) => .error .noEntry
  | .error fault => .error fault

/-! ## Operations -/

/-- The bytes of a file. -/
def read (t : FileTree) (p : Path) : Except Fault ByteArray :=
  match t.lookup p with
  | .ok (_, .file bytes _) => .ok bytes
  | .ok (_, .dir _) => .error .isDirectory
  | .error fault => .error fault

/-- The permission bits of an entry. -/
def mode (t : FileTree) (p : Path) : Except Fault Mode :=
  (t.lookup p).map fun found => Mode.mask found.2.mode

/-- Whether a path leads to a directory. -/
def isDir (t : FileTree) (p : Path) : Bool := t.lookup p matches .ok (_, .dir _)

/-- The tree with one more directory. -/
def makeDir (t : FileTree) (p : Path) : Except Fault FileTree :=
  match t.find p with
  | .ok (.free k) =>
    .ok (t.insert k (.dir (((t.node? k.dropLast).map Node.mode).getD dirMode).ofNewDir))
  | .ok (.found _ _) => .error .occupied
  | .error fault => .error fault

/-- The name for a new file that has some number. -/
def stagedName (n : Nat) : Text := ".tmp".toList ++ Nat.toDigits 10 n

/-- The names of the entries and of a path. -/
def usedNames (t : FileTree) (p : Path) : List Text := p.names ++ t.entries.flatMap Prod.fst

/-- The first name for a new file that nothing has. As many names as there are and one more are
enough to find it among them. -/
def freshName (t : FileTree) (p : Path) : Text :=
  let used := t.usedNames p
  (((List.range (used.length + 1)).map stagedName).find? (!used.contains ·)).getD []

/-- The tree with a new file in the directory of a path, and the path of the new file. -/
def stage (t : FileTree) (p : Path) (bytes : ByteArray) : Except Fault (Path × FileTree) :=
  match t.find (p.directory.child (t.freshName p)) with
  | .ok (.free k) =>
    .ok (p.directory.child (t.freshName p), t.insert k (.file bytes stagedMode))
  | .ok (.found _ _) => .error .occupied
  | .error fault => .error fault

/-- The tree with other permission bits of an entry. -/
def setMode (t : FileTree) (p : Path) (m : Mode) : Except Fault FileTree :=
  match t.lookup p with
  | .ok (k, .file bytes _) => .ok (t.insert k (.file bytes (Mode.mask m)))
  | .ok (k, .dir _) =>
    .ok (if k = [] then { t with top := Mode.mask m } else t.insert k (.dir (Mode.mask m)))
  | .error fault => .error fault

/-- Where a file can be moved to. A path with a slash at its end takes no file. -/
def target (t : FileTree) (p : Path) : Except Fault Key :=
  match t.find p, p.ending with
  | .ok (.free k), _ => .ok k
  | .ok (.found k (.file _ _)), _ => .ok k
  | .ok (.found _ (.dir _)), _ => .error .isDirectory
  | .error .noEntry, .slash => if t.isDir p.directory then .error .notDirectory else .error .noEntry
  | .error fault, _ => .error fault

/-- The tree with a file moved to another path. -/
def rename (t : FileTree) (src dst : Path) : Except Fault FileTree :=
  match t.lookup src, t.target dst with
  | .error fault, _ => .error fault
  | .ok _, .error fault => .error fault
  | .ok (k, n), .ok l => .ok ((t.erase k).insert l n)

/-- The tree without a file. -/
def remove (t : FileTree) (p : Path) : FileTree :=
  match t.lookup p with
  | .ok (k, .file _ _) => t.erase k
  | _ => t

/-- The bits of a copy of a file. They are set before the bytes are written, and the program is taken
for one that may not keep those bits which get lost then. -/
def copyMode (bytes : ByteArray) (mode : Mode) : Mode :=
  if bytes.isEmpty then mode else mode.written

/-- The tree with a copy of a file. -/
def copy (t : FileTree) (src dst : Path) : Except Fault FileTree :=
  match t.lookup src with
  | .error fault => .error fault
  | .ok (_, .dir _) => .error .notFile
  | .ok (_, .file bytes mode) =>
    match t.find dst with
    | .ok (.free k) => .ok (t.insert k (.file bytes (copyMode bytes mode)))
    | .ok (.found k (.file _ _)) => .ok (t.insert k (.file bytes (copyMode bytes mode)))
    | .ok (.found _ (.dir _)) => .error .isDirectory
    | .error fault => .error fault

end FileTree

/-- An operation that takes effect on the tree, or fails without any. -/
def onTree {α : Type} (f : FileTree → Except Fault (α × FileTree)) :
    StateM FileTree (Except Fault α) := fun t =>
  match f t with
  | .ok (a, t) => (.ok a, t)
  | .error fault => (.error fault, t)

instance : Files (StateM FileTree) where
  read p := fun t => (t.read p, t)
  mode p := fun t => ((t.mode p).map some, t)
  isDir p := fun t => (t.isDir p, t)
  makeDir p := onTree fun t => (t.makeDir p).map ((), ·)
  stage p bytes := onTree fun t => t.stage p bytes
  setMode p m := onTree fun t => (t.setMode p m).map ((), ·)
  rename src dst := onTree fun t => (t.rename src dst).map ((), ·)
  remove p := fun t => ((), t.remove p)
  copy src dst := onTree fun t => (t.copy src dst).map ((), ·)

end Stanzas
