import Stanzas.Text.Blank

/-!
# Paths

A path is a text with names between slashes. Empty names and the name `.` lead nowhere and do not
count among the names of a path, but a path that ends with one of them leads to a directory or
nowhere at all.
-/

namespace Stanzas

/-- A way to a file. -/
structure Path where
  text : Text
  deriving DecidableEq, Repr

namespace Path

/-- The parts of a path between its slashes. -/
def pieces (p : Path) : List Text := p.text.splitOn '/'

/-- Whether a part of a path is a name that leads somewhere. -/
def isName (n : Text) : Bool := n ≠ [] ∧ n ≠ ['.']

/-- The names on the way. -/
def names (p : Path) : List Text := p.pieces.filter isName

/-- Whether the way starts at the root. -/
def isAbsolute (p : Path) : Bool := p.text.head? = some '/'

/-- How a path ends. -/
inductive Ending where
  /-- With a name. -/
  | name
  /-- With a slash behind a name. -/
  | slash
  /-- With the name `.`, perhaps with a slash behind it. -/
  | dot
  deriving DecidableEq, Repr

/-- How the path ends. -/
def ending (p : Path) : Ending :=
  if (p.pieces.filter (· ≠ [])).getLast? = some ['.'] then .dot
  else if p.text.getLast? = some '/' then .slash
  else .name

/-- The paths that end with a name of the given parts. The last part comes first. -/
def waysOf : List Text → List Path
  | [] => []
  | n :: above =>
    if isName n then ⟨['/'].intercalate (n :: above).reverse⟩ :: waysOf above else waysOf above

/-- The paths to the names on the way, the last one first. -/
def ways (p : Path) : List Path := waysOf p.pieces.reverse

/-- The directory that the last name of a path stands in. -/
def directory (p : Path) : Path :=
  match p.ways with
  | _ :: above :: _ => above
  | _ => if p.isAbsolute then ⟨['/']⟩ else ⟨['.']⟩

/-- The path of a name in a directory. -/
def child (p : Path) (name : Text) : Path := ⟨p.text ++ '/' :: name⟩

example : (Path.mk ['a', '/', '.', '/', 'b', '/']).directory = ⟨['a']⟩ := by decide
example : (Path.mk ['/', 'a']).directory = ⟨['/']⟩ := by decide

end Path

end Stanzas
