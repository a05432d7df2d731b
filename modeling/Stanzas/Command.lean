import Stanzas.Request.Reader

/-!
# The command

`runCommand` answers a command line: with one line of JSON that reports an edit or a failure, or
with a complaint about the command line itself.
-/

namespace Stanzas

/-- What the command answers. -/
structure Answer where
  /-- The exit code. -/
  code : Nat
  /-- What is written to the standard output. -/
  output : Text := []
  /-- What is written to the standard error. -/
  complaint : Text := []
  deriving DecidableEq, Repr

namespace Answer

/-- The answer after an edit. -/
def ofReport (r : Report) : Answer := { code := 0, output := r.toJson.render ++ ['\n'] }

/-- The answer after a failure. -/
def ofFailure (f : Failure) : Answer := { code := 1, output := f.toJson.render ++ ['\n'] }

/-- How the command is used. -/
def usage : List String :=
  ["Ensure an attribute or stanza is present or absent in a stanza file",
    "",
    "Usage: stanza-file [OPTIONS] --path <PATH>",
    "",
    "Options:",
    "  --path <PATH>        Stanza file to edit (also --dest)",
    "  --stanza <NAME>      Stanza name; omit, empty or 'null' for top-level attributes",
    "  --attr <NAME>        Attribute name; omit to act on the whole stanza",
    "  --value <VALUE>      Single attribute value",
    "  --values <VALUE>...  Attribute values (repeatable attribute)",
    "  --state <STATE>      Whether the attribute or stanza must exist: present or absent",
    "  --exclusive <BOOL>   Treat the given values as the complete set [default: true]",
    "  --allow-no-value     Allow attributes without a value",
    "  --no-extra-spaces    Write new attributes as 'name=value'",
    "  --create <BOOL>      Create the file if it does not exist [default: true]",
    "  --mode <MODE>        Permission bits of the written file, in octal (e.g. 0600)",
    "  --backup             Keep a timestamped copy of the file before changing it",
    "  --check              Report what would change without writing",
    "  --diff               Include before/after content in the report",
    "  -h, --help           Print help",
    "  -V, --version        Print version"]

/-- The answer where a command line is not read to its end. -/
def ofHalt : Halt → Answer
  | .help => { code := 0, output := usage.flatMap fun line => line.toList ++ ['\n'] }
  | .version => { code := 0, output := "stanza-file 0.1.0\n".toList }
  | h => { code := 2, complaint := "stanza-file: ".toList ++ h.message ++ ['\n'] }

end Answer

variable {m : Type → Type} [Monad m] [Files m]

/-- Answers a command line; the tag is for the name of a backup copy. -/
def runCommand (arguments : List Text) (tag : Text) : m Answer := do
  match Request.read arguments with
  | .error (.halt h) => return .ofHalt h
  | .error (.intent error) => return .ofFailure (.intent error)
  | .ok request =>
    match ← (request.run tag).run with
    | .ok report => return .ofReport report
    | .error failure => return .ofFailure failure

end Stanzas
