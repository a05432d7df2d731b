import Stanzas.Arguments

/-!
# Reading a command line

`Arguments.read` reads a command line from left to right; the first thing wrong with it counts. An
option has its value behind an equals sign, or in the next argument if that does not start with a
dash; a lone dash is a value. `--values` takes all such arguments that follow it. After `--` nothing
may follow.

An option that waits for its value is settled by the argument that ends the waiting: only then it
turns out whether it got one, has been given before, or cannot be read. An argument that nobody
knows is refused without that.
-/

namespace Stanzas

/-- What an argument with dashes asks for. -/
inductive Wish where
  | setting (s : Setting)
  | flag (f : Flag)
  | help
  | version
  deriving DecidableEq, Repr

/-- The names of the options; the path has two. -/
def Wish.names : List (Text × Wish) :=
  [.path, .stanza, .attr, .value, .values, .state, .exclusive, .create, .mode].map
      (fun s => (s.name, .setting s)) ++
    [.allowNoValue, .noExtraSpaces, .backup, .check, .diff].map (fun f => (f.name, .flag f)) ++
    [("dest".toList, .setting .path), ("help".toList, .help), ("version".toList, .version)]

/-- What the option with a name asks for. -/
def Wish.ofName? (name : Text) : Option Wish :=
  (names.find? (·.1 = name)).map Prod.snd

/-- One argument of a command line. -/
inductive Token where
  /-- An option, perhaps with a value behind an equals sign. -/
  | wish (w : Wish) (value : Option Text)
  /-- An argument with dashes that is no option. -/
  | stranger
  /-- The argument `--`. -/
  | last
  /-- Any other argument. -/
  | bare
  deriving DecidableEq, Repr

/-- What follows the first equals sign of a text. -/
def behindSign? (t : Text) : Option Text :=
  match t.dropWhile (· ≠ '=') with
  | [] => none
  | _ :: value => some value

/-- What an argument is. Of an argument with one dash only the first letter counts. -/
def Token.ofText : Text → Token
  | ['-', '-'] => .last
  | '-' :: '-' :: t =>
    match Wish.ofName? (t.takeWhile (· ≠ '=')) with
    | some w => .wish w (behindSign? t)
    | none => .stranger
  | ['-'] => .bare
  | '-' :: c :: _ =>
    if c = 'h' then .wish .help none
    else if c = 'V' then .wish .version none
    else .stranger
  | _ => .bare

/-- An option that waits for its value, and what it has got so far. -/
structure Waiting where
  setting : Setting
  got : List Text
  deriving DecidableEq, Repr

/-- Whether the option takes one more argument. -/
def Waiting.takesMore (w : Waiting) : Bool := w.setting = .values ∨ w.got = []

namespace Arguments

/-- Ends the waiting of an option. -/
def settle (a : Arguments) : Option Waiting → Except Halt Arguments
  | none => .ok a
  | some ⟨s, []⟩ => .error (.noValue s)
  | some ⟨s, t :: ts⟩ => (t :: ts).foldlM (fun a t => a.assign s t) a

/-- Reads on where some option may wait for its value. -/
def readOn (a : Arguments) (waiting : Option Waiting) : List Text → Except Halt Arguments
  | [] => a.settle waiting
  | t :: rest =>
    match Token.ofText t, waiting with
    | .wish (.setting s) none, _ => do
      let a ← a.settle waiting
      a.readOn (some ⟨s, []⟩) rest
    | .wish (.setting s) (some v), _ => do
      let a ← a.settle waiting
      let a ← a.assign s v
      a.readOn none rest
    | .wish (.flag f) none, _ => do
      let a ← a.settle waiting
      let a ← a.put f
      a.readOn none rest
    | .wish .help none, _ => do
      let _ ← a.settle waiting
      throw .help
    | .wish .version none, _ => do
      let _ ← a.settle waiting
      throw .version
    | .wish _ (some _), _ => .error (.flagValue t)
    | .stranger, _ => .error (.unknown t)
    | .last, _ =>
      match rest with
      | [] => a.settle waiting
      | next :: _ => .error (.unknown next)
    | .bare, none => .error (.unknown t)
    | .bare, some w =>
      if w.takesMore then a.readOn (some { w with got := w.got ++ [t] }) rest
      else .error (.unknown t)

/-- Reads a command line. -/
def read (ts : List Text) : Except Halt Arguments := readOn {} none ts

end Arguments

end Stanzas
