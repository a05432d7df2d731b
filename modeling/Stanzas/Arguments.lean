import Stanzas.Files.Mode
import Stanzas.Files.Path
import Stanzas.Intent

/-!
# Arguments of a command line

`Arguments` holds what a command line has said so far. Options with a value and flags may be given
once, except for `--values`, which adds up. What ends the reading of a command line early is a
`Halt`.
-/

namespace Stanzas

/-- An option that takes a value. -/
inductive Setting where
  | path
  | stanza
  | attr
  | value
  | values
  | state
  | exclusive
  | create
  | mode
  deriving DecidableEq, Repr

/-- An option that takes no value. -/
inductive Flag where
  | allowNoValue
  | noExtraSpaces
  | backup
  | check
  | diff
  deriving DecidableEq, Repr

/-- The name of an option. -/
def Setting.name : Setting → Text
  | .path => "path".toList
  | .stanza => "stanza".toList
  | .attr => "attr".toList
  | .value => "value".toList
  | .values => "values".toList
  | .state => "state".toList
  | .exclusive => "exclusive".toList
  | .create => "create".toList
  | .mode => "mode".toList

/-- The name of an option without a value. -/
def Flag.name : Flag → Text
  | .allowNoValue => "allow-no-value".toList
  | .noExtraSpaces => "no-extra-spaces".toList
  | .backup => "backup".toList
  | .check => "check".toList
  | .diff => "diff".toList

/-! ## What ends the reading -/

/-- Why a command line is not read to its end. -/
inductive Halt where
  | help
  | version
  | unknown (argument : Text)
  | noValue (s : Setting)
  | flagValue (argument : Text)
  | settingTwice (s : Setting)
  | flagTwice (f : Flag)
  | emptyPath
  | badState (word : Text)
  | notBoolean (word : Text)
  | badMode (error : Mode.Error)
  /-- `--value` and `--values` are given. -/
  | valueAndValues
  | noPath
  deriving DecidableEq, Repr

/-- What stops the reading, in words. -/
def Halt.message : Halt → Text
  | .help => "help is asked for".toList
  | .version => "the version is asked for".toList
  | .unknown argument => "unexpected argument '".toList ++ argument ++ "'".toList
  | .noValue s => "a value is required for '--".toList ++ s.name ++ "'".toList
  | .flagValue argument => "no value is taken by '".toList ++ argument ++ "'".toList
  | .settingTwice s => "'--".toList ++ s.name ++ "' cannot be used twice".toList
  | .flagTwice f => "'--".toList ++ f.name ++ "' cannot be used twice".toList
  | .emptyPath => "a path cannot be empty".toList
  | .badState word => "invalid state '".toList ++ word ++ "'".toList
  | .notBoolean _ => "value was not a boolean".toList
  | .badMode error => error.message
  | .valueAndValues => "'--value' cannot be used with '--values'".toList
  | .noPath => "'--path' is required".toList

/-- What a command line has said. -/
structure Arguments where
  path : Option Path := none
  stanza : Option Text := none
  attr : Option Text := none
  value : Option Text := none
  values : List Text := []
  state : Option Presence := none
  exclusive : Option Bool := none
  create : Option Bool := none
  mode : Option Mode := none
  allowNoValue : Bool := false
  noExtraSpaces : Bool := false
  backup : Bool := false
  check : Bool := false
  diff : Bool := false
  deriving DecidableEq, Repr

/-! ## Values -/

/-- A path that is not empty. -/
def readPath (t : Text) : Except Halt Path :=
  if t = [] then .error .emptyPath else .ok ⟨t⟩

/-- The presence with a word. -/
def readState (t : Text) : Except Halt Presence :=
  (Presence.ofWord t).mapError fun _ => .badState t

/-- The words for yes. -/
def yesWords : List Text := ["y", "yes", "t", "true", "on", "1"].map String.toList

/-- The words for no. -/
def noWords : List Text := ["n", "no", "f", "false", "off", "0"].map String.toList

/-- The answer that a word gives, in capital or small letters. -/
def readBoolean (t : Text) : Except Halt Bool :=
  let word := t.map Char.toLower
  if word ∈ yesWords then .ok true
  else if word ∈ noWords then .ok false
  else .error (.notBoolean t)

/-- Permission bits in octal. -/
def readMode (t : Text) : Except Halt Mode := (Mode.read t).mapError .badMode

namespace Arguments

/-- Fills a place for one value. -/
def fill {α : Type} (s : Setting) (old : Option α) (new : Except Halt α) :
    Except Halt (Option α) :=
  if old.isSome then .error (.settingTwice s) else new.map some

/-- Puts a flag. -/
def raise (f : Flag) (old : Bool) : Except Halt Bool :=
  if old then .error (.flagTwice f) else .ok true

/-- Takes a value for an option. -/
def assign (a : Arguments) (s : Setting) (t : Text) : Except Halt Arguments := do
  match s with
  | .path => return { a with path := ← fill s a.path (readPath t) }
  | .stanza => return { a with stanza := ← fill s a.stanza (.ok t) }
  | .attr => return { a with attr := ← fill s a.attr (.ok t) }
  | .value => return { a with value := ← fill s a.value (.ok t) }
  | .values => return { a with values := a.values ++ [t] }
  | .state => return { a with state := ← fill s a.state (readState t) }
  | .exclusive => return { a with exclusive := ← fill s a.exclusive (readBoolean t) }
  | .create => return { a with create := ← fill s a.create (readBoolean t) }
  | .mode => return { a with mode := ← fill s a.mode (readMode t) }

/-- Takes a flag. -/
def put (a : Arguments) (f : Flag) : Except Halt Arguments := do
  match f with
  | .allowNoValue => return { a with allowNoValue := ← raise f a.allowNoValue }
  | .noExtraSpaces => return { a with noExtraSpaces := ← raise f a.noExtraSpaces }
  | .backup => return { a with backup := ← raise f a.backup }
  | .check => return { a with check := ← raise f a.check }
  | .diff => return { a with diff := ← raise f a.diff }

end Arguments

end Stanzas
