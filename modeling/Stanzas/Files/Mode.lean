import Stanzas.Text.Blank

/-!
# Permission bits

`Mode.read` reads permission bits from octal digits such as `0600`, `600` or `0o600`. The digits are
read from the left into a word of 32 bits, and so the first of these is the error: a character that
is no digit, or a digit with which the number no longer fits.

Two of the bits are not about permissions. A program runs as the user or the group that its file
belongs to if these bits say so, and a directory with the second one hands its group on.
-/

namespace Stanzas

/-- The permission bits of a file. -/
abbrev Mode := Nat

namespace Mode

/-- The greatest number that is all permission bits. -/
def max : Mode := 0o7777

/-- The permission bits of a number. -/
def mask (m : Nat) : Mode := m % (max + 1)

@[simp] theorem mask_mask (m : Nat) : mask (mask m) = mask m := Nat.mod_mod m (max + 1)

/-- Whether a file runs as its user. -/
def setsUser (m : Mode) : Bool := m.testBit 11

/-- Whether a file runs as its group, or a directory hands its group on. -/
def setsGroup (m : Mode) : Bool := m.testBit 10

/-- Whether the group may run a file. -/
def groupRuns (m : Mode) : Bool := m.testBit 3

/-- The bits of a file once bytes have been written to it by a program that has no privilege to keep
them all. Such a file does not run as its user, nor as its group where the group may run it. -/
def written (m : Mode) : Mode :=
  m - (if m.setsUser then 0o4000 else 0) - (if m.setsGroup && m.groupRuns then 0o2000 else 0)

/-- The bits of a directory that is made in one with the bits `m`. -/
def ofNewDir (m : Mode) : Mode := if m.setsGroup then 0o2755 else 0o755

example : written 0o6711 = 0o711 := rfl
example : written 0o6701 = 0o2701 := rfl

/-- Why a text is no octal number. -/
inductive Misread where
  | empty
  | badDigit
  | tooLarge
  deriving DecidableEq, Repr

/-- The reason in words. -/
def Misread.message : Misread → Text
  | .empty => "cannot parse integer from empty string".toList
  | .badDigit => "invalid digit found in string".toList
  | .tooLarge => "number too large to fit in target type".toList

/-- The value of an octal digit. -/
def digit? (c : Char) : Option Nat :=
  if '0' ≤ c ∧ c ≤ '7' then some (c.toNat - '0'.toNat) else none

/-- The number that starts with the digits of `n` and goes on with those of the text. -/
def readDigits (n : Nat) : Text → Except Misread Nat
  | [] => .ok n
  | c :: t =>
    match digit? c with
    | none => .error .badDigit
    | some d => if n * 8 + d < UInt32.size then readDigits (n * 8 + d) t else .error .tooLarge

/-- An octal number, perhaps with a plus sign before it. -/
def readOctal : Text → Except Misread Nat
  | [] => .error .empty
  | ['+'] => .error .badDigit
  | '+' :: t => readDigits 0 t
  | t => readDigits 0 t

/-- What is wrong with a text for permission bits. -/
inductive Error where
  | notOctal (text : Text) (why : Misread)
  | tooLarge (text : Text)
  deriving DecidableEq, Repr

/-- The error in words. -/
def Error.message : Error → Text
  | .notOctal text why => "invalid octal mode '".toList ++ text ++ "': ".toList ++ why.message
  | .tooLarge text => "mode '".toList ++ text ++ "' exceeds 07777".toList

/-- The digits of a text without the sign `0o` for octal numbers. -/
def dropSign : Text → Text
  | '0' :: 'o' :: t => t
  | t => t

/-- The permission bits that a text names. -/
def read (t : Text) : Except Error Mode :=
  match readOctal (dropSign t) with
  | .error why => .error (.notOctal t why)
  | .ok m => if m ≤ max then .ok m else .error (.tooLarge t)

example : read ['0', 'o', '+', '6', '4', '4'] = .ok 0o644 := rfl
example : read ['9'] = .error (.notOctal ['9'] .badDigit) := rfl

end Mode

end Stanzas
