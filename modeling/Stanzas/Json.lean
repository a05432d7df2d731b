import Stanzas.Text.Blank

/-!
# JSON values and their text

A string of JSON is a list of code points. Most strings are texts, but an escape may also name one
half of a surrogate pair, which is no character; `Json.text?` is the text of a string that has one.
`Json.render` writes a value on one line, without a blank between its parts, and escapes only what
has to be escaped.
-/

namespace Stanzas

/-- A value of JSON. The fields of an object keep their order, and a name may occur twice. -/
inductive Json where
  | null
  | bool (b : Bool)
  | number (literal : Text)
  | string (points : List Nat)
  | array (items : List Json)
  | object (fields : List (List Nat × Json))

namespace Json

/-! ## Strings -/

/-- A first half of a surrogate pair. -/
def IsHigh (n : Nat) : Prop := 0xD800 ≤ n ∧ n < 0xDC00

instance : DecidablePred IsHigh := fun _ => inferInstanceAs (Decidable (_ ∧ _))

/-- A second half of a surrogate pair. -/
def IsLow (n : Nat) : Prop := 0xDC00 ≤ n ∧ n < 0xE000

instance : DecidablePred IsLow := fun _ => inferInstanceAs (Decidable (_ ∧ _))

/-- The character that the two halves of a pair name. -/
def ofPair (high low : Nat) : Char :=
  Char.ofNat (0x10000 + (high - 0xD800) * 0x400 + (low - 0xDC00))

/-- The text of some code points; a half without the other one belongs to no text. -/
def textOf? : List Nat → Option Text
  | [] => some []
  | high :: low :: rest =>
    if IsHigh high ∧ IsLow low then (textOf? rest).map (ofPair high low :: ·)
    else if high.isValidChar then (textOf? (low :: rest)).map (Char.ofNat high :: ·)
    else none
  | [n] => if n.isValidChar then some [Char.ofNat n] else none

/-- The string of a text. -/
def text (t : Text) : Json := .string (t.map Char.toNat)

/-- The text of a string. -/
def text? : Json → Option Text
  | .string points => textOf? points
  | _ => none

/-- An object whose names are texts. -/
def record (fields : List (Text × Json)) : Json :=
  .object (fields.map fun f => (f.1.map Char.toNat, f.2))

/-! ## Rendering -/

/-- Four hexadecimal digits. -/
def hex4 (n : Nat) : Text :=
  [Nat.digitChar (n / 4096 % 16), Nat.digitChar (n / 256 % 16), Nat.digitChar (n / 16 % 16),
    Nat.digitChar (n % 16)]

/-- How a code point is written in a string. -/
def renderPoint (n : Nat) : Text :=
  if n = '"'.toNat then ['\\', '"']
  else if n = '\\'.toNat then ['\\', '\\']
  else if n = 0x08 then ['\\', 'b']
  else if n = 0x09 then ['\\', 't']
  else if n = 0x0A then ['\\', 'n']
  else if n = 0x0C then ['\\', 'f']
  else if n = 0x0D then ['\\', 'r']
  else if n < 0x20 ∨ ¬ n.isValidChar then '\\' :: 'u' :: hex4 n
  else [Char.ofNat n]

/-- A string in quotes. -/
def renderString (points : List Nat) : Text := '"' :: points.flatMap renderPoint ++ ['"']

mutual

/-- The text of a value. -/
def render : Json → Text
  | .null => ['n', 'u', 'l', 'l']
  | .bool true => ['t', 'r', 'u', 'e']
  | .bool false => ['f', 'a', 'l', 's', 'e']
  | .number literal => literal
  | .string points => renderString points
  | .array items => '[' :: [','].intercalate (renderItems items) ++ [']']
  | .object fields => '{' :: [','].intercalate (renderFields fields) ++ ['}']

/-- The texts of some values. -/
def renderItems : List Json → List Text
  | [] => []
  | v :: rest => v.render :: renderItems rest

/-- The texts of some fields. -/
def renderFields : List (List Nat × Json) → List Text
  | [] => []
  | (name, v) :: rest => (renderString name ++ ':' :: v.render) :: renderFields rest

end

end Json

end Stanzas
