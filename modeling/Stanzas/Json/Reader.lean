import Stanzas.Json

/-!
# Reading JSON

`Json.read?` reads a text that is one value with blanks around it. A reader takes its value off the
front of a text and hands on the rest. Every step of the two readers that call each other takes a
character, so the length of the text bounds the number of steps.
-/

namespace Stanzas.Json

/-- A text without the blanks of JSON at its front. -/
def skipBlanks (t : Text) : Text :=
  t.dropWhile fun c => c = ' ' || c = '\t' || c = '\n' || c = '\r'

/-- The value of a hexadecimal digit. -/
def hexValue? (c : Char) : Option Nat :=
  if '0' ≤ c ∧ c ≤ '9' then some (c.toNat - '0'.toNat)
  else if 'a' ≤ c ∧ c ≤ 'f' then some (c.toNat - 'a'.toNat + 10)
  else if 'A' ≤ c ∧ c ≤ 'F' then some (c.toNat - 'A'.toNat + 10)
  else none

/-- What a character after a backslash stands for. -/
def escape? : Char → Option Nat
  | '"' => some '"'.toNat
  | '\\' => some '\\'.toNat
  | '/' => some '/'.toNat
  | 'b' => some 0x08
  | 'f' => some 0x0C
  | 'n' => some 0x0A
  | 'r' => some 0x0D
  | 't' => some 0x09
  | _ => none

/-- The code points up to the quote that closes a string. -/
def readString : Text → Option (List Nat × Text)
  | '"' :: rest => some ([], rest)
  | '\\' :: 'u' :: a :: b :: c :: d :: rest => do
    let n := (← hexValue? a) * 4096 + (← hexValue? b) * 256 + (← hexValue? c) * 16 + (← hexValue? d)
    let (points, rest) ← readString rest
    return (n :: points, rest)
  | '\\' :: c :: rest => do
    let n ← escape? c
    let (points, rest) ← readString rest
    return (n :: points, rest)
  | c :: rest => do
    if c.toNat < 0x20 ∨ c = '\\' then failure
    let (points, rest) ← readString rest
    return (c.toNat :: points, rest)
  | [] => none

/-- The digits at the front of a text, of which there has to be one. -/
def readDigits (t : Text) : Option (Text × Text) :=
  match t.takeWhile Char.isDigit with
  | [] => none
  | digits => some (digits, t.dropWhile Char.isDigit)

/-- The whole part of a number, which starts with a zero only if it is one. -/
def readWhole : Text → Option (Text × Text)
  | '0' :: rest => some (['0'], rest)
  | t => readDigits t

/-- The fraction of a number, if there is one. -/
def readFraction : Text → Option (Text × Text)
  | '.' :: t => do
    let (digits, rest) ← readDigits t
    return ('.' :: digits, rest)
  | t => some ([], t)

/-- The exponent of a number, if there is one. -/
def readExponent : Text → Option (Text × Text)
  | e :: t =>
    if e = 'e' ∨ e = 'E' then
      let (sign, t) := match t with
        | '+' :: t => (['+'], t)
        | '-' :: t => (['-'], t)
        | t => ([], t)
      do
        let (digits, rest) ← readDigits t
        return (e :: sign ++ digits, rest)
    else some ([], e :: t)
  | [] => some ([], [])

/-- A number without its sign. -/
def readNumber (t : Text) : Option (Text × Text) := do
  let (whole, t) ← readWhole t
  let (fraction, t) ← readFraction t
  let (exponent, t) ← readExponent t
  return (whole ++ fraction ++ exponent, t)

mutual

/-- A value at the front of a text. -/
def readValue : Nat → Text → Option (Json × Text)
  | 0, _ => none
  | n + 1, t =>
    match skipBlanks t with
    | 'n' :: 'u' :: 'l' :: 'l' :: rest => some (.null, rest)
    | 't' :: 'r' :: 'u' :: 'e' :: rest => some (.bool true, rest)
    | 'f' :: 'a' :: 'l' :: 's' :: 'e' :: rest => some (.bool false, rest)
    | '"' :: rest => (readString rest).map fun r => (.string r.1, r.2)
    | '[' :: rest =>
      match skipBlanks rest with
      | ']' :: rest => some (.array [], rest)
      | rest => (readItems n rest).map fun r => (.array r.1, r.2)
    | '{' :: rest =>
      match skipBlanks rest with
      | '}' :: rest => some (.object [], rest)
      | rest => (readFields n rest).map fun r => (.object r.1, r.2)
    | '-' :: rest => (readNumber rest).map fun r => (.number ('-' :: r.1), r.2)
    | rest => (readNumber rest).map fun r => (.number r.1, r.2)

/-- The values up to the bracket that closes an array. -/
def readItems : Nat → Text → Option (List Json × Text)
  | 0, _ => none
  | n + 1, t => do
    let (v, rest) ← readValue n t
    match skipBlanks rest with
    | ']' :: rest => return ([v], rest)
    | ',' :: rest =>
      let (vs, rest) ← readItems n rest
      return (v :: vs, rest)
    | _ => none

/-- The fields up to the brace that closes an object. -/
def readFields : Nat → Text → Option (List (List Nat × Json) × Text)
  | 0, _ => none
  | n + 1, t =>
    match skipBlanks t with
    | '"' :: t => do
      let (name, rest) ← readString t
      match skipBlanks rest with
      | ':' :: rest =>
        let (v, rest) ← readValue n rest
        match skipBlanks rest with
        | '}' :: rest => return ([(name, v)], rest)
        | ',' :: rest =>
          let (fields, rest) ← readFields n rest
          return ((name, v) :: fields, rest)
        | _ => none
      | _ => none
    | _ => none

end

/-- The value that a text is. -/
def read? (t : Text) : Option Json :=
  match readValue (2 * t.length + 1) t with
  | some (v, rest) => if skipBlanks rest = [] then some v else none
  | none => none

end Stanzas.Json
