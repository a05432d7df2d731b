import Stanzas.Text.Blank

/-!
# Lines of a stanza file

A line is blank, a comment, the header `name:` that opens a stanza, or an attribute, `name = value`
or a bare `name`. `Kind.ofText` reads the kind off the text of a line, whatever it holds:

* a line of blanks only is blank;
* a line whose first character other than a blank is `#` is a comment;
* a line that is a word, a colon and then blanks only is a header (`Word` says what a word is);
* any other line is an attribute, cut at its first `=`.

A `Line` is either kept from a file, and then its text decides its kind, or written by an edit.
-/

namespace Stanzas

/-- What a line is. -/
inductive Kind where
  | blank
  | comment
  | header (name : Text)
  | attribute (name : Text) (value : Option Text)
  deriving DecidableEq, Repr

/-- What may stand before the colon of a header: a text without blanks and equals signs. -/
def Word (t : Text) : Prop := t ≠ [] ∧ ∀ c ∈ t, isBlank c = false ∧ c ≠ '='

instance : DecidablePred Word := fun t =>
  @instDecidableAnd _ _ _ (List.decidableBAll _ t)

/-- The name in a header without blanks at its end. -/
def headerName? (t : Text) : Option Text :=
  if t.getLast? = some ':' ∧ Word t.dropLast then some t.dropLast else none

theorem headerName?_eq_some_iff {t n : Text} : headerName? t = some n ↔ t = n ++ [':'] ∧ Word n := by
  unfold headerName?
  constructor
  · intro h
    split at h
    · next hc =>
      obtain ⟨ys, rfl⟩ := List.getLast?_eq_some_iff.1 hc.1
      simp only [List.dropLast_concat, Option.some.injEq] at h hc
      exact h ▸ ⟨rfl, hc.2⟩
    · simp at h
  · rintro ⟨rfl, hn⟩
    simp [hn]

/-- An attribute read from its trimmed text: its name and value stand around the first `=`. -/
def Kind.ofAttribute (t : Text) : Kind :=
  match t.dropWhile (· ≠ '=') with
  | [] => .attribute t none
  | _ :: value => .attribute (trim (t.takeWhile (· ≠ '='))) (some (trim value))

/-- A text without a carriage return at its end. -/
def dropReturn (t : Text) : Text := if t.getLast? = some '\r' then t.dropLast else t

/-- The name in a header, which stands at the front of its line. -/
def leadingName? (t : Text) : Option Text :=
  if t.head?.any isBlank then none else headerName? (trimEnd t)

/-- The kind of a line with the given text, which stands without its newline. -/
def Kind.ofText (raw : Text) : Kind :=
  let text := dropReturn raw
  match trim text with
  | [] => .blank
  | '#' :: _ => .comment
  | c :: t =>
    match leadingName? text with
    | some name => .header name
    | none => .ofAttribute (c :: t)

example : Kind.ofText ['a', ':', '\r'] = .header ['a'] := by decide
example : Kind.ofText [' ', 'a', ':'] = .attribute ['a', ':'] none := by decide
example : Kind.ofText ['a', '=', ' ', 'b', '='] = .attribute ['a'] (some ['b', '=']) := by decide

/-- A line of a document: one of the file, as it stands there, or one that an edit has written. -/
inductive Line where
  | kept (raw : Text)
  | blank
  | header (name : Text)
  | attribute (name : Text) (value : Option Text)
  deriving DecidableEq, Repr

namespace Line

/-- What a line is. -/
def kind : Line → Kind
  | .kept raw => .ofText raw
  | .blank => .blank
  | .header name => .header name
  | .attribute name value => .attribute name value

/-- The text of a line kept from a file. -/
def raw? : Line → Option Text
  | .kept raw => some raw
  | _ => none

/-- Whether an edit has written the line. -/
def isFresh (l : Line) : Bool := l.raw?.isNone

/-- Whether the line is blank. -/
def isBlank (l : Line) : Bool := l.kind = .blank

/-- The name of the stanza that the line opens. -/
def stanzaName? (l : Line) : Option Text :=
  match l.kind with
  | .header name => some name
  | _ => none

/-- The name and the value of an attribute line. -/
def attribute? (l : Line) : Option (Text × Option Text) :=
  match l.kind with
  | .attribute name value => some (name, value)
  | _ => none

end Line

end Stanzas
