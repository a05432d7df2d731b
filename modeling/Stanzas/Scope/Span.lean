import Stanzas.Scope

/-!
# Where scopes and attributes stand

A span is a section with the number of its first line, and a place is an attribute line with its
number. An edit asks three things of them: which span a scope resolves to (`Document.span?`), where
an attribute occurs in it (`Span.occurrences`), and where a new attribute line goes
(`Span.appendLine`).
-/

namespace Stanzas

/-- A section and the number of its first line. -/
structure Span extends Section where
  start : Nat
  deriving DecidableEq, Repr

/-- An attribute line and its number. -/
structure Place where
  line : Nat
  name : Text
  value : Option Text
  deriving DecidableEq, Repr

namespace Span

/-- The number of the line after the last one. -/
def stop (s : Span) : Nat := s.start + s.lines.length

/-- The attribute lines of a span. -/
def places (s : Span) : List Place :=
  (s.lines.zipIdx s.start).filterMap fun l => l.1.attribute?.map fun a => ⟨l.2, a.1, a.2⟩

/-- The lines of an attribute. -/
def occurrences (s : Span) (attr : Text) : List Place := s.places.filter (·.name = attr)

/-- The last attribute line. -/
def lastAttribute? (s : Span) : Option Nat := s.places.getLast?.map Place.line

/-- Where a new attribute line goes: after the last attribute of any name, and in a span without
one after the header, or to the front of the document. -/
def appendLine (s : Span) : Nat :=
  match s.lastAttribute?, s.scope with
  | some line, _ => line + 1
  | none, .stanza _ => s.start + 1
  | none, .top => s.start

end Span

/-- Sections one after another, the first of which starts at the given line. -/
def spansFrom : Nat → List Section → List Span
  | _, [] => []
  | start, s :: ss => ⟨s, start⟩ :: spansFrom (start + s.lines.length) ss

namespace Document

/-- The spans of a document, that of the top level first. -/
def spans (d : Document) : List Span := spansFrom 0 d.sections

/-- The spans of a scope; more than one if several stanzas carry its name. -/
def spansOf (d : Document) (s : Scope) : List Span := d.spans.filter (·.scope = s)

/-- The span that a scope resolves to, the first of its spans. -/
def span? (d : Document) (s : Scope) : Option Span := d.spans.find? (·.scope = s)

/-- The values of an attribute in the span that a scope resolves to; a bare attribute has none. -/
def values (d : Document) (s : Scope) (attr : Text) : List (Option Text) :=
  match d.span? s with
  | some span => (span.occurrences attr).map Place.value
  | none => []

/-- The top level always resolves. -/
theorem isSome_span?_top (d : Document) : (d.span? .top).isSome = true := by
  simp [span?, spans, sections, spansFrom]

end Document

end Stanzas
