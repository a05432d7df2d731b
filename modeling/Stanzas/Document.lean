import Stanzas.Line
import Stanzas.Text.Lines

/-!
# Documents

A document is the list of its lines, and whether a newline ends the last one. `Document.read` reads
it from a text, without a leading byte-order mark, and `Document.render` writes it as a text: lines
kept from the file as they are, the others in one of two styles. Reading loses nothing:

    (Document.read t).render style = dropMark t                                      (render_read)
-/

namespace Stanzas

/-- The lines of a file, and whether a newline ends the last one. -/
structure Document where
  lines : List Line
  ended : Bool
  deriving DecidableEq, Repr

/-- How an edit writes an attribute with a value. -/
inductive Style where
  /-- `name = value` -/
  | spaced
  /-- `name=value` -/
  | compact
  deriving DecidableEq, Repr

namespace Style

/-- What stands between name and value. -/
def sign : Style → Text
  | .spaced => [' ', '=', ' ']
  | .compact => ['=']

end Style

/-- The text of a line; attributes that an edit has written are indented inside a stanza. -/
def Line.render (style : Style) (inStanza : Bool) : Line → Text
  | .kept raw => raw
  | .blank => []
  | .header name => name ++ [':']
  | .attribute name value =>
    (if inStanza then [' ', ' '] else []) ++ name ++
      match value with
      | some v => style.sign ++ v
      | none => []

namespace Document

/-- The lines of a text, without a leading byte-order mark. -/
def read (t : Text) : Document :=
  let cut := cutLines (dropMark t)
  ⟨cut.1.map .kept, cut.2⟩

/-- The texts of lines; the flag tells whether a header stands before them. -/
def renderLines (style : Style) : Bool → List Line → List Text
  | _, [] => []
  | inStanza, l :: ls =>
    let inStanza := inStanza || l.stanzaName?.isSome
    l.render style inStanza :: renderLines style inStanza ls

/-- The text of a document. One without lines is a single newline if it is ended. -/
def render (style : Style) (d : Document) : Text :=
  joinLines (renderLines style false d.lines) d.ended

/-- The names of the stanzas in the order of their headers, repeated names included. -/
def stanzaNames (d : Document) : List Text := d.lines.filterMap Line.stanzaName?

theorem renderLines_map_kept (style : Style) (inStanza : Bool) (ls : List Text) :
    renderLines style inStanza (ls.map .kept) = ls := by
  induction ls generalizing inStanza with
  | nil => rfl
  | cons l ls ih => simp [renderLines, Line.render, ih]

/-- A document that no edit has touched is written as it was read. -/
theorem render_read (style : Style) (t : Text) : (read t).render style = dropMark t := by
  simp only [render, read, renderLines_map_kept, joinLines_cutLines]

end Document

end Stanzas
