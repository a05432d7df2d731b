import Stanzas.Document

/-!
# Scopes

An attribute belongs to the stanza whose header stands before it, or to the top level if none
does. A document is therefore a list of sections, one for the lines before the first header and one
for each header:

    d.sections.flatMap Section.lines = d.lines                               (flatMap_lines_sections)

Several stanzas may carry one name; a scope resolves to the first of them.
-/

namespace Stanzas

/-- Where an attribute belongs. -/
inductive Scope where
  | top
  | stanza (name : Text)
  deriving DecidableEq, Repr

namespace Scope

/-- The scope that a caller names: the top level if the name is missing, empty or `null`. -/
def ofName (name : Option Text) : Scope :=
  match name.map trim with
  | none => .top
  | some n => if n = [] ∨ n = ['n', 'u', 'l', 'l'] then .top else .stanza n

/-- The name of the stanza. -/
def name? : Scope → Option Text
  | .top => none
  | .stanza name => some name

/-- A scope as it is shown to a reader. -/
def label : Scope → Text
  | .top => "<top-level>".toList
  | .stanza name => name

end Scope

/-! ## Sections -/

/-- The lines of a scope. Those of a stanza start with its header. -/
structure Section where
  scope : Scope
  lines : List Line
  deriving DecidableEq, Repr

/-- The lines before the first header, and the section of each header. -/
def cutSections : List Line → List Line × List Section
  | [] => ([], [])
  | l :: ls =>
    let cut := cutSections ls
    match l.stanzaName? with
    | some name => ([], ⟨.stanza name, l :: cut.1⟩ :: cut.2)
    | none => (l :: cut.1, cut.2)

theorem flatMap_lines_cutSections (ls : List Line) :
    (cutSections ls).1 ++ (cutSections ls).2.flatMap Section.lines = ls := by
  induction ls with
  | nil => rfl
  | cons l ls ih =>
    simp only [cutSections]
    split <;> simp [ih]

namespace Document

/-- The sections of a document, that of the top level first. -/
def sections (d : Document) : List Section :=
  ⟨.top, (cutSections d.lines).1⟩ :: (cutSections d.lines).2

/-- Every line is in one section. -/
theorem flatMap_lines_sections (d : Document) : d.sections.flatMap Section.lines = d.lines := by
  simp [sections, flatMap_lines_cutSections]

end Document

end Stanzas
