import Stanzas.Digest
import Stanzas.Plan

/-!
# Editing a text

`Intent.apply` reads a text, makes an intent hold of it and writes it again. Lines that the edit
does not concern keep every character; only a leading byte-order mark is lost. The outcome also says
which text it is an edit of, so that it is not written over another one.
-/

namespace Stanzas

/-- What an edit came to. -/
structure Outcome where
  text : Text
  reason : Reason
  /-- The digest of the text that was edited. -/
  base : Digest
  deriving DecidableEq, Repr

/-- Whether the edit has changed anything. -/
def Outcome.changed (o : Outcome) : Bool := o.reason.isChange

/-- Makes an intent hold of a text. -/
def Intent.apply (i : Intent) (style : Style) (t : Text) : Outcome :=
  let d := Document.read t
  let (patch, reason) := i.plan d
  { text := (patch.apply d).render style, reason, base := .ofText t }

end Stanzas
