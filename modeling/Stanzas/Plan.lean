import Stanzas.Intent
import Stanzas.Patch
import Stanzas.Scope.Span

/-!
# Planning an edit

`Intent.plan` finds the smallest patch after which an intent holds of a document, and says in a
`Reason` what kind of edit that is. The patch is empty if the intent holds already.

* A scope that is missing is written at the end of the document, after a blank line.
* Values that are missing go behind the last attribute of the scope. Where the intent names all the
  values that the attribute shall have, they go behind the last value that stays, or take the place
  of the first one that goes.
* A stanza that shall be gone goes with all its lines, and so do all others of its name. Of the top
  level only the attributes go.
-/

namespace Stanzas

/-- What an edit does to a document. -/
inductive Reason where
  | unchanged
  | stanzaAndAttrAdded
  | stanzaAdded
  | attrAdded
  | attrChanged
  | stanzaRemoved
  deriving DecidableEq, Repr

/-- The reason as it is reported. -/
def Reason.code : Reason → Text
  | .unchanged => "OK".toList
  | .stanzaAndAttrAdded => "stanza and attr added".toList
  | .stanzaAdded => "only stanza added".toList
  | .attrAdded => "attr added".toList
  | .attrChanged => "attr changed".toList
  | .stanzaRemoved => "stanza removed".toList

/-- Whether the edit changes anything. -/
def Reason.isChange (r : Reason) : Bool := r ≠ .unchanged

namespace Patch

/-- Also deletes the lines of some places. -/
def deletePlaces (p : Patch) (places : List Place) : Patch :=
  places.foldl (fun p place => p.delete place.line) p

/-- Also deletes all lines of some spans. -/
def deleteSpans (p : Patch) (spans : List Span) : Patch :=
  spans.foldl (fun p s => p.deleteRange s.start s.stop) p

/-- Also inserts attribute lines in front of line `n`. -/
def insertAttr (p : Patch) (n : Nat) (attr : Text) (values : List (Option Text)) : Patch :=
  p.insert n (values.map (Line.attribute attr))

/-- Also writes a stanza to the end of a document, with a blank line before it. -/
def appendStanza (p : Patch) (d : Document) (s : Scope) (body : List Line) : Patch :=
  match s with
  | .top => p
  | .stanza name =>
    let gap := if d.lines.getLast?.any Line.isBlank then [] else [Line.blank]
    p.insert d.lines.length (gap ++ .header name :: body)

end Patch

namespace Span

/-- The attribute gets exactly the desired values: values that are desired stay where they are, the
others go, and those that are missing are written in one block. -/
def replaceValues (s : Span) (attr : Text) (desired : List (Option Text)) : Patch × Reason :=
  match s.occurrences attr with
  | [] => (.insertAttr ∅ s.appendLine attr desired, .attrAdded)
  | first :: rest =>
    let places := first :: rest
    let kept := places.filter (·.value ∈ desired)
    let dropped := places.filter (·.value ∉ desired)
    let missing := desired.filter (· ∉ places.map Place.value)
    if dropped = [] ∧ missing = [] then (∅, .unchanged)
    else
      let line := match kept.getLast? with
        | some place => place.line + 1
        | none => first.line
      ((Patch.deletePlaces ∅ dropped).insertAttr line attr missing, .attrChanged)

/-- The attribute gets the desired values that it lacks. -/
def addValues (s : Span) (attr : Text) (desired : List (Option Text)) : Patch × Reason :=
  match desired.filter (· ∉ (s.occurrences attr).map Place.value) with
  | [] => (∅, .unchanged)
  | v :: missing => (.insertAttr ∅ s.appendLine attr (v :: missing), .attrAdded)

/-- The scope loses its lines, and so do all others of its name; the top level loses its
attributes. -/
def remove (s : Span) (d : Document) : Patch × Reason :=
  match s.scope with
  | .top =>
    match s.places with
    | [] => (∅, .unchanged)
    | place :: places => (.deletePlaces ∅ (place :: places), .stanzaRemoved)
  | .stanza name => (.deleteSpans ∅ (d.spansOf (.stanza name)), .stanzaRemoved)

end Span

namespace Intent

/-- The attribute loses some of its lines. -/
def dropPlaces : List Place → Patch × Reason
  | [] => (∅, .unchanged)
  | place :: places => (.deletePlaces ∅ (place :: places), .attrChanged)

/-- The patch after which the intent holds of a document, and what it does. -/
def plan (i : Intent) (d : Document) : Patch × Reason :=
  match d.span? i.scope, i.attr, i.presence with
  | none, _, .absent => (∅, .unchanged)
  | none, none, .present => (.appendStanza ∅ d i.scope [], .stanzaAdded)
  | none, some attr, .present =>
    (.appendStanza ∅ d i.scope (i.desired.map (Line.attribute attr)), .stanzaAndAttrAdded)
  | some _, none, .present => (∅, .unchanged)
  | some s, none, .absent => s.remove d
  | some s, some attr, .present =>
    if i.exclusive then s.replaceValues attr i.desired else s.addValues attr i.desired
  | some s, some attr, .absent =>
    if i.exclusive then dropPlaces (s.occurrences attr)
    else dropPlaces ((s.occurrences attr).filter (·.value ∈ i.values.map some))

/-- The document after the edit. -/
def edit (i : Intent) (d : Document) : Document := (i.plan d).1.apply d

end Intent

end Stanzas
