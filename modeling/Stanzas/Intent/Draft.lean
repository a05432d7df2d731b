import Stanzas.Intent

/-!
# Drafts of intents

A draft holds names and values as a caller gives them. `Draft.check` takes the blanks off all of
them, drops repeated values, and refuses what no line of a file could hold:

* a stanza name that starts with `#` or holds a blank or an equals sign;
* an attribute name that is empty, starts with `#`, ends with a colon, or holds an equals sign or a
  line break;
* a value that holds a line break;
* a present attribute without a value, unless it may stand bare.

The first of these in this order is the error. Names keep the blanks inside an attribute.
-/

namespace Stanzas

/-- An intent that nobody has checked. -/
structure Draft where
  scope : Scope
  attr : Option Text := none
  values : List Text := []
  presence : Presence := .present
  exclusive : Bool := true
  allowNoValue : Bool := false
  deriving DecidableEq, Repr

/-- A character that ends a line, or is taken for a part of its end. -/
def IsBreak (c : Char) : Prop := c = '\n' ∨ c = '\r'

instance : DecidablePred IsBreak := fun _ => inferInstanceAs (Decidable (_ ∨ _))

/-- A trimmed name that can open a stanza. -/
def StanzaName (n : Text) : Prop := n.head? ≠ some '#' ∧ ∀ c ∈ n, isBlank c = false ∧ c ≠ '='

instance : DecidablePred StanzaName := fun n =>
  @instDecidableAnd _ _ _ (List.decidableBAll _ n)

/-- A trimmed name that can stand before the equals sign of an attribute, or alone. -/
def AttrName (n : Text) : Prop :=
  n ≠ [] ∧ n.head? ≠ some '#' ∧ n.getLast? ≠ some ':' ∧ ∀ c ∈ n, c ≠ '=' ∧ ¬ IsBreak c

instance : DecidablePred AttrName := fun n =>
  have : Decidable (∀ c ∈ n, c ≠ '=' ∧ ¬ IsBreak c) := List.decidableBAll _ n
  inferInstanceAs (Decidable (_ ∧ _ ∧ _ ∧ _))

/-- A text that fits on one line. -/
def OneLine (t : Text) : Prop := ∀ c ∈ t, ¬ IsBreak c

instance : DecidablePred OneLine := fun t => List.decidableBAll _ t

namespace Draft

open Intent (Error)

/-- The scope with its name trimmed; an empty name stands for the top level. -/
def checkScope : Scope → Except Error Scope
  | .top => .ok .top
  | .stanza name =>
    if trim name = [] then .ok .top
    else if StanzaName (trim name) then .ok (.stanza (trim name))
    else .error (.badStanza (trim name))

/-- The attribute with its name trimmed. -/
def checkAttr : Option Text → Except Error (Option Text)
  | none => .ok none
  | some name =>
    if AttrName (trim name) then .ok (some (trim name)) else .error (.badAttr (trim name))

/-- The values, trimmed and each once. -/
def checkValues (values : List Text) : Except Error (List Text) :=
  match (values.map trim).find? (¬ OneLine ·) with
  | some v => .error (.badValue v)
  | none => .ok (values.map trim).eraseDups

/-- The intent in a draft, or the first thing that is wrong with it. -/
def check (d : Draft) : Except Error Intent := do
  let scope ← checkScope d.scope
  let attr ← checkAttr d.attr
  let values ← checkValues d.values
  if attr ≠ none ∧ d.presence = .present ∧ values = [] ∧ ¬ d.allowNoValue then
    throw .missingValue
  return { d with scope, attr, values }

/-- One thing that a caller says about a draft. -/
inductive Step where
  | attr (name : Text)
  | value (v : Text)
  | values (vs : List Text)
  | presence (p : Presence)
  | absent
  | exclusive (b : Bool)
  | allowNoValue (b : Bool)
  deriving DecidableEq, Repr

/-- Values add up; of all else the last word counts. -/
def step (d : Draft) : Step → Draft
  | .attr name => { d with attr := some name }
  | .value v => { d with values := d.values ++ [v] }
  | .values vs => { d with values := d.values ++ vs }
  | .presence p => { d with presence := p }
  | .absent => { d with presence := .absent }
  | .exclusive b => { d with exclusive := b }
  | .allowNoValue b => { d with allowNoValue := b }

/-- The draft that some steps make. -/
def ofSteps (scope : Scope) (steps : List Step) : Draft := steps.foldl step { scope }

end Draft

/-- The draft that holds just what an intent holds. -/
def Intent.draft (i : Intent) : Draft := { i with }

end Stanzas
