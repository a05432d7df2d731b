import Stanzas.Scope

/-!
# Intents

An intent says what shall hold of a document: that an attribute of a scope has some values or has
them no longer, or that a whole scope is there or gone. `Draft` is an intent that nobody has checked
yet, and `Draft.check` finds the intent in it or the first thing wrong with it.
-/

namespace Stanzas

/-- Whether what an intent names shall be there. -/
inductive Presence where
  | present
  | absent
  deriving DecidableEq, Repr

/-- What shall hold of a document. -/
structure Intent where
  scope : Scope
  /-- Without an attribute the intent is about the whole scope. -/
  attr : Option Text
  /-- Values in the order of their first mention, none of them twice. -/
  values : List Text
  presence : Presence
  /-- Whether the values are all that the attribute shall have. -/
  exclusive : Bool
  /-- Whether the attribute may stand without a value. -/
  allowNoValue : Bool
  deriving DecidableEq, Repr

namespace Intent

/-- The values that a present attribute shall have; a bare attribute stands for none at all. -/
def desired (i : Intent) : List (Option Text) :=
  if i.values = [] ∧ i.allowNoValue ∧ i.presence = .present then [none] else i.values.map some

/-- What is wrong with a draft. -/
inductive Error where
  | missingValue
  | badStanza (name : Text)
  | badAttr (name : Text)
  | badValue (value : Text)
  | badPresence (text : Text)
  deriving DecidableEq, Repr

/-- The error in words. -/
def Error.message : Error → Text
  | .missingValue =>
    "Parameter 'value(s)' must be defined if state=present and allow_no_value=False.".toList
  | .badStanza name => "invalid stanza name: '".toList ++ name ++ "'".toList
  | .badAttr name => "invalid attribute name: '".toList ++ name ++ "'".toList
  | .badValue value => "invalid value: '".toList ++ value ++ "'".toList
  | .badPresence text =>
    "invalid state '".toList ++ text ++ "': expected 'present' or 'absent'".toList

end Intent

namespace Presence

/-- The word for a presence. -/
def word : Presence → Text
  | .present => "present".toList
  | .absent => "absent".toList

/-- The presence with the given word. -/
def ofWord (t : Text) : Except Intent.Error Presence :=
  if t = word .present then .ok .present
  else if t = word .absent then .ok .absent
  else .error (.badPresence t)

end Presence

end Stanzas
