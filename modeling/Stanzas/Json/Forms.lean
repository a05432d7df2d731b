import Stanzas.Json.Reader
import Stanzas.Plan

/-!
# JSON forms of scopes, presences, reasons and styles

A choice among cases is written as the name of the case, or as an object with the name as its only
field if the case carries something. A case that carries nothing may also be read from an object
that gives it `null`. The settings of a rendering are an object with the field `assignment`, or an
array with that one value; fields that are not known are passed over.
-/

namespace Stanzas

namespace Json

/-- The case that a value chooses, and what it carries. -/
def choice? : Json → Option (Text × Option Json)
  | .string points => (textOf? points).map (·, none)
  | .object [(name, v)] => (textOf? name).map (·, some v)
  | _ => none

/-- The case that a value chooses, if it carries nothing. -/
def bareChoice? (v : Json) : Option Text :=
  match v.choice? with
  | some (name, none) => some name
  | some (name, some .null) => some name
  | _ => none

/-- The one of some values that is written with the name that a JSON value chooses. -/
def named? (v : Json) (values : List α) (name : α → Text) : Option α := do
  let chosen ← v.bareChoice?
  values.find? (name · = chosen)

end Json

namespace Scope

/-- The JSON form of a scope. -/
def toJson : Scope → Json
  | .top => .text "TopLevel".toList
  | .stanza name => .record [("Stanza".toList, .text name)]

/-- The scope with a JSON form. -/
def ofJson? (v : Json) : Option Scope :=
  match v.choice? with
  | some (name, none) => if name = "TopLevel".toList then some .top else none
  | some (name, some content) =>
    if name = "TopLevel".toList then
      match content with
      | .null => some .top
      | _ => none
    else if name = "Stanza".toList then content.text?.map .stanza
    else none
  | none => none

end Scope

namespace Presence

/-- The JSON form of a presence. -/
def toJson (p : Presence) : Json := .text p.word

/-- The presence with a JSON form. -/
def ofJson? (v : Json) : Option Presence := v.named? [.present, .absent] word

end Presence

namespace Reason

/-- The JSON form of a reason. -/
def toJson (r : Reason) : Json := .text r.code

/-- The reason with a JSON form. -/
def ofJson? (v : Json) : Option Reason :=
  v.named? [.unchanged, .stanzaAndAttrAdded, .stanzaAdded, .attrAdded, .attrChanged, .stanzaRemoved]
    code

end Reason

namespace Style

/-- The word for a style. -/
def word : Style → Text
  | .spaced => "spaced".toList
  | .compact => "compact".toList

/-- The JSON form of a style. -/
def toJson (s : Style) : Json := .text s.word

/-- The style with a JSON form. -/
def ofJson? (v : Json) : Option Style := v.named? [.spaced, .compact] word

/-- The name of the field that holds the style among the settings of a rendering. -/
def settingName : Text := "assignment".toList

/-- The settings of a rendering in a style. -/
def toSettings (s : Style) : Json := .record [(settingName, s.toJson)]

/-- The style in the settings of a rendering, which name it exactly once. -/
def ofSettings? : Json → Option Style
  | .array [v] => ofJson? v
  | .object fields => do
    let named ← fields.mapM fun f => (Json.textOf? f.1).map (·, f.2)
    match named.filter (·.1 = settingName) with
    | [(_, v)] => ofJson? v
    | _ => none
  | _ => none

end Style

end Stanzas
