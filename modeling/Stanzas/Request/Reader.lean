import Stanzas.Arguments.Reader
import Stanzas.Intent.Draft
import Stanzas.Request

/-!
# Reading requests

`Request.read` finds the request in a command line. What only the whole command line shows comes
after the reading, in this order: `--value` does not go with `--values`, the path may not be
missing, and the rest has to make an intent.
-/

namespace Stanzas

/-- Why a command line is no request. -/
inductive Rejection where
  | halt (h : Halt)
  | intent (error : Intent.Error)
  deriving DecidableEq, Repr

/-- The draft of the intent that a command line is about. -/
def Arguments.draft (a : Arguments) : Draft where
  scope := .ofName a.stanza
  attr := a.attr
  values := match a.value with
    | some v => [v]
    | none => a.values
  presence := a.state.getD .present
  exclusive := a.exclusive.getD true
  allowNoValue := a.allowNoValue

namespace Request

/-- The request that arguments make. -/
def ofArguments (a : Arguments) : Except Rejection Request := do
  if a.value.isSome ∧ a.values ≠ [] then
    throw (.halt .valueAndValues)
  let some path := a.path | throw (.halt .noPath)
  let intent ← a.draft.check.mapError .intent
  return {
    path, intent
    create := a.create.getD true
    mode := a.mode
    backup := a.backup
    check := a.check
    diff := a.diff
    style := if a.noExtraSpaces then .compact else .spaced }

/-- The request in a command line. -/
def read (ts : List Text) : Except Rejection Request := do
  let a ← (Arguments.read ts).mapError .halt
  ofArguments a

end Request

end Stanzas
