import Stanzas.Destination
import Stanzas.Report

/-!
# Requests

A request names a file and an intent, and says how the file is to be treated. `Request.run` makes
the intent hold of the file and reports what that came to. A file for which the intent holds already
is not written again; at most its permission bits change.
-/

namespace Stanzas

/-- An edit of one file. -/
structure Request where
  path : Path
  intent : Intent
  /-- Whether a file that is missing is made. -/
  create : Bool := true
  /-- The permission bits that the file shall have. -/
  mode : Option Mode := none
  /-- Whether a copy of the file is kept. -/
  backup : Bool := false
  /-- Whether the edit is only reported and nothing is written. -/
  check : Bool := false
  /-- Whether the report shows the text before and after the edit. -/
  diff : Bool := false
  style : Style := .spaced
  deriving DecidableEq, Repr

namespace Request

variable {m : Type → Type} [Monad m] [Files m]

/-- The report of an edit that has not written anything yet. -/
def report (r : Request) (before : Text) (o : Outcome) : Report where
  changed := o.changed
  reason := o.reason
  path := r.path
  backup := none
  diff := if r.diff then some (.between r.path before o.text) else none

/-- Gives the file the permission bits that are asked for, and tells whether it has others. -/
def adjustMode (r : Request) : ExceptT Failure m Bool := do
  match r.mode with
  | none => return false
  | some mode =>
    if ← (r.path.isThere : m Bool) then
      if ← r.path.modeDiffers mode then
        if r.check then return true
        r.path.setMode mode
        return true
      else return false
    else return false

/-- Keeps a copy of a file that is there, if one is asked for. -/
def keepCopy (r : Request) (tag : Text) : ExceptT Failure m (Option Path) := do
  if r.backup then
    if ← (r.path.isThere : m Bool) then
      return some (← r.path.copyToBackup tag)
    else return none
  else return none

/-- Carries out a request; the tag is for the name of a backup copy. -/
def run (r : Request) (tag : Text) : ExceptT Failure m Report := do
  let before ← r.path.readText r.create
  let outcome := r.intent.apply r.style before
  let report := r.report before outcome
  if outcome.changed then
    if r.check then return report
    else
      let backup ← r.keepCopy tag
      r.path.replaceText outcome.text outcome.base r.mode
      return { report with backup }
  else
    let changed ← r.adjustMode
    return { report with changed }

end Request

end Stanzas
