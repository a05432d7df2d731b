import Stanzas.Edit
import Stanzas.Failure
import Stanzas.Json

/-!
# Reports

What the edit of a file came to is reported as one JSON object, for a success

    {"changed":…,"msg":…,"path":…,"backup_file":…,"diff":{…}}

where the last two fields are missing unless there is a backup and a diff was asked for, and for a
failure

    {"failed":true,"msg":…,"rc":…}

where the last one is missing unless the failure has a code.
-/

namespace Stanzas

/-- The text of a file before and after an edit. -/
structure Diff where
  path : Path
  before : Text
  after : Text
  deriving DecidableEq, Repr

namespace Diff

/-- The diff of two texts. A byte-order mark does not count, since no edit keeps it. -/
def between (path : Path) (before after : Text) : Diff := ⟨path, dropMark before, after⟩

/-- What stands above either text. -/
def header (d : Diff) : Text := d.path.text ++ " (content)".toList

/-- The JSON form of a diff. -/
def toJson (d : Diff) : Json :=
  .record [("before".toList, .text d.before), ("after".toList, .text d.after),
    ("before_header".toList, .text d.header), ("after_header".toList, .text d.header)]

end Diff

/-- What the edit of a file came to. -/
structure Report where
  /-- Whether the text or the permission bits change. -/
  changed : Bool
  /-- What the edit does to the text. -/
  reason : Reason
  path : Path
  backup : Option Path
  diff : Option Diff
  deriving DecidableEq, Repr

/-- The JSON form of a report. -/
def Report.toJson (r : Report) : Json :=
  .record <|
    [("changed".toList, .bool r.changed), ("msg".toList, .text r.reason.code),
      ("path".toList, .text r.path.text)] ++
    (r.backup.map fun p => ("backup_file".toList, Json.text p.text)).toList ++
    (r.diff.map fun d => ("diff".toList, d.toJson)).toList

/-- The JSON form of a failure. -/
def Failure.toJson (f : Failure) : Json :=
  .record <|
    [("failed".toList, .bool true), ("msg".toList, .text f.message)] ++
    (f.code?.map fun n => ("rc".toList, Json.number (Nat.toDigits 10 n))).toList

end Stanzas
