import Std.Time.Zoned
import Stanzas.Command
import Stanzas.Files.Disk

/-!
# The program

The program answers its command line with `runCommand`, on the files of the disk.
-/

namespace Stanzas

/-- A number with two digits. -/
def twoDigits (n : Int) : String := if n < 10 then "0" ++ toString n else toString n

/-- The process and the local time, which tell a backup copy from others. -/
def backupTag : IO Text := do
  let status ← (IO.FS.readFile "/proc/self/stat").toBaseIO
  let process := match status with
    | .ok status => status.toList.takeWhile Char.isDigit
    | .error _ => ['0']
  let now ← Std.Time.PlainDateTime.now
  let date := "-".intercalate
    [toString now.date.year.toInt, twoDigits now.date.month.val, twoDigits now.date.day.val]
  let time := ":".intercalate
    [twoDigits now.time.hour.val, twoDigits now.time.minute.val, twoDigits now.time.second.val]
  return process ++ '.' :: date.toList ++ '@' :: time.toList

end Stanzas

open Stanzas in
/-- Answers the command line. -/
def main (arguments : List String) : IO UInt32 := do
  let tag ← backupTag
  let (answer, _) ← (runCommand (arguments.map String.toList) tag : Disk Answer).run []
  IO.print (String.ofList answer.output)
  IO.eprint (String.ofList answer.complaint)
  return answer.code.toUInt32
