import PlainC.FileTree
import PlainC.LogLevel

/-!
# Logs

What happens is recorded. A record becomes a line of a log: the time, the level and the message. A log
may be kept at the end of a file, which takes the records that a level admits, each when it comes.
-/

namespace PlainC

structure Record where
  level : LogLevel
  message : Text
  deriving DecidableEq, Repr

namespace Record

def levelMark : LogLevel → Text
  | .error => "ERROR".toList
  | .warn => " WARN".toList
  | .info => " INFO".toList
  | .debug => "DEBUG".toList
  | .trace => "TRACE".toList

/-- A character of a logged message. Characters that could steer a terminal are spelled out. -/
def escape (c : Char) : Text :=
  let n := c.toNat
  if n = 0x07 then "\\x07".toList
  else if n = 0x08 then "\\x08".toList
  else if n = 0x0C then "\\x0c".toList
  else if n = 0x1B then "\\x1b".toList
  else if n = 0x7F then "\\x7f".toList
  else if 0x80 ≤ n ∧ n ≤ 0x9F then "\\u\x7b".toList ++ Nat.toDigits 16 n ++ ['\x7d']
  else [c]

/-- The message as it stands in a log. -/
def shownMessage (record : Record) : Text := record.message.flatMap escape

/-- A record as it stands in a log; `clock` is the time. -/
def render (clock : Text) (record : Record) : Text :=
  clock ++ ' ' :: levelMark record.level ++ ' ' :: record.shownMessage ++ ['\n']

end Record

/-- A file that takes the records up to a level. -/
structure LogFile where
  location : Location
  level : LogLevel
  deriving DecidableEq

/-- Adds a record to the end of the file if the level admits it. -/
def LogFile.add (file : LogFile) (clock : Text) (tree : FileTree) (record : Record) : FileTree :=
  if file.level.admits record.level then
    tree.append file.location (Text.toBytes (record.render clock))
  else tree

end PlainC
