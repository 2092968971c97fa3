import PlainC.Toml.Value
import PlainC.Toml.Scalar

/-!
# Tables for date-times

A table whose first key is the reserved key stands for a date-time. Then its text is all that the table
holds. A value is sound if all tables in it that stand for date-times are of that form.
-/

namespace PlainC

namespace Toml

/-- The key under which a table has the text of a date-time. -/
def dateTimeKey : Text := "$__toml_private_datetime".toList

/-- Whether a text is that of a date-time and of nothing more. -/
def isDateTimeText (text : Text) : Bool := dateTime? text = some []

namespace Entries

/-- Whether a table stands for a date-time. -/
def isDateTime (entries : Entries) : Bool :=
  match entries with
  | (key, _) :: _ => key = dateTimeKey
  | [] => false

/-- Whether a table holds a text of a date-time and nothing else. -/
def hasDateTimeText (entries : Entries) : Bool :=
  match entries with
  | [(_, .string text)] => isDateTimeText text
  | _ => false

end Entries

mutual

/-- Whether the tables in a value that stand for date-times have their form. -/
def Value.isSound : Value → Bool
  | .array items => areSound items
  | .table _ entries =>
    if Entries.isDateTime entries then Entries.hasDateTimeText entries else haveSoundValues entries
  | .tables elements => areSoundTables elements
  | _ => true

def areSound : List Value → Bool
  | [] => true
  | value :: values => value.isSound && areSound values

def haveSoundValues : List (Text × Value) → Bool
  | [] => true
  | (_, value) :: entries => value.isSound && haveSoundValues entries

def areSoundTables : List (List (Text × Value)) → Bool
  | [] => true
  | entries :: elements =>
    (if Entries.isDateTime entries then Entries.hasDateTimeText entries
      else haveSoundValues entries) && areSoundTables elements

end

end Toml

end PlainC
