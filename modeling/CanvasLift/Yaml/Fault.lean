import CanvasLift.Number.Reader

/-!
What can be wrong with a YAML document. Most faults are of form; some values of a good form denote
nothing, such as the thirteenth month.
-/

namespace CanvasLift.Yaml

inductive DateFault
  | year (year : Nat)
  | month
  | day
  | hour
  | minute
  | second
  /-- A distance from universal time of a day or more, in minutes. -/
  | offset (minutes : Int)
  deriving DecidableEq

def spanText (minutes : Int) : Text :=
  let days := minutes / 1440
  let seconds := minutes % 1440 * 60
  let rest : Text := if seconds = 0 then [] else ", seconds=" ++ Text.ofInt seconds
  "datetime.timedelta(days=" ++ Text.ofInt days ++ rest ++ ")"

def DateFault.message : DateFault → Text
  | .year y => "year " ++ Text.ofNat y ++ " is out of range"
  | .month => "month must be in 1..12"
  | .day => "day is out of range for month"
  | .hour => "hour must be in 0..23"
  | .minute => "minute must be in 0..59"
  | .second => "second must be in 0..59"
  | .offset minutes =>
    "offset must be a timedelta strictly between -timedelta(hours=24) and timedelta(hours=24), not "
      ++ spanText minutes ++ "."

inductive Fault
  | malformed
  /-- An escape for a number beyond the last character; `wide` numbers do not fit 31 bits. -/
  | noCharacter (wide : Bool)
  | number (fault : Number.Fault)
  | emptyNumber
  | notBoolean (text : WideText)
  | notTimestamp
  /-- A timestamp that is given by the default entry of a mapping. -/
  | timestampMapping
  | date (fault : DateFault)
  deriving DecidableEq

def Fault.message (problem : Text) : Fault → Text
  | .malformed => problem
  | .noCharacter wide =>
    if wide then "Python int too large to convert to C int"
    else "chr() arg not in range(0x110000)"
  | .number fault => fault.message
  | .emptyNumber => "string index out of range"
  | .notBoolean text => text.quoted
  | .notTimestamp => "'NoneType' object has no attribute 'groupdict'"
  | .timestampMapping => "expected string or bytes-like object, got 'list'"
  | .date fault => fault.message

end CanvasLift.Yaml
