import CanvasLift.Pattern
import CanvasLift.Yaml.Fault

/-!
The kinds of YAML nodes. A tag names the kind of a node; a plain scalar without a tag shows its kind
by its form.
-/

namespace CanvasLift.Yaml

inductive Kind
  | null
  | bool
  | int
  | float
  | timestamp
  | binary
  | text
  | sequence
  | mapping
  | set
  | pairs
  | merge
  | default
  | other
  deriving DecidableEq

namespace Kind

def standard : Text := "tag:yaml.org,2002:"

def byName : List (Text × Kind) :=
  [("null", null), ("bool", bool), ("int", int), ("float", float), ("timestamp", timestamp),
   ("binary", binary), ("str", text), ("seq", sequence), ("map", mapping), ("set", set),
   ("omap", pairs), ("pairs", pairs), ("merge", merge), ("value", default)]

def ofTag (tag : Text) : Kind :=
  (((Text.dropFront? standard tag).bind fun name ↦ byName.lookup name)).getD other

def isCollection : Kind → Bool
  | sequence | mapping | set | pairs => true
  | _ => false

open Pattern

def digit : Pattern := one fun c ↦ '0' ≤ c && c ≤ '9'

def digits : Pattern := run fun c ↦ '0' ≤ c && c ≤ '9'

def spacedDigits : Pattern := many fun c ↦ '0' ≤ c && c ≤ '9' || c = '_'

def sign : Pattern := one fun c ↦ c = '-' || c = '+'

def isHexOrUnderscore (c : Char) : Bool := (Text.hexDigit? c).isSome || c = '_'

def wholeForm : Pattern :=
  chain [optional sign,
    alt (chain [literal "0b", run fun c ↦ c = '0' || c = '1' || c = '_'])
      (alt (chain [literal "0", run fun c ↦ '0' ≤ c && c ≤ '7' || c = '_'])
        (alt (literal "0")
          (alt (chain [one fun c ↦ '1' ≤ c && c ≤ '9', spacedDigits])
            (chain [literal "0x", run isHexOrUnderscore]))))]

def exponent : Pattern :=
  optional (chain [one fun c ↦ c = 'e' || c = 'E', sign, digits])

def realForm : Pattern :=
  alt (chain [optional sign, digit, spacedDigits, literal ".", spacedDigits, exponent])
    (alt (chain [literal ".", digit, spacedDigits, exponent])
      (alt (chain [optional sign, literal ".", oneOf ["inf", "Inf", "INF"]])
        (chain [literal ".", oneOf ["nan", "NaN", "NAN"]])))

def sixtieth : Pattern := chain [optional (one fun c ↦ '0' ≤ c && c ≤ '5'), digit]

def dropSign : Text → Text
  | '-' :: rest => rest
  | '+' :: rest => rest
  | t => t

def isSexagesimal (t : Text) : Bool :=
  match Text.splitOn ':' (dropSign t) with
  | first :: more =>
    (chain [one fun c ↦ '1' ≤ c && c ≤ '9', spacedDigits]).spans first && !more.isEmpty &&
      more.all sixtieth.spans
  | [] => false

def isSexagesimalReal (t : Text) : Bool :=
  match Text.splitOn ':' (dropSign t) with
  | first :: more =>
    (chain [digit, spacedDigits]).spans first && !more.isEmpty &&
      more.dropLast.all sixtieth.spans &&
      (chain [sixtieth, literal ".", spacedDigits]).spans (more.getLastD [])
  | [] => false

def upToTwoDigits : Pattern := chain [digit, optional digit]

def dateForm : Pattern :=
  chain [digit, digit, digit, digit, literal "-", digit, digit, literal "-", digit, digit]

def blanks : Pattern := many fun c ↦ c = ' ' || c = '\t'

def zoneForm : Pattern :=
  alt (literal "Z") (chain [sign, upToTwoDigits, optional (chain [literal ":", digit, digit])])

def momentForm : Pattern :=
  chain [digit, digit, digit, digit, literal "-", upToTwoDigits, literal "-", upToTwoDigits,
    alt (one fun c ↦ c = 'T' || c = 't') (run fun c ↦ c = ' ' || c = '\t'),
    upToTwoDigits, literal ":", digit, digit, literal ":", digit, digit,
    optional (chain [literal ".", optional digits]), optional (chain [blanks, zoneForm])]

def truths : List Text :=
  ["yes", "Yes", "YES", "true", "True", "TRUE", "on", "On", "ON"]

def untruths : List Text :=
  ["no", "No", "NO", "false", "False", "FALSE", "off", "Off", "OFF"]

def ofForm (t : Text) : Kind :=
  if truths.contains t || untruths.contains t then bool
  else if realForm.spans t || isSexagesimalReal t then float
  else if wholeForm.spans t || isSexagesimal t then int
  else if t = "<<".toList then merge
  else if (["", "~", "null", "Null", "NULL"] : List Text).contains t then null
  else if dateForm.spans t || momentForm.spans t then timestamp
  else if t = "=".toList then default
  else if (["!", "&", "*"] : List Text).contains t then other
  else text

/-- The kind of a plain scalar. A line feed at its end does not count, unless it is all there is. -/
def ofPlain (t : Text) : Kind :=
  match t.reverse with
  | '\n' :: c :: before => ofForm (c :: before).reverse
  | _ => ofForm t

end Kind

end CanvasLift.Yaml
