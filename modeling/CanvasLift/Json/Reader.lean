import CanvasLift.Json
import CanvasLift.Number.Reader

/-!
Reading JSON texts. Besides the standard's values, `NaN`, `Infinity` and `-Infinity` are numbers. Of
a repeated key the last value counts.
-/

namespace CanvasLift.Json

/-- What is wrong with a text: it is no JSON, a whole number in it has too many digits, or too many
arrays and objects stand inside each other, of which the last one is an object or an array. -/
inductive Fault
  | malformed
  | number (fault : Number.Fault)
  | tooDeep (isObject : Bool)
  deriving DecidableEq

def skipSpace (t : Text) : Text :=
  t.dropWhile fun c ↦ c = ' ' || c = '\t' || c = '\n' || c = '\r'

def codeUnit? : Text → Option (Nat × Text)
  | a :: b :: c :: d :: rest => (Text.hexValue? [a, b, c, d]).map (·, rest)
  | _ => none

def simpleEscape? : Char → Option Char
  | '"' => some '"'
  | '\\' => some '\\'
  | '/' => some '/'
  | 'b' => some '\x08'
  | 'f' => some '\x0c'
  | 'n' => some '\n'
  | 'r' => some '\r'
  | 't' => some '\t'
  | _ => none

def lowSurrogate? : Text → Option (Nat × Text)
  | '\\' :: 'u' :: rest => (codeUnit? rest).filter fun (n, _) ↦ 0xDC00 ≤ n && n < 0xE000
  | _ => none

def escaped? : Text → Option (Symbol × Text)
  | 'u' :: rest => do
    let (high, rest) ← codeUnit? rest
    if 0xD800 ≤ high ∧ high < 0xDC00 then
      match lowSurrogate? rest with
      | some (low, rest) =>
        return (.ofNat (0x10000 + (high - 0xD800) * 0x400 + (low - 0xDC00)), rest)
      | none => return (.ofNat high, rest)
    else return (.ofNat high, rest)
  | c :: rest => (simpleEscape? c).map (.char ·, rest)
  | [] => none

def stringRest? : (fuel : Nat) → WideText → Text → Option (WideText × Text)
  | 0, _, _ => none
  | fuel + 1, done, t =>
    match t with
    | [] => none
    | '"' :: rest => some (done.reverse, rest)
    | '\\' :: rest =>
      match escaped? rest with
      | some (s, rest) => stringRest? fuel (s :: done) rest
      | none => none
    | c :: rest => if c.toNat < 32 then none else stringRest? fuel (.char c :: done) rest

def isDigit (c : Char) : Bool := '0' ≤ c && c ≤ '9'

def fraction (t : Text) : Text × Text :=
  match t with
  | '.' :: rest =>
    match rest.takeWhile isDigit with
    | [] => ([], t)
    | digits => ('.' :: digits, rest.dropWhile isDigit)
  | _ => ([], t)

def exponent (t : Text) : Text × Text :=
  match t with
  | e :: rest =>
    if e = 'e' ∨ e = 'E' then
      let (sign, rest) : Text × Text := match rest with
        | '+' :: rest => (['+'], rest)
        | '-' :: rest => (['-'], rest)
        | _ => ([], rest)
      match rest.takeWhile isDigit with
      | [] => ([], t)
      | digits => ('e' :: sign ++ digits, rest.dropWhile isDigit)
    else ([], t)
  | [] => ([], t)

def wholePart? (t : Text) : Option (Text × Text) :=
  match t with
  | '0' :: rest => some (['0'], rest)
  | c :: _ => if isDigit c then some (t.takeWhile isDigit, t.dropWhile isDigit) else none
  | [] => none

def number (t : Text) : Except Fault (Json × Text) :=
  let (sign, rest) : Text × Text := match t with
    | '-' :: rest => (['-'], rest)
    | _ => ([], t)
  match wholePart? rest with
  | none => .error .malformed
  | some (digits, rest) =>
    let (frac, rest) := fraction rest
    let (exp, rest) := exponent rest
    if frac = [] ∧ exp = [] then
      match Number.whole 10 (sign ++ digits) with
      | .ok i => .ok (int i, rest)
      | .error fault => .error (.number fault)
    else
      match Number.real (sign ++ digits ++ frac ++ exp) with
      | .ok x => .ok (float x, rest)
      | .error fault => .error (.number fault)

def words : List (Text × Json) :=
  [("null", null), ("true", bool true), ("false", bool false), ("NaN", float .nan),
   ("Infinity", float (.infinity false)), ("-Infinity", float (.infinity true))]

def word? (t : Text) : Option (Json × Text) :=
  words.findSome? fun (word, value) ↦ (Text.dropFront? word t).map (value, ·)

mutual

/-- The value that a text starts with, and what follows it. It may be `depth` arrays and objects
deep. -/
def value : (fuel depth : Nat) → Text → Except Fault (Json × Text)
  | 0, _, _ => .error .malformed
  | fuel + 1, depth, t =>
    match t with
    | '"' :: rest =>
      match stringRest? fuel [] rest with
      | some (s, rest) => .ok (string s, rest)
      | none => .error .malformed
    | '[' :: rest =>
      match depth, skipSpace rest with
      | 0, _ => .error (.tooDeep false)
      | _, ']' :: rest => .ok (array [], rest)
      | depth + 1, rest => items fuel depth [] rest
    | '\x7b' :: rest =>
      match depth, skipSpace rest with
      | 0, _ => .error (.tooDeep true)
      | _, '\x7d' :: rest => .ok (object [], rest)
      | depth + 1, rest => fields fuel depth [] rest
    | _ =>
      match word? t with
      | some found => .ok found
      | none => number t

def items : (fuel depth : Nat) → List Json → Text → Except Fault (Json × Text)
  | 0, _, _, _ => .error .malformed
  | fuel + 1, depth, done, t =>
    match value fuel depth t with
    | .error fault => .error fault
    | .ok (item, rest) =>
      match skipSpace rest with
      | ',' :: rest => items fuel depth (item :: done) (skipSpace rest)
      | ']' :: rest => .ok (array (item :: done).reverse, rest)
      | _ => .error .malformed

def fields : (fuel depth : Nat) → List (WideText × Json) → Text → Except Fault (Json × Text)
  | 0, _, _, _ => .error .malformed
  | fuel + 1, depth, done, t =>
    match t with
    | '"' :: rest =>
      match stringRest? fuel [] rest with
      | none => .error .malformed
      | some (key, rest) =>
        match skipSpace rest with
        | ':' :: rest =>
          match value fuel depth (skipSpace rest) with
          | .error fault => .error fault
          | .ok (v, rest) =>
            let done := setField key v done
            match skipSpace rest with
            | ',' :: rest => fields fuel depth done (skipSpace rest)
            | '\x7d' :: rest => .ok (object done, rest)
            | _ => .error .malformed
        | _ => .error .malformed
    | _ => .error .malformed

end

def ofText (depth : Nat) (t : Text) : Except Fault Json :=
  match value (2 * t.length + 2) depth (skipSpace t) with
  | .error fault => .error fault
  | .ok (v, rest) => if skipSpace rest = [] then .ok v else .error .malformed

end CanvasLift.Json
