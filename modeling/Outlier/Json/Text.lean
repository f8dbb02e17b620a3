import Outlier.Json
import Outlier.Decimal.Scaled
import Outlier.Decimal.Shortest

/-! # JSON text

Reading and writing JSON values as text. The reader follows the grammar by recursive descent over
the characters; a recursion budget of the length of the text is always enough, since every step
takes at least one character. A number becomes `Json.int` when it is written without fraction and
exponent and fits into the signed or unsigned 64-bit range, and a double otherwise; a negative zero
is a double. -/

namespace Outlier.Json

/-! ### Reading -/

/-- The text after leading blanks. -/
def skipBlanks : List Char → List Char
  | c :: rest => if c = ' ' || c = '\n' || c = '\t' || c = '\r' then skipBlanks rest else c :: rest
  | [] => []

/-- The text after the given word, if it starts with it. -/
def after? : List Char → List Char → Option (List Char)
  | [], rest => some rest
  | w :: word, c :: rest => if w = c then after? word rest else none
  | _ :: _, [] => none

/-- Four hexadecimal digits and the text after them. -/
def fourHex? (text : List Char) : Option (Nat × List Char) :=
  if text.length < 4 then none else (Text.hexNumber? (text.take 4)).map (·, text.drop 4)

/-- The character of a `\u` escape, which may need a second escape for its lower half. -/
def unicodeEscape? (text : List Char) : Option (Char × List Char) := do
  let (high, rest) ← fourHex? text
  if 0xD800 ≤ high && high < 0xDC00 then
    let rest ← after? ['\\', 'u'] rest
    let (low, rest) ← fourHex? rest
    if 0xDC00 ≤ low && low < 0xE000 then
      some (Char.ofNat (0x10000 + (high - 0xD800) * 0x400 + (low - 0xDC00)), rest)
    else none
  else if 0xDC00 ≤ high && high < 0xE000 then none
  else some (Char.ofNat high, rest)

/-- The rest of a text literal after its opening quote; `done` holds what was read, latest first. -/
def readText : Nat → List Char → List Char → Option (String × List Char)
  | 0, _, _ => none
  | _ + 1, _, [] => none
  | fuel + 1, done, c :: rest =>
    if c = '"' then some (String.ofList done.reverse, rest)
    else if c = '\\' then
      match rest with
      | '"' :: rest => readText fuel ('"' :: done) rest
      | '\\' :: rest => readText fuel ('\\' :: done) rest
      | '/' :: rest => readText fuel ('/' :: done) rest
      | 'b' :: rest => readText fuel ('\x08' :: done) rest
      | 'f' :: rest => readText fuel ('\x0c' :: done) rest
      | 'n' :: rest => readText fuel ('\n' :: done) rest
      | 'r' :: rest => readText fuel ('\r' :: done) rest
      | 't' :: rest => readText fuel ('\t' :: done) rest
      | 'u' :: rest => match unicodeEscape? rest with
        | some (c, rest) => readText fuel (c :: done) rest
        | none => none
      | _ => none
    else readText fuel (c :: done) rest

/-- The sign of an exponent, and the text after it. -/
def exponentSign (text : List Char) : Bool × List Char :=
  match text with
  | '-' :: rest => (true, rest)
  | '+' :: rest => (false, rest)
  | _ => (false, text)

/-- The exponent at the place, if there is one, and the text after it. -/
def readExponent (text : List Char) : Option (Option Int × List Char) :=
  match text with
  | e :: rest =>
    if e = 'e' || e = 'E' then
      let (negative, rest) := exponentSign rest
      let digits := rest.takeWhile Char.isDigit
      let n : Int := Text.decimalValue digits
      if digits.isEmpty then none
      else some (some (if negative then -n else n), rest.dropWhile Char.isDigit)
    else some (none, text)
  | [] => some (none, [])

/-- The fraction at the place, if there is one, and the text after it. -/
def readFraction (text : List Char) : Option (Option (List Char) × List Char) :=
  match text with
  | '.' :: rest =>
    let digits := rest.takeWhile Char.isDigit
    if digits.isEmpty then none else some (some digits, rest.dropWhile Char.isDigit)
  | _ => some (none, text)

/-- The number with the given parts, if it is in range. -/
def number? (negative : Bool) (whole : List Char) (fraction : Option (List Char))
    (exponent : Option Int) : Option Json :=
  let magnitude := Text.decimalValue whole
  let n : Int := if negative then -(magnitude : Int) else magnitude
  if fraction.isNone && exponent.isNone && Int64.minValue.toInt ≤ n && n < UInt64.size
      && !(negative && magnitude == 0) then
    some (.int n)
  else
    let d := Decimal.Scaled.ofDigits whole (fraction.getD []) (exponent.getD 0)
    (d.toBits? negative).map .float

/-- A number and the text after it. -/
def readNumber (text : List Char) : Option (Json × List Char) := do
  let (negative, text) := match text with
    | '-' :: rest => (true, rest)
    | _ => (false, text)
  let whole := text.takeWhile Char.isDigit
  if whole.isEmpty then none
  else
    let (fraction, text) ← readFraction (text.dropWhile Char.isDigit)
    let (exponent, text) ← readExponent text
    return (← number? negative whole fraction exponent, text)

mutual

/-- A value and the text after it. -/
def readValue : Nat → List Char → Option (Json × List Char)
  | 0, _ => none
  | fuel + 1, text =>
    match skipBlanks text with
    | 'n' :: rest => (after? ['u', 'l', 'l'] rest).map (Json.null, ·)
    | 't' :: rest => (after? ['r', 'u', 'e'] rest).map (Json.bool true, ·)
    | 'f' :: rest => (after? ['a', 'l', 's', 'e'] rest).map (Json.bool false, ·)
    | '"' :: rest => (readText rest.length.succ [] rest).map fun (s, rest) => (.str s, rest)
    | '[' :: rest => match skipBlanks rest with
      | ']' :: rest => some (.arr [], rest)
      | _ => readItems fuel [] rest
    | '{' :: rest => match skipBlanks rest with
      | '}' :: rest => some (.obj [], rest)
      | _ => readFields fuel [] rest
    | text => readNumber text

/-- The items of a list that is not empty, up to its end. -/
def readItems : Nat → List Json → List Char → Option (Json × List Char)
  | 0, _, _ => none
  | fuel + 1, done, text => match readValue fuel text with
    | none => none
    | some (item, rest) => match skipBlanks rest with
      | ',' :: rest => readItems fuel (item :: done) rest
      | ']' :: rest => some (.arr (item :: done).reverse, rest)
      | _ => none

/-- The fields of an object that is not empty, up to its end. -/
def readFields : Nat → List (String × Json) → List Char → Option (Json × List Char)
  | 0, _, _ => none
  | fuel + 1, done, text => match skipBlanks text with
    | '"' :: rest => match readText rest.length.succ [] rest with
      | none => none
      | some (key, rest) => match skipBlanks rest with
        | ':' :: rest => match readValue fuel rest with
          | none => none
          | some (value, rest) => match skipBlanks rest with
            | ',' :: rest => readFields fuel ((key, value) :: done) rest
            | '}' :: rest => some (Json.object ((key, value) :: done).reverse, rest)
            | _ => none
        | _ => none
    | _ => none

end

/-- The value that the whole text stands for. -/
def ofText? (text : String) : Option Json :=
  match readValue (2 * text.length + 2) text.toList with
  | some (j, rest) => if (skipBlanks rest).isEmpty then some j else none
  | none => none

/-! ### Writing -/

/-- One character of a text literal. -/
def escape (c : Char) : List Char :=
  if c = '"' then ['\\', '"']
  else if c = '\\' then ['\\', '\\']
  else if c.toNat < 0x20 then ['\\', 'u'] ++ Text.hexPadded 4 c.toNat
  else [c]

/-- A text literal. -/
def textLiteral (s : String) : String :=
  String.ofList (['"'] ++ s.toList.flatMap escape ++ ['"'])

mutual

/-- The text of a value, without blanks. -/
def toText : Json → String
  | .null => "null"
  | .bool true => "true"
  | .bool false => "false"
  | .int n => toString n
  | .float bits => Decimal.ofBits bits
  | .str s => textLiteral s
  | .arr items => "[" ++ String.intercalate "," (itemTexts items) ++ "]"
  | .obj fields => "\x7b" ++ String.intercalate "," (fieldTexts fields) ++ "\x7d"

/-- The texts of the items of a list. -/
def itemTexts : List Json → List String
  | [] => []
  | j :: rest => j.toText :: itemTexts rest

/-- The texts of the fields of an object. -/
def fieldTexts : List (String × Json) → List String
  | [] => []
  | (key, j) :: rest => (textLiteral key ++ ":" ++ j.toText) :: fieldTexts rest

end

end Outlier.Json
