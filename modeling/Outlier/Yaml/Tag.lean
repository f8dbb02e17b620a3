import Outlier.Yaml.Cursor
import Outlier.Text.Digits

/-! # YAML tags and directives

A tag is a URI, written out between `!<` and `>`, or as a handle with the rest of the URI after it.
A directive at the start of a document gives the version of YAML, or the start of the URI that a
handle stands for. URIs are kept as their octets, each as the character of that number. -/

namespace Outlier.Yaml

/-- Can the character be part of a name: of an anchor, a handle or a directive? -/
def isNamePart (c : Char) : Bool := c.isAlphanum || c = '_' || c = '-'

/-! ### URIs -/

/-- Can the character stand in a URI as it is? Only where the URI stands alone, it may hold commas
and square brackets. -/
def isUriChar (alone : Bool) (c : Char) : Bool :=
  isNamePart c
    || [';', '/', '?', ':', '@', '&', '=', '+', '$', '.', '!', '~', '*', '\'', '(', ')'].contains c
    || (alone && [',', '[', ']'].contains c)

/-- How many octets of a character follow its first one. -/
def trailing? (octet : Nat) : Option Nat :=
  if octet < 0x80 then some 0
  else if 0xC0 ≤ octet && octet < 0xE0 then some 1
  else if 0xE0 ≤ octet && octet < 0xF0 then some 2
  else if 0xF0 ≤ octet && octet < 0xF8 then some 3
  else none

/-- The octets of the URI at the start of a text, and the number of characters it takes. Octets
after a percent sign make up whole characters; `pending` of them are still to come. -/
def uriOctets? (alone : Bool) (pending : Nat) : List Char → Option (List Char × Nat)
  | '%' :: high :: low :: rest => do
    let octet ← Text.hexNumber? [high, low]
    let pending ←
      if pending = 0 then trailing? octet
      else if 0x80 ≤ octet && octet < 0xC0 then some (pending - 1)
      else none
    let (octets, n) ← uriOctets? alone pending rest
    return (Char.ofNat octet :: octets, n + 3)
  | c :: rest =>
    if pending ≠ 0 || c = '%' then none
    else if isUriChar alone c then do
      let (octets, n) ← uriOctets? alone 0 rest
      return (c :: octets, n + 1)
    else some ([], 0)
  | [] => if pending = 0 then some ([], 0) else none

/-- The URI at the place, which an octet zero ends early, whether it takes characters at all, and
the place after it. -/
def uri? (alone : Bool) (c : Cursor) : Option (List Char × Bool × Cursor) := do
  let (octets, n) ← uriOctets? alone 0 c.rest
  return (octets.takeWhile (· ≠ '\x00'), n ≠ 0, c.forward n)

/-- The URI at the place, if it takes characters. -/
def someUri? (alone : Bool) (c : Cursor) : Option (String × Cursor) := do
  let (octets, found, c) ← uri? alone c
  if found then return (String.ofList octets, c) else none

/-! ### Handles -/

/-- A handle at the place, after an exclamation mark, with its closing exclamation mark if it has
one. -/
def handle? (c : Cursor) : Option (List Char × Cursor) :=
  match c.rest with
  | '!' :: rest =>
    let name := rest.takeWhile isNamePart
    let closed := (rest.drop name.length).head? == some '!'
    let text := '!' :: name ++ (if closed then ['!'] else [])
    some (text, c.forward text.length)
  | _ => none

/-- Is it a handle with two exclamation marks? -/
def isClosed (handle : List Char) : Bool := 2 ≤ handle.length && handle.getLast? == some '!'

/-- The handles that stand for something in every document. -/
def standardHandles : List (String × String) := [("!", "!"), ("!!", "tag:yaml.org,2002:")]

/-! ### Tags -/

/-- A tag as it is written: a handle, empty for a tag that is written out, and what follows. -/
structure Tag where
  handle : String
  suffix : String
  deriving DecidableEq

/-- The tag under the given meanings of handles. -/
def Tag.resolve? (t : Tag) (handles : List (String × String)) : Option String :=
  if t.handle = "" then some t.suffix else (handles.lookup t.handle).map (· ++ t.suffix)

/-- The tag at the place, without regard to what follows it. -/
def openTag? (c : Cursor) : Option (Tag × Cursor) :=
  if c.second? == some '<' then do
    let (uri, c) ← someUri? true (c.forward 2)
    if c.peek? == some '>' then return (⟨"", uri⟩, c.next) else none
  else do
    let (handle, c) ← handle? c
    if isClosed handle then
      let (uri, c) ← someUri? false c
      return (⟨String.ofList handle, uri⟩, c)
    else
      let (octets, _, c) ← uri? false c
      let suffix := handle.drop 1 ++ octets
      return (if suffix.isEmpty then ⟨"", "!"⟩ else ⟨"!", String.ofList suffix⟩, c)

/-- The tag at the place. A blank follows it, or a comma between brackets. -/
def tag? (inFlow : Bool) (c : Cursor) : Option (Tag × Cursor) := do
  let (tag, c) ← openTag? c
  if Cursor.endsWord c.peek? || (inFlow && c.peek? == some ',') then return (tag, c) else none

/-! ### Directives -/

/-- What a directive says. -/
inductive Directive where
  | version (major minor : Nat)
  /-- What a handle stands for. -/
  | handle (name uri : String)
  deriving DecidableEq

/-- A number of at most nine digits at the place. -/
def versionPart? (c : Cursor) : Option (Nat × Cursor) :=
  let digits := c.rest.takeWhile Char.isDigit
  if digits.isEmpty || 9 < digits.length then none
  else some (Text.decimalValue digits, c.forward digits.length)

/-- A version at the place. -/
def version? (c : Cursor) : Option (Directive × Cursor) := do
  let (major, c) ← versionPart? c
  if c.peek? == some '.' then
    let (minor, c) ← versionPart? c.next
    return (.version major minor, c)
  else none

/-- A handle and the URI that it stands for at the place. -/
def handleMeaning? (c : Cursor) : Option (Directive × Cursor) := do
  let (handle, c) ← handle? c
  if (handle == ['!'] || isClosed handle) && c.peek?.any Cursor.isSpace then
    let (uri, c) ← someUri? true c.skipSpaces
    if Cursor.endsWord c.peek? then return (.handle (String.ofList handle) uri, c) else none
  else none

/-- The directive at the place, and the start of the next line. -/
def directive? (c : Cursor) : Option (Directive × Cursor) := do
  let name := c.next.rest.takeWhile isNamePart
  let after := c.forward (name.length + 1)
  if Cursor.endsWord after.peek? then
    let (directive, c) ← match String.ofList name with
      | "YAML" => version? after.skipSpaces
      | "TAG" => handleMeaning? after.skipSpaces
      | _ => none
    return (directive, (← c.lineEnd?).next)
  else none

end Outlier.Yaml
