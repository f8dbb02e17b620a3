import Outlier.Yaml.Scalar
import Outlier.Yaml.Token

/-! # From YAML text to tokens

The lexer keeps the columns of the blocks that are open, and the token that may turn out to be a
key: only the colon after it tells. A key that no question mark announces stands on one line, at
most 1024 octets before its colon. A token that starts where a line of a block mapping has to start
must turn out to be a key. -/

namespace Outlier.Yaml

/-- A token that may turn out to be a key. -/
structure Candidate where
  /-- The number of tokens before it. -/
  place : Nat
  start : Cursor
  /-- Does the block that it stands in need a key here? -/
  required : Bool

/-- The greatest distance in octets between a key and its colon. -/
def keyReach : Nat := 1024

/-- Is it too late at the place for a colon to make a key of the token? -/
def Candidate.isPast (k : Candidate) (c : Cursor) : Bool :=
  k.start.line < c.line || k.start.offset + keyReach < c.offset

/-- A text that is being cut into tokens. -/
structure Lexer where
  cursor : Cursor
  tokens : Array Token := #[]
  /-- The columns of the open blocks, innermost first. -/
  blocks : List Nat := []
  /-- May a key or a block start at the next token? -/
  keyAllowed : Bool := true
  candidate : Option Candidate := none
  /-- The candidates outside the open brackets, innermost first. -/
  outer : List (Option Candidate) := []

namespace Lexer

/-- Is a bracket open? -/
def inFlow (s : Lexer) : Bool := !s.outer.isEmpty

/-- The column of the innermost open block, or one left of the text. -/
def indent (s : Lexer) : Int :=
  match s.blocks with
  | [] => -1
  | column :: _ => column

/-- The lexer with one more token. -/
def push (s : Lexer) (t : Token) : Lexer := { s with tokens := s.tokens.push t }

/-- The lexer with one more token that takes `n` characters. -/
def take (s : Lexer) (t : Token) (n : Nat) : Lexer :=
  { s.push t with cursor := s.cursor.forward n }

/-! ### Blocks -/

/-- End the blocks right of the column; brackets have none. -/
def closeBlocks (s : Lexer) (column : Int) : Lexer :=
  if s.inFlow then s
  else
    let closed := (s.blocks.takeWhile fun (block : Nat) => column < block).length
    { s with
      blocks := s.blocks.drop closed
      tokens := s.tokens ++ Array.replicate closed Token.endBlock }

/-- Start a block in the column, before the token at `place`, unless one has started there. -/
def openBlock (s : Lexer) (column : Nat) (begin : Token) (place : Nat) : Lexer :=
  if !s.inFlow && s.indent < column then
    { s with
      blocks := column :: s.blocks
      tokens := s.tokens.insertIdxIfInBounds place begin }
  else s

/-- Start a block at the next token, which has to be where one may start. -/
def startBlock? (s : Lexer) (begin : Token) : Option Lexer :=
  if s.inFlow then some s
  else if s.keyAllowed then some (s.openBlock s.cursor.column begin s.tokens.size)
  else none

/-! ### Candidates -/

/-- Give up the candidate, which must not be one that has to be a key. -/
def dropCandidate? (s : Lexer) : Option Lexer :=
  if s.candidate.any (·.required) then none else some { s with candidate := none }

/-- Give up the candidates for which it is too late. -/
def dropPast? (s : Lexer) : Option Lexer :=
  let isPast := fun k : Candidate => k.isPast s.cursor
  if (s.candidate :: s.outer).any fun k => k.any fun k => isPast k && k.required then none
  else
    some { s with
      candidate := s.candidate.filter (!isPast ·)
      outer := s.outer.map fun k => k.filter (!isPast ·) }

/-- Make the next token the candidate, if a key may start here. -/
def noteCandidate? (s : Lexer) : Option Lexer :=
  if s.keyAllowed then do
    let s ← s.dropCandidate?
    let required := !s.inFlow && s.indent = s.cursor.column
    return { s with candidate := some ⟨s.tokens.size, s.cursor, required⟩ }
  else some s

/-! ### Tokens -/

/-- The place of the next token: after blanks, comments and line breaks, and byte order marks at the
start of a line. A tab may not stand where a key could start. -/
def skip : Nat → Lexer → Lexer
  | 0, s => s
  | fuel + 1, s =>
    let move := fun c : Cursor => { s with cursor := c }
    match s.cursor.peek? with
    | none => s
    | some ch =>
      if ch = '\ufeff' && s.cursor.column = 0 then skip fuel (move s.cursor.next)
      else if ch = ' ' || (ch = '\t' && (s.inFlow || !s.keyAllowed)) then
        skip fuel (move s.cursor.next)
      else if ch = '#' then skip fuel (move s.cursor.skipLine)
      else if Cursor.isBreak ch then
        skip fuel { move s.cursor.next with keyAllowed := s.keyAllowed || !s.inFlow }
      else s

/-- End all blocks before a token that stands outside of them. -/
def closeAll? (s : Lexer) : Option Lexer := do
  return { ← (s.closeBlocks (-1)).dropCandidate? with keyAllowed := false }

/-- An opening bracket or brace. -/
def openFlow? (s : Lexer) (t : Token) : Option Lexer := do
  let s ← s.noteCandidate?
  return { s.take t 1 with keyAllowed := true, candidate := none, outer := s.candidate :: s.outer }

/-- A closing bracket or brace. -/
def closeFlow? (s : Lexer) (t : Token) : Option Lexer := do
  let s ← s.dropCandidate?
  let s := match s.outer with
    | k :: outer => { s with candidate := k, outer }
    | [] => s
  return { s.take t 1 with keyAllowed := false }

/-- A comma. -/
def comma? (s : Lexer) : Option Lexer := do
  return { (← s.dropCandidate?).take .comma 1 with keyAllowed := true }

/-- The dash before an item of a block sequence. -/
def dash? (s : Lexer) : Option Lexer := do
  let s ← (← s.startBlock? .beginSequence).dropCandidate?
  return { s.take .dash 1 with keyAllowed := true }

/-- The question mark before a key. -/
def key? (s : Lexer) : Option Lexer := do
  let s ← (← s.startBlock? .beginMapping).dropCandidate?
  return { s.take .key 1 with keyAllowed := !s.inFlow }

/-- The colon before a value. It makes a key of the candidate. -/
def value? (s : Lexer) : Option Lexer :=
  match s.candidate with
  | some k =>
    let s := { s with tokens := s.tokens.insertIdxIfInBounds k.place .key }
    let s := s.openBlock k.start.column .beginMapping k.place
    some { s.take .value 1 with keyAllowed := false, candidate := none }
  | none => do
    let s ← s.startBlock? .beginMapping
    return { s.take .value 1 with keyAllowed := !s.inFlow }

/-- A token read by the given reader, which may be a key. -/
def read? (s : Lexer) (reader : Cursor → Option (Token × Cursor)) : Option Lexer := do
  let s ← s.noteCandidate?
  let (t, cursor) ← reader s.cursor
  return { s.push t with cursor, keyAllowed := false }

/-- A plain scalar. After a line break, a key may start again. -/
def plainScalar? (s : Lexer) : Option Lexer := do
  let s ← s.noteCandidate?
  let (text, broken, cursor) ← plain? s.inFlow s.indent s.cursor
  return { s.push (.scalar text true) with cursor, keyAllowed := broken }

/-- A block scalar, which is no key. -/
def blockScalar? (s : Lexer) : Option Lexer := do
  let s ← s.dropCandidate?
  let (text, cursor) ← block? s.indent s.cursor
  return { s.push (.scalar text false) with cursor, keyAllowed := true }

/-- A directive. -/
def directiveLine? (s : Lexer) : Option Lexer := do
  let s ← s.closeAll?
  let (d, cursor) ← directive? s.cursor
  return { s.push (.directive d) with cursor }

/-- The next token. -/
def next? (s : Lexer) (ch : Char) : Option Lexer :=
  let c := s.cursor
  let spaced := Cursor.endsWord c.second?
  if c.column = 0 && ch = '%' then s.directiveLine?
  else if c.atMarker '-' then do return (← s.closeAll?).take .documentStart 3
  else if c.atMarker '.' then do return (← s.closeAll?).take .documentEnd 3
  else if ch = '[' then s.openFlow? .openBracket
  else if ch = '{' then s.openFlow? .openBrace
  else if ch = ']' then s.closeFlow? .closeBracket
  else if ch = '}' then s.closeFlow? .closeBrace
  else if ch = ',' then s.comma?
  else if ch = '-' && spaced then s.dash?
  else if ch = '?' && (s.inFlow || spaced) then s.key?
  else if ch = ':' && (s.inFlow || spaced) then s.value?
  else if ch = '*' then s.read? fun c => (name? c).map fun (name, c) => (.alias name, c)
  else if ch = '&' then s.read? fun c => (name? c).map fun (name, c) => (.anchor name, c)
  else if ch = '!' then s.read? fun c => (tag? s.inFlow c).map fun (t, c) => (.tag t, c)
  else if ch = '"' || ch = '\'' then
    s.read? fun c => (quoted? c).map fun (text, c) => (.scalar text false, c)
  else if (ch = '|' || ch = '>') && !s.inFlow then s.blockScalar?
  else if startsPlain s.inFlow c then s.plainScalar?
  else none

/-- The tokens up to the end of the text, of which each takes a character. -/
def run : Nat → Lexer → Option (List Token)
  | 0, _ => none
  | fuel + 1, s => do
    let s ← (s.skip (fuel + 1)).dropPast?
    let s := s.closeBlocks s.cursor.column
    match s.cursor.peek? with
    | none => return (← s.closeAll?).tokens.toList
    | some ch => run fuel (← s.next? ch)

end Lexer

/-- Can the character stand in a YAML text? -/
def isAllowed (c : Char) : Bool :=
  let n := c.toNat
  n == 0x09 || n == 0x0A || n == 0x0D || (0x20 ≤ n && n ≤ 0x7E) || n == 0x85
    || (0xA0 ≤ n && n ≤ 0xFFFD) || 0x10000 ≤ n

/-- The tokens of a text. -/
def tokens? (text : String) : Option (List Token) :=
  let chars := text.toList
  if chars.all isAllowed then Lexer.run (chars.length + 1) { cursor := { rest := chars } } else none

end Outlier.Yaml
