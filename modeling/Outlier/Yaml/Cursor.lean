/-! # Places in a YAML text

A cursor is what is left of a text together with the place it starts at: the number of octets
before it, and its line and column, both from zero. Five characters break a line, and so does a
carriage return with its line feed, which counts as one. -/

namespace Outlier.Yaml

/-- A place in a text. -/
structure Cursor where
  rest : List Char
  offset : Nat := 0
  line : Nat := 0
  column : Nat := 0

namespace Cursor

/-! ### Characters -/

/-- Blanks within a line. -/
def isSpace (c : Char) : Bool := c = ' ' || c = '\t'

/-- Does the character break a line? -/
def isBreak (c : Char) : Bool := ['\n', '\r', '\u0085', '\u2028', '\u2029'].contains c

/-- The line break in the text of a scalar: the two separators stay what they are, every other
break is a line feed. -/
def breakText (c : Char) : Char := if c = '\u2028' || c = '\u2029' then c else '\n'

/-- Does a blank, a line break or the end of the text stand here? -/
def endsWord (c : Option Char) : Bool := c.all fun c => isSpace c || isBreak c

/-- Does a line break or the end of the text stand here? -/
def endsLine (c : Option Char) : Bool := c.all isBreak

/-! ### Looking -/

/-- The character at the place. -/
def peek? (c : Cursor) : Option Char := c.rest.head?

/-- The character after the one at the place. -/
def second? (c : Cursor) : Option Char := c.rest.tail.head?

/-- Is the text over? -/
def atEnd (c : Cursor) : Bool := c.rest.isEmpty

/-- Do three of the given character stand at the start of a line as a document marker? -/
def atMarker (c : Cursor) (sign : Char) : Bool :=
  c.column == 0 && c.rest.take 3 == [sign, sign, sign] && endsWord (c.rest.drop 3).head?

/-- Is the document over at this place? -/
def atDocumentEnd (c : Cursor) : Bool := c.atEnd || c.atMarker '-' || c.atMarker '.'

/-! ### Moving -/

/-- The place after the next character or line break. -/
def next (c : Cursor) : Cursor :=
  match c.rest with
  | [] => c
  | '\r' :: '\n' :: rest => { rest, offset := c.offset + 2, line := c.line + 1 }
  | ch :: rest =>
    let offset := c.offset + ch.utf8Size
    if isBreak ch then { rest, offset, line := c.line + 1 }
    else { rest, offset, line := c.line, column := c.column + 1 }

/-- The place `n` characters on. -/
def forward (c : Cursor) : Nat → Cursor
  | 0 => c
  | n + 1 => c.next.forward n

/-- The place after the blanks of the line. -/
def skipSpaces (c : Cursor) : Cursor := c.forward (c.rest.takeWhile isSpace).length

/-- The end of the line. -/
def skipLine (c : Cursor) : Cursor := c.forward (c.rest.takeWhile (!isBreak ·)).length

/-- The end of the line, if nothing but blanks and a comment stands before it. -/
def lineEnd? (c : Cursor) : Option Cursor :=
  let c := c.skipSpaces
  let c := if c.peek? == some '#' then c.skipLine else c
  if endsLine c.peek? then some c else none

end Cursor
end Outlier.Yaml
