import Outlier.Yaml.Cursor
import Outlier.Text.Digits

/-! # YAML scalars

Scalars without quotes, in single or double quotes, and the block forms after `|` and `>`. In all
but the block forms a line break is folded: with the blanks around it a line feed stands for one
space, and each further break for itself; a line or paragraph separator is kept. -/

namespace Outlier.Yaml

/-! ### Gaps -/

/-- Blanks and line breaks between the words of a scalar. -/
structure Gap where
  /-- The blanks before the first line break, latest first. -/
  spaces : List Char := []
  /-- The first line break. -/
  first : Option Char := none
  /-- The further line breaks, latest first. -/
  further : List Char := []

/-- What a gap stands for, latest character first. -/
def Gap.fold (g : Gap) : List Char :=
  match g.first with
  | none => g.spaces
  | some '\n' => if g.further.isEmpty then [' '] else g.further
  | some separator => g.further ++ [separator]

/-- The gap with one more line break. -/
def Gap.addBreak (g : Gap) (separator : Char) : Gap :=
  if g.first.isNone then { g with first := some separator }
  else { g with further := separator :: g.further }

/-- The gap at a place and the place after it. After a line break, no tab may stand left of
`indent`. -/
def readGap (indent : Int) : Nat → Gap → Cursor → Option (Gap × Cursor)
  | 0, g, c => some (g, c)
  | fuel + 1, g, c => match c.peek? with
    | none => some (g, c)
    | some ch =>
      if Cursor.isBreak ch then readGap indent fuel (g.addBreak (Cursor.breakText ch)) c.next
      else if !Cursor.isSpace ch then some (g, c)
      else if g.first.isNone then readGap indent fuel { g with spaces := ch :: g.spaces } c.next
      else if ch = '\t' && (c.column : Int) < indent then none
      else readGap indent fuel g c.next

/-! ### Plain scalars -/

/-- The signs of flow collections. -/
def isFlowSign (c : Char) : Bool := [',', '[', ']', '{', '}'].contains c

/-- The signs with which no plain scalar starts, besides those of flow collections. -/
def isIndicator (c : Char) : Bool :=
  ['#', '&', '*', '!', '|', '>', '\'', '"', '%', '@', '\x60'].contains c

/-- Can a plain scalar start at the place? -/
def startsPlain (inFlow : Bool) (c : Cursor) : Bool :=
  match c.peek? with
  | none => false
  | some ch =>
    if ch = '-' then !Cursor.endsWord c.second?
    else if ch = '?' || ch = ':' then !inFlow && !Cursor.endsWord c.second?
    else !(Cursor.endsWord (some ch) || isFlowSign ch || isIndicator ch)

/-- The length of the word at the place; between brackets, a colon before a sign is refused. -/
def wordLength? (inFlow : Bool) : List Char → Option Nat
  | [] => some 0
  | ch :: rest =>
    if Cursor.endsWord (some ch) then some 0
    else if inFlow && ch = ':' && rest.head?.any fun r => isFlowSign r || r = '?' then none
    else if ch = ':' && Cursor.endsWord rest.head? then some 0
    else if inFlow && isFlowSign ch then some 0
    else (wordLength? inFlow rest).map (· + 1)

/-- The words of a plain scalar up to the place of the next token; `done` holds the text so far,
latest first, and `gap` what stands between it and the place. In a block, a line that starts left of
`indent` does not belong to the scalar. The flag tells whether a line break stands before the place.
-/
def readPlain (inFlow : Bool) (indent : Int) :
    Nat → Gap → List Char → Cursor → Option (String × Bool × Cursor)
  | 0, _, _, _ => none
  | fuel + 1, gap, done, c =>
    let ended := some (String.ofList done.reverse, gap.first.isSome, c)
    if c.atDocumentEnd || c.peek? == some '#' then ended
    else if !inFlow && gap.first.isSome && (c.column : Int) < indent then ended
    else match wordLength? inFlow c.rest with
      | none => none
      | some 0 => ended
      | some n =>
        let done := (c.rest.take n).reverse ++ gap.fold ++ done
        match readGap indent fuel {} (c.forward n) with
        | none => none
        | some (gap, c) => readPlain inFlow indent fuel gap done c

/-- The plain scalar at the place, inside a block whose indentation is `parent`. -/
def plain? (inFlow : Bool) (parent : Int) (c : Cursor) : Option (String × Bool × Cursor) :=
  readPlain inFlow (parent + 1) (c.rest.length + 1) {} [] c

/-! ### Quoted scalars -/

/-- The rest of a scalar in single quotes. -/
def readSingle : Nat → List Char → Cursor → Option (String × Cursor)
  | 0, _, _ => none
  | fuel + 1, done, c =>
    if c.atDocumentEnd then none
    else match c.rest with
      | '\'' :: '\'' :: _ => readSingle fuel ('\'' :: done) (c.forward 2)
      | '\'' :: _ => some (String.ofList done.reverse, c.next)
      | ch :: _ =>
        if Cursor.endsWord (some ch) then
          match readGap 0 fuel {} c with
          | some (gap, c) => readSingle fuel (gap.fold ++ done) c
          | none => none
        else readSingle fuel (ch :: done) c.next
      | [] => none

/-- The characters behind the one-letter escapes. -/
def escapes : List (Char × Char) :=
  [('0', '\x00'), ('a', '\x07'), ('b', '\x08'), ('t', '\t'), ('\t', '\t'), ('n', '\n'),
    ('v', '\x0b'), ('f', '\x0c'), ('r', '\r'), ('e', '\x1b'), (' ', ' '), ('"', '"'), ('/', '/'),
    ('\\', '\\'), ('N', '\u0085'), ('_', '\u00a0'), ('L', '\u2028'), ('P', '\u2029')]

/-- The number of digits after the escapes by code point. -/
def hexEscapes : List (Char × Nat) := [('x', 2), ('u', 4), ('U', 8)]

/-- The character of a code point written in hexadecimal. -/
def codePoint? (digits : List Char) : Option Char := do
  let n ← Text.hexNumber? digits
  if n.isValidChar then some (Char.ofNat n) else none

/-- The character that an escape stands for, and the length of the escape, from the text after the
backslash. -/
def escape? : List Char → Option (Char × Nat)
  | [] => none
  | e :: rest => match escapes.lookup e with
    | some ch => some (ch, 1)
    | none => do
      let n ← hexEscapes.lookup e
      if rest.length < n then none else return (← codePoint? (rest.take n), n + 1)

/-- The rest of a scalar in double quotes. After a backslash, a line break and the blanks of the
next line stand for nothing. -/
def readDouble : Nat → List Char → Cursor → Option (String × Cursor)
  | 0, _, _ => none
  | fuel + 1, done, c =>
    if c.atDocumentEnd then none
    else match c.rest with
      | '"' :: _ => some (String.ofList done.reverse, c.next)
      | '\\' :: rest =>
        if rest.head?.any Cursor.isBreak then
          match readGap 0 fuel { first := some '\n' } (c.forward 2) with
          | some (gap, c) => readDouble fuel (gap.further ++ done) c
          | none => none
        else match escape? rest with
          | some (ch, n) => readDouble fuel (ch :: done) (c.forward (n + 1))
          | none => none
      | ch :: _ =>
        if Cursor.endsWord (some ch) then
          match readGap 0 fuel {} c with
          | some (gap, c) => readDouble fuel (gap.fold ++ done) c
          | none => none
        else readDouble fuel (ch :: done) c.next
      | [] => none

/-- The scalar in quotes at the place. -/
def quoted? (c : Cursor) : Option (String × Cursor) :=
  let read := if c.peek? == some '"' then readDouble else readSingle
  read (c.rest.length + 1) [] c.next

/-! ### Block scalars -/

/-- What becomes of the line breaks at the end of a block scalar. -/
inductive Chomp where
  | strip
  | clip
  | keep
  deriving DecidableEq

/-- What the first line of a block scalar says. -/
structure BlockHeader where
  /-- Are line breaks kept, or are they folded? -/
  literal : Bool
  chomp : Chomp := .clip
  /-- By how much the lines are indented. -/
  width : Option Nat := none

/-- The header with what one sign says, if it says something that was left open. -/
def BlockHeader.addSign? (h : BlockHeader) (sign : Char) : Option BlockHeader :=
  if sign = '+' && h.chomp = .clip then some { h with chomp := .keep }
  else if sign = '-' && h.chomp = .clip then some { h with chomp := .strip }
  else if '1' ≤ sign && sign ≤ '9' && h.width.isNone then
    some { h with width := some (sign.toNat - '0'.toNat) }
  else none

/-- The header after its sign `|` or `>`: at most two signs and a comment. -/
def header? (literal : Bool) (c : Cursor) : Option (BlockHeader × Cursor) := do
  let (h, c) := addSign { literal } c
  let (h, c) := addSign h c
  let c ← c.lineEnd?
  return (h, c.next)
where
  addSign (h : BlockHeader) (c : Cursor) : BlockHeader × Cursor :=
    match c.peek?.bind h.addSign? with
    | some h => (h, c.next)
    | none => (h, c)

/-- Lines without text up to the next line of a block scalar: their breaks, latest first, the widest
indentation met and the place after them. Without a known indentation all leading spaces are taken.
-/
def readEmptyLines (indent : Option Nat) :
    Nat → List Char → Nat → Cursor → Option (List Char × Nat × Cursor)
  | 0, _, _, _ => none
  | fuel + 1, breaks, widest, c =>
    let spaces := (c.rest.takeWhile (· = ' ')).length
    let c := c.forward (match indent with
      | some k => min spaces k
      | none => spaces)
    let widest := max widest c.column
    match c.peek? with
    | none => some (breaks, widest, c)
    | some ch =>
      if ch = '\t' && indent.all (c.column < ·) then none
      else if Cursor.isBreak ch then
        readEmptyLines indent fuel (Cursor.breakText ch :: breaks) widest c.next
      else some (breaks, widest, c)

/-- The lines of a block scalar. `done` holds the text so far without the line break `last` after
it, latest first; `further` are the breaks that follow, and `wasBlank` tells whether the last line
started with a blank. -/
def readBlockLines (h : BlockHeader) (indent : Nat) :
    Nat → List Char → Option Char → List Char → Bool → Cursor → Option (String × Cursor)
  | 0, _, _, _, _, _ => none
  | fuel + 1, done, last, further, wasBlank, c =>
    if c.column = indent && !c.atEnd then
      let isBlank := c.peek?.any Cursor.isSpace
      let joint :=
        if !h.literal && last = some '\n' && !wasBlank && !isBlank then
          if further.isEmpty then [' '] else []
        else last.toList
      let done := (c.rest.takeWhile (!Cursor.isBreak ·)).reverse ++ further ++ joint ++ done
      let ended := c.skipLine
      match readEmptyLines (some indent) fuel [] 0 ended.next with
      | none => none
      | some (further, _, c) =>
        readBlockLines h indent fuel done (ended.peek?.map Cursor.breakText) further isBlank c
    else
      let tail := match h.chomp with
        | .strip => []
        | .clip => last.toList
        | .keep => further ++ last.toList
      some (String.ofList (tail ++ done).reverse, c)

/-- The block scalar at the place, inside a block whose indentation is `parent`. Unless its header
tells, its indentation is the widest one of the lines up to its first line with text. -/
def block? (parent : Int) (c : Cursor) : Option (String × Cursor) := do
  let (h, c) ← header? (c.peek? == some '|') c.next
  let fuel := c.rest.length + 1
  let known := h.width.map fun n => (max parent 0).toNat + n
  let (breaks, widest, c) ← readEmptyLines known fuel [] 0 c
  let indent := known.getD (max widest (max (parent + 1).toNat 1))
  readBlockLines h indent fuel [] none breaks false c

end Outlier.Yaml
