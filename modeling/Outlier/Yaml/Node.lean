import Outlier.Yaml
import Outlier.Yaml.Token

/-! # From YAML tokens to values

A value is read by recursive descent over the tokens. A node may have an anchor and a tag before
it, and may be left out where one of them, or the place it stands in, tells that it is there. A
recursion budget in the number of tokens is always enough, since between two levels of the descent
a token is taken. -/

namespace Outlier.Yaml

/-- The tokens that are left of a document, with the handles it may use and the anchors met so
far. -/
structure Source where
  tokens : List Token
  handles : List (String × String) := standardHandles
  /-- The anchors by name. -/
  names : List (String × Nat) := []

/-- The number of the next anchor, which is how many names are known, and the source that knows it
under the given name. An anchor of a known name takes over that name and leaves their number as it
is. -/
def Source.addAnchor (s : Source) (name : String) : Nat × Source :=
  (s.names.length, { s with
    names := (name, s.names.length) :: s.names.filter fun known => known.1 ≠ name })

/-! ### Properties -/

/-- What stands before a node. -/
structure Properties where
  anchor : Option Nat := none
  tag : Option String := none

/-- Did anything stand before the node? -/
def Properties.given (p : Properties) : Bool := p.anchor.isSome || p.tag.isSome

/-- The node under its anchor. -/
def Properties.apply (p : Properties) (node : Yaml) : Yaml :=
  match p.anchor with
  | some n => .anchored n node
  | none => node

/-- A scalar with its tag; the tag `!` says no more than no tag. -/
def Properties.scalar (p : Properties) (text : String) (plain : Bool) : Yaml :=
  p.apply (.scalar text plain (p.tag.filter (· ≠ "!")))

/-- The anchor and the tag before a node, in either order. -/
def readProperties? (s : Source) : Option (Properties × Source) :=
  match s.tokens with
  | .anchor name :: .tag t :: tokens => both name t tokens
  | .tag t :: .anchor name :: tokens => both name t tokens
  | .anchor name :: tokens =>
    let (n, s) := s.addAnchor name
    some ({ anchor := some n }, { s with tokens })
  | .tag t :: tokens => do
    return ({ tag := some (← t.resolve? s.handles) }, { s with tokens })
  | _ => some ({}, s)
where
  both (name : String) (t : Tag) (tokens : List Token) : Option (Properties × Source) := do
    let (n, s) := s.addAnchor name
    return ({ anchor := some n, tag := some (← t.resolve? s.handles) }, { s with tokens })

/-! ### Nodes -/

/-- Where a node stands. -/
inductive Position where
  | inFlow
  | inBlock
  /-- A key or value of a block mapping, where a sequence needs no block of its own. -/
  | inPair
  deriving DecidableEq

/-- Does a token of the given ones, or the end of the document, come next? -/
def Source.isBefore (s : Source) (tokens : List Token) : Bool :=
  s.tokens.head?.any tokens.contains

/-- What a key or value of a block mapping that was left out stands before. -/
def pairEnds : List Token := [.key, .value, .endBlock]

mutual

/-- A node. -/
def readNode : Nat → Position → Source → Option (Yaml × Source)
  | 0, _, _ => none
  | fuel + 1, position, s =>
    match s.tokens with
    | .alias name :: tokens => (s.names.lookup name).map fun n => (.alias n, { s with tokens })
    | _ => do
      let (p, s) ← readProperties? s
      let inFlow := position = .inFlow
      match s.tokens with
      | .scalar text plain :: tokens => return (p.scalar text plain, { s with tokens })
      | .openBracket :: tokens => (readItems fuel [] { s with tokens }).map (apply p)
      | .openBrace :: tokens => (readPairs fuel [] { s with tokens }).map (apply p)
      | .beginSequence :: tokens =>
        if inFlow then empty? p s else (readBlockItems fuel [] { s with tokens }).map (apply p)
      | .beginMapping :: tokens =>
        if inFlow then empty? p s else (readBlockPairs fuel [] { s with tokens }).map (apply p)
      | .dash :: _ =>
        if position = .inPair then (readDashes fuel [] s).map (apply p) else empty? p s
      | _ => empty? p s
where
  apply (p : Properties) (r : Yaml × Source) : Yaml × Source := (p.apply r.1, r.2)
  empty? (p : Properties) (s : Source) : Option (Yaml × Source) :=
    if p.given then some (p.apply (.scalar "" true p.tag), s) else none

/-- A node, or the empty scalar before one of the given tokens. -/
def readOptional : Nat → Position → List Token → Source → Option (Yaml × Source)
  | 0, _, _, _ => none
  | fuel + 1, position, ends, s =>
    if s.isBefore ends then some (empty, s) else readNode fuel position s

/-- The value of a pair, if a colon stands before it. -/
def readValue : Nat → Position → List Token → Source → Option (Yaml × Source)
  | 0, _, _, _ => none
  | fuel + 1, position, ends, s =>
    match s.tokens with
    | .value :: tokens => readOptional fuel position ends { s with tokens }
    | _ => some (empty, s)

/-- The items of a block sequence with a block of its own; `done` holds those read so far, latest
first. -/
def readBlockItems : Nat → List Yaml → Source → Option (Yaml × Source)
  | 0, _, _ => none
  | fuel + 1, done, s =>
    match s.tokens with
    | .dash :: tokens => do
      let (item, s) ← readOptional fuel .inBlock [.dash, .endBlock] { s with tokens }
      readBlockItems fuel (item :: done) s
    | .endBlock :: tokens => some (.sequence done.reverse, { s with tokens })
    | _ => none

/-- The items of a block sequence in the block of the mapping around it. -/
def readDashes : Nat → List Yaml → Source → Option (Yaml × Source)
  | 0, _, _ => none
  | fuel + 1, done, s =>
    match s.tokens with
    | .dash :: tokens => do
      let (item, s) ← readOptional fuel .inBlock (.dash :: pairEnds) { s with tokens }
      readDashes fuel (item :: done) s
    | _ => some (.sequence done.reverse, s)

/-- The pairs of a block mapping. -/
def readBlockPairs : Nat → List (Yaml × Yaml) → Source → Option (Yaml × Source)
  | 0, _, _ => none
  | fuel + 1, done, s =>
    match s.tokens with
    | .key :: tokens => do
      let (key, s) ← readOptional fuel .inPair pairEnds { s with tokens }
      let (value, s) ← readValue fuel .inPair pairEnds s
      readBlockPairs fuel ((key, value) :: done) s
    | .endBlock :: tokens => some (.mapping done.reverse, { s with tokens })
    | _ => none

/-- An item between brackets: a node, or a mapping of one pair. Where the key of that pair was left
out, the token after it is dropped. -/
def readItem : Nat → Source → Option (Yaml × Source)
  | 0, _ => none
  | fuel + 1, s =>
    match s.tokens with
    | .key :: tokens => do
      let s := { s with tokens }
      let (key, s) ←
        if s.isBefore [.value, .comma, .closeBracket] then
          some (empty, { s with tokens := s.tokens.drop 1 })
        else readNode fuel .inFlow s
      let (value, s) ← readValue fuel .inFlow [.comma, .closeBracket] s
      return (.mapping [(key, value)], s)
    | _ => readNode fuel .inFlow s

/-- The items up to a closing bracket. -/
def readItems : Nat → List Yaml → Source → Option (Yaml × Source)
  | 0, _, _ => none
  | fuel + 1, done, s =>
    match s.tokens with
    | .closeBracket :: tokens => some (.sequence done.reverse, { s with tokens })
    | _ => do
      let (item, s) ← readItem fuel s
      match s.tokens with
      | .comma :: tokens => readItems fuel (item :: done) { s with tokens }
      | .closeBracket :: _ => readItems fuel (item :: done) s
      | _ => none

/-- The pairs up to a closing brace. Without the token `key`, a node is a key without value. -/
def readPairs : Nat → List (Yaml × Yaml) → Source → Option (Yaml × Source)
  | 0, _, _ => none
  | fuel + 1, done, s =>
    match s.tokens with
    | .closeBrace :: tokens => some (.mapping done.reverse, { s with tokens })
    | _ => do
      let (pair, s) ← match s.tokens with
        | .key :: tokens => do
          let (key, s) ←
            readOptional fuel .inFlow [.value, .comma, .closeBrace] { s with tokens }
          let (value, s) ← readValue fuel .inFlow [.comma, .closeBrace] s
          some ((key, value), s)
        | _ => do
          let (key, s) ← readNode fuel .inFlow s
          some ((key, empty), s)
      match s.tokens with
      | .comma :: tokens => readPairs fuel (pair :: done) { s with tokens }
      | .closeBrace :: _ => readPairs fuel (pair :: done) s
      | _ => none

end

end Outlier.Yaml
