import Outlier.Yaml.Tag

/-! # YAML tokens

The tokens of a YAML text. Where indentation makes a block or ends one, tokens say so: every block
collection starts with a token of its own and ends with `endBlock`, and every key of a mapping has
the token `key` before it, whether a question mark stands there or not. -/

namespace Outlier.Yaml

/-- A token of a YAML text. -/
inductive Token where
  | directive (d : Directive)
  | documentStart
  | documentEnd
  /-- A block sequence starts. -/
  | beginSequence
  /-- A block mapping starts. -/
  | beginMapping
  /-- A block collection ends. -/
  | endBlock
  | openBracket
  | closeBracket
  | openBrace
  | closeBrace
  /-- An item of a block sequence follows. -/
  | dash
  | comma
  /-- A key follows. -/
  | key
  /-- The value of a key follows. -/
  | value
  | alias (name : String)
  | anchor (name : String)
  | tag (t : Tag)
  | scalar (text : String) (plain : Bool)
  deriving DecidableEq

/-- The name after the sign of an anchor or an alias at the place. -/
def name? (c : Cursor) : Option (String × Cursor) :=
  let name := c.next.rest.takeWhile isNamePart
  let after := c.forward (name.length + 1)
  let ended := Cursor.endsWord after.peek?
    || after.peek?.any fun ch => ['?', ':', ',', ']', '}', '%', '@', '\x60'].contains ch
  if name.isEmpty || !ended then none else some (String.ofList name, after)

end Outlier.Yaml
