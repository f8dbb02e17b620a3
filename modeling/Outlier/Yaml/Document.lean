import Outlier.Yaml.Lexer
import Outlier.Yaml.Node

/-! # YAML documents

A text holds at most one document: its directives, the mark of its start, which only directives
need, its value, and marks of its end. A text without document holds the empty scalar. -/

namespace Outlier.Yaml

/-- The directives at the start of a document. -/
structure Preamble where
  version : Option (Nat × Nat) := none
  handles : List (String × String) := []

/-- The preamble with one more directive. There is at most one version, 1.1 or 1.2, and one meaning
of a handle. -/
def Preamble.add? (p : Preamble) : Directive → Option Preamble
  | .version major minor =>
    if p.version.isNone && major = 1 && (minor = 1 || minor = 2) then
      some { p with version := some (major, minor) }
    else none
  | .handle name uri =>
    if (p.handles.lookup name).isSome then none
    else some { p with handles := (name, uri) :: p.handles }

/-- Read the directives, and the mark of the start after them. -/
def readPreamble : Preamble → List Token → Option Source
  | p, .directive d :: rest => do readPreamble (← p.add? d) rest
  | p, .documentStart :: rest => some { tokens := rest, handles := p.handles ++ standardHandles }
  | _, _ => none

/-- Does the token stand between documents? -/
def Token.isOutside : Token → Bool
  | .directive _ | .documentStart | .documentEnd => true
  | _ => false

/-- Read the value of a document. Only after the mark of its start it may be left out. -/
def readRoot (marked : Bool) (s : Source) : Option (Yaml × Source) :=
  if marked && s.tokens.head?.all (·.isOutside) then some (empty, s)
  else readNode (4 * s.tokens.length + 4) .inBlock s

/-- The value of the only document of the tokens. -/
def ofTokens? (tokens : List Token) : Option Yaml :=
  if tokens.isEmpty then some empty
  else do
    let (root, s) ←
      if tokens.head?.any fun t => t.isOutside && t ≠ .documentEnd then
        (readPreamble {} tokens).bind (readRoot true)
      else readRoot false { tokens }
    if s.tokens.all (· = .documentEnd) then return root else none

/-- The value of the only document of a text; `none` stands for a text that cannot be read. -/
def ofText? (text : String) : Option Yaml := (tokens? text).bind ofTokens?

end Outlier.Yaml
