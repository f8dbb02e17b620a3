/-! # YAML values

A YAML document is a tree of scalars, sequences and mappings. Scalars keep their text and their tag;
`plain` tells those without quotes, among which the null forms are. A mapping keeps its pairs in
order, keys that stand twice included. Anchors are numbered. An alias only holds a number, since it
may stand inside the very node that it stands for: `Yaml.anchors` lists the nodes under the
numbers, and the last one under a number counts. -/

namespace Outlier

/-- A YAML value. -/
inductive Yaml where
  | scalar (text : String) (plain : Bool) (tag : Option String)
  | sequence (items : List Yaml)
  | mapping (pairs : List (Yaml × Yaml))
  /-- A node under the anchor of that number. -/
  | anchored (number : Nat) (node : Yaml)
  /-- The node under the anchor of that number. -/
  | alias (number : Nat)
  deriving Inhabited

namespace Yaml

/-- The plain scalar without text, which stands where a value was left out. -/
def empty : Yaml := .scalar "" true none

/-- Is the text of a plain scalar one of the null forms? -/
def isNullText (text : String) : Bool := ["~", "null", "Null", "NULL"].contains text

/-- The tag that asks for a null form. -/
def nullTag : String := "tag:yaml.org,2002:null"

/-! ### Anchors -/

mutual

/-- The nodes under anchors with their numbers, outer nodes before those in them. -/
def anchors : Yaml → List (Nat × Yaml)
  | .anchored n y => (n, y) :: y.anchors
  | .sequence items => itemAnchors items
  | .mapping pairs => pairAnchors pairs
  | .scalar _ _ _ | .alias _ => []

/-- The nodes under anchors in the items of a sequence. -/
def itemAnchors : List Yaml → List (Nat × Yaml)
  | [] => []
  | y :: rest => y.anchors ++ itemAnchors rest

/-- The nodes under anchors in the pairs of a mapping. -/
def pairAnchors : List (Yaml × Yaml) → List (Nat × Yaml)
  | [] => []
  | (key, y) :: rest => key.anchors ++ y.anchors ++ pairAnchors rest

end

mutual

/-- The size of a value: one for a scalar or an alias, two for a collection besides what it holds.
-/
def size : Yaml → Nat
  | .anchored _ y => y.size
  | .sequence items => itemsSize items + 2
  | .mapping pairs => pairsSize pairs + 2
  | .scalar _ _ _ | .alias _ => 1

/-- The size of the items of a sequence. -/
def itemsSize : List Yaml → Nat
  | [] => 0
  | y :: rest => y.size + itemsSize rest

/-- The size of the pairs of a mapping. -/
def pairsSize : List (Yaml × Yaml) → Nat
  | [] => 0
  | (key, y) :: rest => key.size + y.size + pairsSize rest

end

end Yaml
end Outlier
