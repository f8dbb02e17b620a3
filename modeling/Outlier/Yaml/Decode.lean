import Outlier.Yaml

/-! # Records from YAML

Decoding of YAML values into texts and records. Aliases are followed where a value is looked at, but
a document may follow only so many of them for its size, and may nest its mappings only so deep, so
that a small text cannot stand for a huge record. -/

namespace Outlier.Yaml

/-! ### Following aliases -/

/-- A reading that may follow a limited number of aliases. -/
abbrev Reading := StateT Nat Option

/-- The node itself: without its anchor, and for an alias the node under that anchor, the last one
of its number. -/
def resolve (anchors : List (Nat × Yaml)) : Yaml → Reading Yaml
  | .anchored _ y => pure y
  | .alias n => fun steps => match steps, anchors.reverse.lookup n with
    | steps + 1, some y => some (y, steps)
    | _, _ => none
  | y => pure y

/-- How many mappings may stand inside each other. -/
def nesting : Nat := 128

/-- How many aliases may be followed in a document. -/
def aliasSteps (root : Yaml) : Nat := 100 * root.size

/-! ### Shapes -/

/-- The text of a scalar. -/
def toStr? : Yaml → Option String
  | .scalar text _ _ => some text
  | _ => none

/-- Does the value stand for a missing part? Under the tag of null, only a null form may stand. -/
def isMissing? : Yaml → Option Bool
  | .scalar text true none => some (text = "" || isNullText text)
  | .scalar text true (some tag) =>
    if tag ≠ nullTag then some false else if isNullText text then some true else none
  | _ => some false

/-- The text of a part that may be missing. -/
def toPart? (y : Yaml) : Option (Option String) := do
  if ← y.isMissing? then return none else return some (← y.toStr?)

/-- Is it the plain scalar without text? It also counts as a mapping without pairs. -/
def isVoid : Yaml → Bool
  | .scalar text plain _ => plain && text = ""
  | _ => false

/-- The pairs of a mapping. -/
def toPairs? (y : Yaml) : Option (List (Yaml × Yaml)) :=
  match y with
  | .mapping pairs => some pairs
  | _ => if y.isVoid then some [] else none

variable {α : Type}

/-- Read the fields of a mapping one after the other: those under unknown keys are ignored, and no
known key may stand twice; `seen` holds those met before. -/
def readFields (anchors : List (Nat × Yaml)) (known : List String)
    (readField : String → Yaml → α → Reading α) :
    List String → List (Yaml × Yaml) → α → Reading α
  | _, [], a => pure a
  | seen, (key, y) :: rest, a => do
    let key ← (← resolve anchors key).toStr?
    if !known.contains key then readFields anchors known readField seen rest a
    else if seen.contains key then failure
    else
      let a ← readField key (← resolve anchors y) a
      readFields anchors known readField (key :: seen) rest a

end Outlier.Yaml
