import Outlier.Trigger.Expression
import Outlier.Json.Decode

/-! # Written conditions as JSON

Nodes and whole conditions are objects whose missing parts are left out, or lists of their leading
parts in declared order. A part that is `null` counts as missing. -/

namespace Outlier

namespace RawNode

/-- How a node is laid out as a record. -/
def form : RecordForm where
  name := "ExpressionNode"
  fields := ["value", "operator", "leftOp", "rightOp"]
  required := 0

/-- The field of a node under a key. -/
inductive Part where
  | value
  | operator
  | left
  | right
  deriving DecidableEq

/-- The parts by their keys. -/
def Part.ofKey? (key : String) : Option Part :=
  [("value", Part.value), ("operator", Part.operator), ("leftOp", Part.left),
    ("rightOp", Part.right)].lookup key

mutual

/-- The node that a JSON value holds, if it is not `null`. -/
def ofJsonOrNull : Json → Except DecodeError (Option RawNode)
  | .null => .ok none
  | .obj fields => (readFields fields {}).map some
  | .arr items => do
    let node ← readItems form.fields items {}
    form.checkLength items.length
    return some node
  | j => .error (j.mismatch (.record form.name))

/-- Read the fields of an object one after the other; unknown ones are ignored. -/
def readFields : List (String × Json) → RawNode → Except DecodeError RawNode
  | [], node => .ok node
  | (key, j) :: rest, node => do
    match Part.ofKey? key with
    | some .value => readFields rest { node with value := ← j.toOption Json.toStr }
    | some .operator => readFields rest { node with operator := ← j.toOption Json.toStr }
    | some .left => readFields rest { node with left := ← ofJsonOrNull j }
    | some .right => readFields rest { node with right := ← ofJsonOrNull j }
    | none => readFields rest node

/-- Read the leading parts from a list of items. -/
def readItems : List String → List Json → RawNode → Except DecodeError RawNode
  | key :: keys, j :: rest, node => do
    match Part.ofKey? key with
    | some .value => readItems keys rest { node with value := ← j.toOption Json.toStr }
    | some .operator => readItems keys rest { node with operator := ← j.toOption Json.toStr }
    | some .left => readItems keys rest { node with left := ← ofJsonOrNull j }
    | some .right => readItems keys rest { node with right := ← ofJsonOrNull j }
    | none => readItems keys rest node
  | _, _, node => .ok node

end

/-- The node that a JSON value holds. -/
def ofJson (j : Json) : Except DecodeError RawNode := do
  match ← ofJsonOrNull j with
  | some node => return node
  | none => .error (j.mismatch (.record form.name))

mutual

/-- The JSON form of a node. -/
def toJson : RawNode → Json
  | ⟨value, operator, left, right⟩ =>
    .obj (sideField "leftOp" left ++ Json.field? "operator" (operator.map .str)
      ++ sideField "rightOp" right ++ Json.field? "value" (value.map .str))

/-- The field of a side, which is left out when the side is missing. -/
def sideField (key : String) : Option RawNode → List (String × Json)
  | some node => [(key, node.toJson)]
  | none => []

end

end RawNode

namespace TriggerSpec

/-- How a condition is laid out as a record. -/
def form : RecordForm where
  name := "TriggerConditionSpec"
  fields := ["expression", "operator", "leftOp", "rightOp"]
  required := 0

/-- Read one field into the condition; unknown fields are ignored. -/
def readField (key : String) (j : Json) (s : TriggerSpec) : Except DecodeError TriggerSpec :=
  match key with
  | "expression" => (j.toOption Json.toStr).map ({ s with expression := · })
  | "operator" => (j.toOption Json.toStr).map ({ s with operator := · })
  | "leftOp" => (RawNode.ofJsonOrNull j).map ({ s with left := · })
  | "rightOp" => (RawNode.ofJsonOrNull j).map ({ s with right := · })
  | _ => .ok s

/-- The condition that a JSON value holds. -/
def ofJson (j : Json) : Except DecodeError TriggerSpec := form.read readField {} j

/-- The JSON form of a condition. -/
def toJson (s : TriggerSpec) : Json :=
  .obj (Json.field? "expression" (s.expression.map .str)
    ++ Json.field? "leftOp" (s.left.map RawNode.toJson)
    ++ Json.field? "operator" (s.operator.map .str)
    ++ Json.field? "rightOp" (s.right.map RawNode.toJson))

end TriggerSpec
end Outlier
