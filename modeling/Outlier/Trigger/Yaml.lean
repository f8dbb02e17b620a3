import Outlier.Trigger.Json
import Outlier.Yaml.Decode
import Outlier.Yaml.Document

/-! # Written conditions as YAML

The shape is that of JSON objects: mappings whose missing parts are left out. Every scalar is a
text; a plain null form stands for a missing part. A part given twice, or anything of the wrong
shape, is refused. -/

namespace Outlier

namespace RawNode

/-- Read one part into the node. -/
def readYamlField (side : Yaml → Yaml.Reading (Option RawNode)) (key : String) (y : Yaml)
    (node : RawNode) : Yaml.Reading RawNode :=
  match Part.ofKey? key with
  | some .value => do return { node with value := ← y.toPart? }
  | some .operator => do return { node with operator := ← y.toPart? }
  | some .left => do return { node with left := ← side y }
  | some .right => do return { node with right := ← side y }
  | none => pure node

/-- The node that a value holds, if it is not missing; `depth` more mappings may stand inside each
other. -/
def ofYamlOrMissing (anchors : List (Nat × Yaml)) : Nat → Yaml → Yaml.Reading (Option RawNode)
  | 0, y => do
    if ← y.isMissing? then return none
    else if y.isVoid then return some {} else failure
  | depth + 1, y => do
    if ← y.isMissing? then return none
    else
      let readField := readYamlField (ofYamlOrMissing anchors depth)
      return some (← Yaml.readFields anchors form.fields readField [] (← y.toPairs?) {})

end RawNode

namespace TriggerSpec

/-- Read one part into the condition. -/
def readYamlField (side : Yaml → Yaml.Reading (Option RawNode)) (key : String) (y : Yaml)
    (s : TriggerSpec) : Yaml.Reading TriggerSpec :=
  match key with
  | "expression" => do return { s with expression := ← y.toPart? }
  | "operator" => do return { s with operator := ← y.toPart? }
  | "leftOp" => do return { s with left := ← side y }
  | "rightOp" => do return { s with right := ← side y }
  | _ => pure s

/-- The condition that the value of a document holds. A document without content is a condition
without parts. -/
def ofYaml? (root : Yaml) : Option TriggerSpec := do
  let side := RawNode.ofYamlOrMissing root.anchors (Yaml.nesting - 1)
  let reading := do
    let pairs ← (← Yaml.resolve root.anchors root).toPairs?
    Yaml.readFields root.anchors form.fields (readYamlField side) [] pairs {}
  let (s, _) ← reading.run root.aliasSteps
  return s

/-- The condition that a YAML text holds. -/
def ofYamlText? (text : String) : Option TriggerSpec := (Yaml.ofText? text).bind ofYaml?

end TriggerSpec
end Outlier
