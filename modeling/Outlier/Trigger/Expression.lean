import Outlier.Text.Quoted

/-! # Trigger expressions

A trigger condition over detector components. A leaf selects the anomalies whose component name
starts with its stem; an operator joins the selections of its two sides. Written conditions are
trees of raw nodes in which every part may be missing (`RawNode`, and `TriggerSpec` for the
outermost one); `RawNode.toExpression` turns them into expressions and reports the first fault, a
node's own before those of its left and then of its right side. -/

namespace Outlier

/-- How the two sides of a condition are joined. -/
inductive Operator where
  | and
  | or
  deriving DecidableEq

/-- A trigger condition. -/
inductive Expression where
  /-- The anomalies of the components whose name starts with `stem`. -/
  | leaf (stem : String)
  | join (op : Operator) (left right : Expression)
  deriving DecidableEq, Inhabited

/-- A written node: a value, or an operator with two sides, of which any part may be missing. -/
structure RawNode where
  value : Option String := none
  operator : Option String := none
  left : Option RawNode := none
  right : Option RawNode := none
  deriving Inhabited

/-- A written condition. Its operator stands at the top; `expression` is a flat form that is
accepted but cannot be evaluated. -/
structure TriggerSpec where
  expression : Option String := none
  operator : Option String := none
  left : Option RawNode := none
  right : Option RawNode := none
  deriving Inhabited

/-- Why a written condition is no trigger expression. -/
inductive TriggerFault where
  | nothingGiven
  | missingLeft (operator : String)
  | missingRight (operator : String)
  | flatExpression (text : String)
  | missingRoot
  | unsupportedOperator (name : String)
  deriving DecidableEq

/-- The message of a fault. -/
def TriggerFault.message : TriggerFault → String
  | nothingGiven => "Malformed expression: node has neither `value` nor `operator`"
  | missingLeft op => s!"Malformed expression: operator `{op}` is missing `leftOp`"
  | missingRight op => s!"Malformed expression: operator `{op}` is missing `rightOp`"
  | flatExpression text =>
    "Malformed expression: string expressions are not supported yet: " ++ Text.quoted text
  | missingRoot => "Malformed expression: missing root operator"
  | unsupportedOperator name => s!"Unsupported operator: {name}"

namespace Operator

/-- The operator of that name, in small or capital letters. -/
def ofName (name : String) : Except TriggerFault Operator :=
  if name.map Char.toLower = "and" then .ok .and
  else if name.map Char.toLower = "or" then .ok .or
  else .error (.unsupportedOperator name)

/-- The name of the operator. -/
def name : Operator → String
  | and => "and"
  | or => "or"

/-- The operator in messages. -/
def word : Operator → String
  | and => "AND"
  | or => "OR"

end Operator

namespace Expression

/-- The stems of the leaves from left to right. -/
def leaves : Expression → List String
  | leaf stem => [stem]
  | join _ l r => l.leaves ++ r.leaves

/-- The number of operators. -/
def operators : Expression → Nat
  | leaf _ => 0
  | join _ l r => l.operators + r.operators + 1

/-- The expression in messages. -/
def display : Expression → String
  | leaf stem => stem
  | join op l r => s!"({l.display} {op.word} {r.display})"

end Expression

namespace RawNode

/-- A node with a value only. -/
def leaf (value : String) : RawNode := { value := some value }

/-- A node with an operator and two sides. -/
def join (operator : String) (left right : RawNode) : RawNode :=
  { operator := some operator, left := some left, right := some right }

/-- The expression that the node stands for. A value counts whatever stands beside it. -/
def toExpression : RawNode → Except TriggerFault Expression
  | ⟨some value, _, _, _⟩ => .ok (.leaf value)
  | ⟨none, none, _, _⟩ => .error .nothingGiven
  | ⟨none, some op, none, _⟩ => .error (.missingLeft op)
  | ⟨none, some op, some _, none⟩ => .error (.missingRight op)
  | ⟨none, some op, some l, some r⟩ => do
    let op ← Operator.ofName op
    let l ← l.toExpression
    let r ← r.toExpression
    return .join op l r

end RawNode

namespace TriggerSpec

/-- The outermost node. -/
def root (s : TriggerSpec) : Except TriggerFault RawNode :=
  match s.operator, s.expression with
  | some op, _ => .ok { operator := some op, left := s.left, right := s.right }
  | none, some text => .error (.flatExpression text)
  | none, none => .error .missingRoot

/-- The expression that the condition stands for. -/
def toExpression (s : TriggerSpec) : Except TriggerFault Expression := do (← s.root).toExpression

end TriggerSpec
end Outlier
