import Mathlib
import Outlier.Proofs.Json.Conditions

/-! # Which nodes stand for an expression

Not every node of a written tree counts: what stands beside or below a value is never looked at. The
nodes that count are listed in the order in which they are looked at (`RawNode.live`), a node before
its left and then its right side. The tree stands for an expression if and only if each of them has
a value, or an operator and two sides (`RawNode.Complete`); the expression then has the shape of the
tree (`RawNode.Mirrors`). Otherwise the first of them that is at fault decides. -/

namespace Outlier

/-! ### Names of operators -/

namespace Operator

variable {op : Operator} {name : String}

instance (op : Operator) (name : String) : Decidable (op.Spells name) :=
  inferInstanceAs (Decidable (List.Forall₂ _ _ _))

theorem eq_toLower_or_eq_toUpper (c : Char) : c = c.toLower ∨ c = c.toLower.toUpper := by
  by_cases h : c.isUpper
  · right
    rw [Char.toUpper_toLower_eq_toUpper,
      Char.toUpper_eq_of_not_isLower (Char.not_isLower_of_isUpper h)]
  · left
    rw [Char.toLower_eq_of_not_isUpper h]

theorem spells_of_map_toLower (h : name.map Char.toLower = op.name) : op.Spells name := by
  unfold Spells
  rw [← h, String.toList_map, List.forall₂_map_left_iff, List.forall₂_same]
  exact fun c _ => eq_toLower_or_eq_toUpper c

theorem ofName_eq_ok_iff : ofName name = .ok op ↔ op.Spells name := by
  refine ⟨fun h => spells_of_map_toLower ?_, ofName_of_spells⟩
  unfold ofName at h
  split at h
  next hand =>
    obtain rfl := Except.ok.inj h
    exact hand
  next =>
    split at h
    next hor =>
      obtain rfl := Except.ok.inj h
      exact hor
    next => cases h

theorem ofName_of_not_spells (hand : ¬ Operator.and.Spells name) (hor : ¬ Operator.or.Spells name) :
    ofName name = .error (.unsupportedOperator name) := by
  have hand' : name.map Char.toLower ≠ "and" := fun h => hand (spells_of_map_toLower h)
  have hor' : name.map Char.toLower ≠ "or" := fun h => hor (spells_of_map_toLower h)
  rw [ofName, if_neg hand', if_neg hor']

end Operator

namespace RawNode

/-! ### The nodes that count -/

mutual

/-- The nodes that count, a node before those of its left and then of its right side. A value hides
the sides. -/
def live : RawNode → List RawNode
  | ⟨some value, operator, left, right⟩ => [⟨some value, operator, left, right⟩]
  | ⟨none, operator, left, right⟩ =>
    ⟨none, operator, left, right⟩ :: (liveSide left ++ liveSide right)

/-- The nodes of a side that count. -/
def liveSide : Option RawNode → List RawNode
  | none => []
  | some n => n.live

end

/-- The second node is the first one or lies in its sides, and no node above it has a value. -/
inductive Reaches : RawNode → RawNode → Prop where
  | refl (n : RawNode) : Reaches n n
  | left {n l m : RawNode} (hvalue : n.value = none) (hl : n.left = some l) (hm : Reaches l m) :
      Reaches n m
  | right {n r m : RawNode} (hvalue : n.value = none) (hr : n.right = some r) (hm : Reaches r m) :
      Reaches n m

theorem mem_liveSide {side : Option RawNode} {m : RawNode} :
    m ∈ liveSide side ↔ ∃ n, side = some n ∧ m ∈ n.live := by
  cases side with
  | none => simp [liveSide]
  | some n => simp [liveSide]

theorem mem_live_self (n : RawNode) : n ∈ n.live := by
  obtain ⟨_ | value, operator, left, right⟩ := n
  · rw [live]
    exact List.mem_cons_self
  · rw [live]
    exact List.mem_cons_self

theorem Reaches.mem_live {n m : RawNode} (h : n.Reaches m) : m ∈ n.live := by
  induction h with
  | refl n => exact n.mem_live_self
  | @left n l m hvalue hl _ ih =>
    obtain ⟨value, operator, left, right⟩ := n
    obtain rfl : value = none := hvalue
    rw [live]
    exact List.mem_cons_of_mem _ (List.mem_append_left _ (mem_liveSide.2 ⟨l, hl, ih⟩))
  | @right n r m hvalue hr _ ih =>
    obtain ⟨value, operator, left, right⟩ := n
    obtain rfl : value = none := hvalue
    rw [live]
    exact List.mem_cons_of_mem _ (List.mem_append_right _ (mem_liveSide.2 ⟨r, hr, ih⟩))

mutual

theorem reaches_of_mem_live : ∀ n m : RawNode, m ∈ n.live → n.Reaches m
  | ⟨some value, operator, left, right⟩, m, h => by
    rw [live, List.mem_singleton] at h
    exact h ▸ .refl _
  | ⟨none, operator, left, right⟩, m, h => by
    rw [live, List.mem_cons, List.mem_append] at h
    rcases h with rfl | h | h
    · exact .refl _
    · obtain ⟨l, hl, hm⟩ := reaches_of_mem_liveSide left m h
      exact .left rfl hl hm
    · obtain ⟨r, hr, hm⟩ := reaches_of_mem_liveSide right m h
      exact .right rfl hr hm

theorem reaches_of_mem_liveSide : ∀ (side : Option RawNode) (m : RawNode), m ∈ liveSide side →
    ∃ n, side = some n ∧ n.Reaches m
  | none, m, h => absurd h (by simp [liveSide])
  | some n, m, h => ⟨n, rfl, reaches_of_mem_live n m (by rwa [liveSide] at h)⟩

end

theorem mem_live_iff {n m : RawNode} : m ∈ n.live ↔ n.Reaches m :=
  ⟨n.reaches_of_mem_live m, Reaches.mem_live⟩

/-! ### Faults of a node -/

/-- The node has a value, or the name of an operator and two sides. -/
def Complete (n : RawNode) : Prop :=
  n.value ≠ none ∨
    (∃ (op : Operator) (name : String), n.operator = some name ∧ op.Spells name) ∧
      n.left ≠ none ∧ n.right ≠ none

/-- What is wrong with the node itself. Its operator is asked for first, then its left and its right
side, and last whether the operator is known. -/
def ownFault? (n : RawNode) : Option TriggerFault :=
  match n.value, n.operator, n.left, n.right with
  | some _, _, _, _ => none
  | none, none, _, _ => some .nothingGiven
  | none, some name, none, _ => some (.missingLeft name)
  | none, some name, some _, none => some (.missingRight name)
  | none, some name, some _, some _ =>
    if Operator.and.Spells name ∨ Operator.or.Spells name then none
    else some (.unsupportedOperator name)

theorem ownFault?_eq_none_iff {n : RawNode} : n.ownFault? = none ↔ n.Complete := by
  have hspells (name : String) : (Operator.and.Spells name ∨ Operator.or.Spells name) ↔
      ∃ op : Operator, op.Spells name := by
    constructor
    · rintro (h | h)
      · exact ⟨_, h⟩
      · exact ⟨_, h⟩
    · rintro ⟨_ | _, h⟩
      · exact .inl h
      · exact .inr h
  obtain ⟨value, operator, left, right⟩ := n
  cases value <;> cases operator <;> cases left <;> cases right <;>
    simp [ownFault?, Complete, hspells]

/-! ### Conversion -/

/-- The expression has the shape of the tree: its leaves are the values, and its operators are those
that the nodes without value name. -/
inductive Mirrors : RawNode → Expression → Prop where
  | leaf {n : RawNode} {value : String} (hvalue : n.value = some value) : Mirrors n (.leaf value)
  | join {n l r : RawNode} {op : Operator} {name : String} {left right : Expression}
      (hvalue : n.value = none) (hname : n.operator = some name) (hop : op.Spells name)
      (hl : n.left = some l) (hr : n.right = some r) (hleft : Mirrors l left)
      (hright : Mirrors r right) : Mirrors n (.join op left right)

variable {n l r : RawNode} {name : String} {e : Expression} {f : TriggerFault}

theorem toExpression_sides (name : String) (l r : RawNode) :
    toExpression ⟨none, some name, some l, some r⟩ = do
      return .join (← Operator.ofName name) (← l.toExpression) (← r.toExpression) := by
  rw [toExpression]

/-- Nothing is made of two sides unless the operator is known and both sides stand for something. -/
theorem exists_of_toExpression_sides
    (h : toExpression ⟨none, some name, some l, some r⟩ = .ok e) :
    ∃ op left right, Operator.ofName name = .ok op ∧ l.toExpression = .ok left ∧
      r.toExpression = .ok right ∧ e = .join op left right := by
  rw [toExpression_sides] at h
  cases hop : Operator.ofName name with
  | error f =>
    rw [hop] at h
    cases h
  | ok op =>
    cases hleft : l.toExpression with
    | error f =>
      rw [hop, hleft] at h
      cases h
    | ok left =>
      cases hright : r.toExpression with
      | error f =>
        rw [hop, hleft, hright] at h
        cases h
      | ok right =>
        rw [hop, hleft, hright] at h
        exact ⟨op, left, right, rfl, rfl, rfl, (Except.ok.inj h).symm⟩

theorem mirrors_of_toExpression (h : n.toExpression = .ok e) : n.Mirrors e := by
  induction n using toExpression.induct generalizing e with
  | case1 value operator left right =>
    rw [toExpression] at h
    obtain rfl := Except.ok.inj h
    exact .leaf rfl
  | case2 left right =>
    rw [toExpression] at h
    cases h
  | case3 name right =>
    rw [toExpression] at h
    cases h
  | case4 name l =>
    rw [toExpression] at h
    cases h
  | case5 name l r ihl ihr =>
    obtain ⟨op, left, right, hop, hleft, hright, rfl⟩ := exists_of_toExpression_sides h
    exact .join rfl rfl (Operator.ofName_eq_ok_iff.1 hop) rfl rfl (ihl hleft) (ihr hright)

theorem Mirrors.toExpression_eq (h : n.Mirrors e) : n.toExpression = .ok e := by
  induction h with
  | @leaf n value hvalue =>
    obtain ⟨_, operator, left, right⟩ := n
    obtain rfl := hvalue
    rw [toExpression]
  | @join n l r op name left right hvalue hname hop hl hr _ _ ihl ihr =>
    obtain ⟨_, _, _, _⟩ := n
    obtain rfl := hvalue
    obtain rfl := hname
    obtain rfl := hl
    obtain rfl := hr
    rw [toExpression_sides, Operator.ofName_of_spells hop, ihl, ihr]
    rfl

theorem toExpression_eq_ok_iff : n.toExpression = .ok e ↔ n.Mirrors e :=
  ⟨mirrors_of_toExpression, Mirrors.toExpression_eq⟩

/-- A node with a fault of its own comes first. -/
theorem findSome?_live (h : n.ownFault? = some f) : n.live.findSome? ownFault? = some f := by
  obtain ⟨_ | value, operator, left, right⟩ := n
  · rw [live, List.findSome?_cons, h]
  · cases h

/-- With two sides, the operator alone can be at fault. -/
theorem ownFault?_sides (name : String) (l r : RawNode) :
    ownFault? ⟨none, some name, some l, some r⟩ =
      match Operator.ofName name with
      | .error f => some f
      | .ok _ => none := by
  show (if Operator.and.Spells name ∨ Operator.or.Spells name then none
    else some (TriggerFault.unsupportedOperator name)) = _
  by_cases hand : Operator.and.Spells name
  · rw [if_pos (.inl hand), Operator.ofName_of_spells hand]
  · by_cases hor : Operator.or.Spells name
    · rw [if_pos (.inr hor), Operator.ofName_of_spells hor]
    · rw [if_neg (not_or.2 ⟨hand, hor⟩), Operator.ofName_of_not_spells hand hor]

theorem findSome?_live_sides (name : String) (l r : RawNode) :
    (live ⟨none, some name, some l, some r⟩).findSome? ownFault? =
      match Operator.ofName name with
      | .error f => some f
      | .ok _ => (l.live.findSome? ownFault?).or (r.live.findSome? ownFault?) := by
  rw [live, liveSide, liveSide, List.findSome?_cons, List.findSome?_append, ownFault?_sides]
  cases Operator.ofName name <;> rfl

/-- What is reported is the fault of the first node that has one. -/
theorem toExpression_eq_error_iff :
    n.toExpression = .error f ↔ n.live.findSome? ownFault? = some f := by
  induction n using toExpression.induct generalizing f with
  | case1 value operator left right => simp [toExpression, live, ownFault?]
  | case2 left right =>
    rw [toExpression, findSome?_live (f := .nothingGiven) rfl, Except.error.injEq, Option.some_inj]
  | case3 name right =>
    rw [toExpression, findSome?_live (f := .missingLeft name) rfl, Except.error.injEq,
      Option.some_inj]
  | case4 name l =>
    rw [toExpression, findSome?_live (f := .missingRight name) rfl, Except.error.injEq,
      Option.some_inj]
  | case5 name l r ihl ihr =>
    rw [toExpression_sides, findSome?_live_sides]
    cases Operator.ofName name with
    | error g => simp [bind, Except.bind]
    | ok op =>
      cases hl : l.toExpression with
      | error g =>
        rw [ihl.1 hl]
        simp [bind, Except.bind]
      | ok left =>
        have hnone : l.live.findSome? ownFault? = none := by
          refine Option.eq_none_iff_forall_ne_some.2 fun g hg => ?_
          rw [ihl.2 hg] at hl
          cases hl
        rw [hnone, Option.none_or, ← ihr]
        cases r.toExpression with
        | error g => rfl
        | ok right => simp [bind, Except.bind, pure, Except.pure]

/-- The tree stands for an expression if every node that counts is complete. -/
theorem exists_toExpression_iff :
    (∃ e, n.toExpression = .ok e) ↔ ∀ m, n.Reaches m → m.Complete := by
  have hnone : (∀ m, n.Reaches m → m.Complete) ↔ n.live.findSome? ownFault? = none := by
    simp only [List.findSome?_eq_none_iff, mem_live_iff, ownFault?_eq_none_iff]
  rw [hnone]
  constructor
  · rintro ⟨e, he⟩
    refine Option.eq_none_iff_forall_ne_some.2 fun f hf => ?_
    exact nomatch he.symm.trans (toExpression_eq_error_iff.2 hf)
  · intro h
    cases hn : n.toExpression with
    | ok e => exact ⟨e, rfl⟩
    | error f => exact nomatch h.symm.trans (toExpression_eq_error_iff.1 hn)

end RawNode

namespace TriggerSpec

/-- The outermost node of a condition, which has no value. -/
def node (s : TriggerSpec) : RawNode :=
  { operator := s.operator, left := s.left, right := s.right }

/-- With an operator a condition stands for what its outermost node stands for, whatever flat form
stands beside it; without one nothing but the flat form decides. -/
theorem toExpression_eq (s : TriggerSpec) :
    s.toExpression =
      match s.operator, s.expression with
      | some _, _ => s.node.toExpression
      | none, some text => .error (.flatExpression text)
      | none, none => .error .missingRoot := by
  obtain ⟨expression, operator, left, right⟩ := s
  cases operator <;> cases expression <;> rfl

end TriggerSpec

/-- **The grammar of written conditions.** The nodes of a tree that count are those that are reached
without passing a node with a value. The tree stands for an expression if and only if each of them
has a value, or the name of an operator, in small or capital letters, and two sides; the expression
mirrors the tree. Otherwise the first node that counts and is at fault is reported, with its first
fault. A condition with an operator behaves like its outermost node, and one without is refused. -/
theorem conditions_grammar :
    (∀ n : RawNode,
      (∀ m, m ∈ n.live ↔ n.Reaches m) ∧
        ((∃ e, n.toExpression = .ok e) ↔ ∀ m, n.Reaches m → m.Complete) ∧
        (∀ e, n.toExpression = .ok e ↔ n.Mirrors e) ∧
        ∀ f, n.toExpression = .error f ↔ n.live.findSome? RawNode.ownFault? = some f) ∧
      ∀ s : TriggerSpec, s.toExpression =
        match s.operator, s.expression with
        | some _, _ => s.node.toExpression
        | none, some text => .error (.flatExpression text)
        | none, none => .error .missingRoot :=
  ⟨fun _ => ⟨fun _ => RawNode.mem_live_iff, RawNode.exists_toExpression_iff,
      fun _ => RawNode.toExpression_eq_ok_iff, fun _ => RawNode.toExpression_eq_error_iff⟩,
    TriggerSpec.toExpression_eq⟩

end Outlier
