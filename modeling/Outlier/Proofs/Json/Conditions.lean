import Mathlib.Data.List.Forall2
import Outlier.Proofs.Json.RoundTrip
import Outlier.Trigger.Source

/-! # Conditions survive their written form

A raw node and a written condition are read back from what is written for them, whichever of their
parts are missing, and a part that is missing is not written. An expression is written node by node,
with the names of its operators in small or capital letters (`Expression.Writes`), and what is read
back stands for the same expression (`conditions_roundTrip`). -/

namespace Outlier

/-! ### Names of operators -/

namespace Operator

/-- The name of the operator, each letter of it small or capital. -/
def Spells (op : Operator) (name : String) : Prop :=
  List.Forall₂ (fun small c => c = small ∨ c = small.toUpper) op.name.toList name.toList

variable {op : Operator} {name : String}

theorem map_toLower_of_spells (h : op.Spells name) : name.map Char.toLower = op.name := by
  have hletters : ∀ small ∈ op.name.toList,
      small.toLower = small ∧ small.toUpper.toLower = small := by
    cases op <;> simp [Operator.name]
  have hall : List.Forall₂ (fun small c => small = Char.toLower c) op.name.toList name.toList := by
    refine ((List.forall₂_and_left _ _).2 ⟨hletters, h⟩).imp fun small c hc => ?_
    obtain ⟨⟨hsmall, hcapital⟩, rfl | rfl⟩ := hc
    · exact hsmall.symm
    · exact hcapital.symm
  rw [← String.toList_inj, String.toList_map]
  rw [← List.forall₂_map_right_iff, List.forall₂_eq_eq_eq] at hall
  exact hall.symm

theorem spells_name (op : Operator) : op.Spells op.name :=
  List.forall₂_same.2 fun _ _ => .inl rfl

theorem ofName_of_spells (h : op.Spells name) : ofName name = .ok op := by
  unfold ofName
  rw [map_toLower_of_spells h]
  cases op <;> rfl

end Operator

/-- The node is written for the expression: a leaf by its stem, an operator by its name between its
sides. -/
inductive Expression.Writes : Expression → RawNode → Prop where
  | leaf (stem : String) : Writes (.leaf stem) (.leaf stem)
  | join {op : Operator} {name : String} {l r : Expression} {left right : RawNode}
      (hname : op.Spells name) (hl : Writes l left) (hr : Writes r right) :
      Writes (.join op l r) (.join name left right)

theorem Expression.exists_writes (e : Expression) : ∃ n, e.Writes n := by
  induction e with
  | leaf stem => exact ⟨_, .leaf stem⟩
  | join op l r ihl ihr =>
    obtain ⟨left, hl⟩ := ihl
    obtain ⟨right, hr⟩ := ihr
    exact ⟨_, .join op.spells_name hl hr⟩

theorem Expression.Writes.toExpression {e : Expression} {n : RawNode} (h : e.Writes n) :
    n.toExpression = .ok e := by
  induction h with
  | leaf stem => rfl
  | join hname _ _ ihl ihr =>
    simp only [RawNode.join, RawNode.toExpression, Operator.ofName_of_spells hname, ihl, ihr, bind,
      Except.bind, pure, Except.pure]

/-! ### Fields that may be missing -/

namespace RecordForm

variable {δ : Type} {step : String → Json → δ → Except DecodeError δ}

theorem readFields_append (l rest : List (String × Json)) (d : δ) :
    readFields step (l ++ rest) d = readFields step l d >>= readFields step rest := by
  induction l generalizing d with
  | nil => rfl
  | cons p l ih =>
    obtain ⟨key, j⟩ := p
    simp only [List.cons_append, readFields]
    cases step key j d with
    | error e => rfl
    | ok d => exact ih d

/-- A part that may be missing is read back from its field: `put` puts it into the record. -/
theorem readFields_field? {β : Type} {write : β → Json} {key : String} (put : Option β → δ)
    (part : Option β)
    (h : ∀ b, part = some b → step key (write b) (put none) = .ok (put (some b))) :
    readFields step (Json.field? key (part.map write)) (put none) = .ok (put part) := by
  cases part with
  | none => rfl
  | some b =>
    simp only [Option.map_some, Json.field?, readFields, h b rfl, bind, Except.bind]

end RecordForm

namespace Json

theorem valid_of_mem_field? {key : String} {value : Option Json}
    (h : ∀ j, value = some j → j.Valid) : ∀ p ∈ field? key value, p.2.Valid := by
  cases value with
  | none => exact nofun
  | some j => exact List.forall_mem_singleton.2 (h j rfl)

theorem keys_field? (key : String) (value : Option Json) :
    ((field? key value).map Prod.fst).Sublist [key] := by
  cases value with
  | none => exact List.nil_sublist _
  | some j => exact List.Sublist.refl _

/-- An object of four parts that may be missing, in the order of their keys. -/
theorem valid_parts {k₁ k₂ k₃ k₄ : String} {v₁ v₂ v₃ v₄ : Option Json}
    (hkeys : [k₁, k₂, k₃, k₄].Pairwise (· < ·)) (h₁ : ∀ j, v₁ = some j → j.Valid)
    (h₂ : ∀ j, v₂ = some j → j.Valid) (h₃ : ∀ j, v₃ = some j → j.Valid)
    (h₄ : ∀ j, v₄ = some j → j.Valid) :
    (obj (field? k₁ v₁ ++ field? k₂ v₂ ++ field? k₃ v₃ ++ field? k₄ v₄)).Valid := by
  refine .obj (hkeys.sublist ?_) ?_
  · simp only [List.map_append]
    exact (((keys_field? k₁ v₁).append (keys_field? k₂ v₂)).append (keys_field? k₃ v₃)).append
      (keys_field? k₄ v₄)
  · simp only [List.forall_mem_append]
    exact ⟨⟨⟨valid_of_mem_field? h₁, valid_of_mem_field? h₂⟩, valid_of_mem_field? h₃⟩,
      valid_of_mem_field? h₄⟩

theorem valid_of_map_str (text : Option String) : ∀ j, text.map Json.str = some j → j.Valid := by
  intro j hj
  obtain ⟨s, -, rfl⟩ := Option.map_eq_some_iff.1 hj
  exact .str s

end Json

/-! ### Raw nodes -/

namespace RawNode

/-- Read one part into the node; unknown fields are ignored. -/
def readPart (key : String) (j : Json) (node : RawNode) : Except DecodeError RawNode :=
  match Part.ofKey? key with
  | some .value => (j.toOption Json.toStr).map ({ node with value := · })
  | some .operator => (j.toOption Json.toStr).map ({ node with operator := · })
  | some .left => (ofJsonOrNull j).map ({ node with left := · })
  | some .right => (ofJsonOrNull j).map ({ node with right := · })
  | none => .ok node

theorem readFields_eq (fields : List (String × Json)) (node : RawNode) :
    readFields fields node = RecordForm.readFields readPart fields node := by
  induction fields generalizing node with
  | nil => rw [readFields, RecordForm.readFields]
  | cons p rest ih =>
    obtain ⟨key, j⟩ := p
    rw [readFields, RecordForm.readFields, readPart]
    rcases Part.ofKey? key with _ | _ | _ | _ | _
    · exact ih node
    · cases j.toOption Json.toStr with
      | error e => rfl
      | ok value => exact ih _
    · cases j.toOption Json.toStr with
      | error e => rfl
      | ok operator => exact ih _
    · cases ofJsonOrNull j with
      | error e => rfl
      | ok left => exact ih _
    · cases ofJsonOrNull j with
      | error e => rfl
      | ok right => exact ih _

theorem sideField_eq (key : String) (side : Option RawNode) :
    sideField key side = Json.field? key (side.map toJson) := by
  cases side with
  | none => rw [sideField]; rfl
  | some node => rw [sideField]; rfl

theorem toJson_eq (n : RawNode) :
    n.toJson = .obj (Json.field? "leftOp" (n.left.map toJson)
      ++ Json.field? "operator" (n.operator.map .str)
      ++ Json.field? "rightOp" (n.right.map toJson) ++ Json.field? "value" (n.value.map .str)) := by
  obtain ⟨value, operator, left, right⟩ := n
  rw [toJson, sideField_eq, sideField_eq]

mutual

theorem ofJsonOrNull_toJson : ∀ n : RawNode, ofJsonOrNull n.toJson = .ok (some n)
  | ⟨value, operator, left, right⟩ => by
    have hleft : RecordForm.readFields readPart (Json.field? "leftOp" (left.map toJson)) {} =
        .ok { left } :=
      RecordForm.readFields_field? (fun left => ({ left } : RawNode)) left
        fun n hn => congrArg (Except.map _) (ofJsonOrNull_side left n hn)
    have hoperator : RecordForm.readFields readPart (Json.field? "operator" (operator.map .str))
        { left } = .ok { left, operator } :=
      RecordForm.readFields_field? (fun operator => ({ left, operator } : RawNode)) operator
        fun _ _ => rfl
    have hright : RecordForm.readFields readPart (Json.field? "rightOp" (right.map toJson))
        { left, operator } = .ok { left, operator, right } :=
      RecordForm.readFields_field? (fun right => ({ left, operator, right } : RawNode)) right
        fun n hn => congrArg (Except.map _) (ofJsonOrNull_side right n hn)
    have hvalue : RecordForm.readFields readPart (Json.field? "value" (value.map .str))
        { left, operator, right } = .ok ⟨value, operator, left, right⟩ :=
      RecordForm.readFields_field? (fun value => ({ left, operator, right, value } : RawNode)) value
        fun _ _ => rfl
    simp only [toJson_eq, ofJsonOrNull, readFields_eq, RecordForm.readFields_append, hleft,
      hoperator, hright, hvalue, bind, Except.bind, Except.map]

theorem ofJsonOrNull_side : ∀ (side : Option RawNode) (n : RawNode), side = some n →
    ofJsonOrNull n.toJson = .ok (some n)
  | none, _, h => absurd h nofun
  | some m, _, h => Option.some.inj h ▸ ofJsonOrNull_toJson m

end

theorem ofJson_toJson (n : RawNode) : ofJson n.toJson = .ok n := by
  simp only [ofJson, ofJsonOrNull_toJson, bind, Except.bind, pure, Except.pure]

mutual

theorem valid_toJson : ∀ n : RawNode, n.toJson.Valid
  | ⟨value, operator, left, right⟩ => by
    have hkeys : ["leftOp", "operator", "rightOp", "value"].Pairwise (· < ·) := by decide
    rw [toJson_eq]
    exact Json.valid_parts hkeys (valid_side left) (Json.valid_of_map_str operator)
      (valid_side right) (Json.valid_of_map_str value)

theorem valid_side : ∀ (side : Option RawNode) (j : Json), side.map toJson = some j → j.Valid
  | none, _, h => absurd h nofun
  | some n, _, h => Option.some.inj h ▸ valid_toJson n

end

/-- The parts of a node are found under their keys, and no key is written for a missing part. -/
theorem get?_toJson (n : RawNode) :
    n.toJson.get? "value" = n.value.map .str ∧ n.toJson.get? "operator" = n.operator.map .str ∧
      n.toJson.get? "leftOp" = n.left.map toJson ∧
      n.toJson.get? "rightOp" = n.right.map toJson := by
  obtain ⟨value, operator, left, right⟩ := n
  rw [toJson_eq]
  cases value <;> cases operator <;> cases left <;> cases right <;> exact ⟨rfl, rfl, rfl, rfl⟩

end RawNode

/-! ### Whole conditions -/

namespace TriggerSpec

theorem ofJson_toJson (s : TriggerSpec) : ofJson s.toJson = .ok s := by
  obtain ⟨expression, operator, left, right⟩ := s
  have hexpression : RecordForm.readFields readField
      (Json.field? "expression" (expression.map .str)) {} = .ok { expression } :=
    RecordForm.readFields_field? (fun expression => ({ expression } : TriggerSpec)) expression
      fun _ _ => rfl
  have hleft : RecordForm.readFields readField (Json.field? "leftOp" (left.map RawNode.toJson))
      { expression } = .ok { expression, left } :=
    RecordForm.readFields_field? (fun left => ({ expression, left } : TriggerSpec)) left
      fun n _ => congrArg (Except.map _) n.ofJsonOrNull_toJson
  have hoperator : RecordForm.readFields readField (Json.field? "operator" (operator.map .str))
      { expression, left } = .ok { expression, left, operator } :=
    RecordForm.readFields_field? (fun operator => ({ expression, left, operator } : TriggerSpec))
      operator fun _ _ => rfl
  have hright : RecordForm.readFields readField (Json.field? "rightOp" (right.map RawNode.toJson))
      { expression, left, operator } = .ok ⟨expression, operator, left, right⟩ :=
    RecordForm.readFields_field?
      (fun right => ({ expression, left, operator, right } : TriggerSpec)) right
      fun n _ => congrArg (Except.map _) n.ofJsonOrNull_toJson
  simp only [toJson, ofJson, RecordForm.read, RecordForm.readFields_append, hexpression, hleft,
    hoperator, hright, bind, Except.bind]

theorem valid_toJson (s : TriggerSpec) : s.toJson.Valid := by
  have hkeys : ["expression", "leftOp", "operator", "rightOp"].Pairwise (· < ·) := by decide
  exact Json.valid_parts hkeys (Json.valid_of_map_str s.expression) (RawNode.valid_side s.left)
    (Json.valid_of_map_str s.operator) (RawNode.valid_side s.right)

theorem get?_toJson (s : TriggerSpec) :
    s.toJson.get? "expression" = s.expression.map .str ∧
      s.toJson.get? "operator" = s.operator.map .str ∧
      s.toJson.get? "leftOp" = s.left.map RawNode.toJson ∧
      s.toJson.get? "rightOp" = s.right.map RawNode.toJson := by
  obtain ⟨expression, operator, left, right⟩ := s
  cases expression <;> cases operator <;> cases left <;> cases right <;> exact ⟨rfl, rfl, rfl, rfl⟩

theorem fromJson_toJson (s : TriggerSpec) : fromJson s.toJson = .ok s := by
  rw [fromJson, ofJson_toJson]
  rfl

/-- The condition whose outermost node is given, with a flat form beside it or without one. -/
def ofNode (flat : Option String) (n : RawNode) : TriggerSpec :=
  { expression := flat, operator := n.operator, left := n.left, right := n.right }

/-- With an operator outermost, a condition stands for what its node stands for. -/
theorem toExpression_ofNode {op : Operator} {l r : Expression} {n : RawNode}
    (h : (Expression.join op l r).Writes n) (flat : Option String) :
    (ofNode flat n).toExpression = .ok (.join op l r) := by
  have hn := h.toExpression
  cases h with
  | join hname hl hr => exact hn

end TriggerSpec

/-- **Conditions survive their written form.** A raw node and a written condition are read back from
their JSON forms, whichever parts are missing at any depth, and a part has a key there if and only
if it is present. Every expression can be written as a node, and whatever letters the names of its
operators have, what is read back stands for the expression; with an operator outermost, so does
the condition that is made of the node. -/
theorem conditions_roundTrip :
    (RoundTrips RawNode.toJson RawNode.ofJson ∧ ∀ n : RawNode,
      n.toJson.get? "value" = n.value.map .str ∧ n.toJson.get? "operator" = n.operator.map .str ∧
        n.toJson.get? "leftOp" = n.left.map RawNode.toJson ∧
        n.toJson.get? "rightOp" = n.right.map RawNode.toJson) ∧
      (RoundTrips TriggerSpec.toJson TriggerSpec.ofJson ∧ ∀ s : TriggerSpec,
        s.toJson.get? "expression" = s.expression.map .str ∧
          s.toJson.get? "operator" = s.operator.map .str ∧
          s.toJson.get? "leftOp" = s.left.map RawNode.toJson ∧
          s.toJson.get? "rightOp" = s.right.map RawNode.toJson) ∧
      ∀ e : Expression, (∃ n, e.Writes n) ∧ ∀ n, e.Writes n →
        (∃ read, RawNode.ofJson n.toJson = .ok read ∧ read.toExpression = .ok e) ∧
          ∀ op l r, e = .join op l r → ∀ flat, ∃ read,
            TriggerSpec.fromJson (TriggerSpec.ofNode flat n).toJson = .ok read ∧
              read.toExpression = .ok e := by
  refine ⟨⟨.of_read_write RawNode.valid_toJson RawNode.ofJson_toJson, RawNode.get?_toJson⟩,
    ⟨.of_read_write TriggerSpec.valid_toJson TriggerSpec.ofJson_toJson, TriggerSpec.get?_toJson⟩,
    fun e => ⟨e.exists_writes, fun n h => ⟨?_, ?_⟩⟩⟩
  · exact ⟨n, n.ofJson_toJson, h.toExpression⟩
  · rintro op l r rfl flat
    exact ⟨_, TriggerSpec.fromJson_toJson _, TriggerSpec.toExpression_ofNode h flat⟩

/-- A condition under a condition, with names in mixed letters. -/
theorem conditions_mixedLetters :
    let e : Expression := .join .and (.leaf "web") (.join .or (.leaf "db") (.leaf ""))
    let n : RawNode := .join "aNd" (.leaf "web") (.join "OR" (.leaf "db") (.leaf ""))
    e.Writes n ∧ (∃ read, RawNode.ofJson n.toJson = .ok read ∧ read.toExpression = .ok e) ∧
      ∃ read, TriggerSpec.fromJson (TriggerSpec.ofNode none n).toJson = .ok read ∧
        read.toExpression = .ok e := by
  intro e n
  have hand : Operator.and.Spells "aNd" :=
    .cons (.inl rfl) (.cons (.inr rfl) (.cons (.inl rfl) .nil))
  have hor : Operator.or.Spells "OR" := .cons (.inr rfl) (.cons (.inr rfl) .nil)
  have hwrites : e.Writes n := .join hand (.leaf "web") (.join hor (.leaf "db") (.leaf ""))
  obtain ⟨hnode, hspec⟩ := (conditions_roundTrip.2.2 e).2 n hwrites
  exact ⟨hwrites, hnode, hspec _ _ _ rfl none⟩

end Outlier
