import Mathlib.Algebra.Ring.Nat
import Outlier.Predicate

/-! # Predicates and their comparisons

A predicate is a tree of conjunctions over comparisons, and says what its comparisons say, read from
left to right: their number is what `conjuncts` counts (`conjuncts_eq`), and the predicate holds for
an anomaly that meets all of them (`holds_iff`). None is left out or made up by the reading
(`mem_flatten_iff`), so that a predicate in which nothing is compared, however deep its empty
conjunctions are nested, holds for every anomaly (`holds_of_flatten_eq_nil`). -/

namespace Outlier

/-! ### Single comparisons -/

namespace Comparison

/-- What a comparison asks of a value and its bound, as integers. -/
def Relates : Comparison → Int → Int → Prop
  | atLeast, value, bound => bound ≤ value
  | atMost, value, bound => value ≤ bound
  | equals, value, bound => value = bound

instance : ∀ (c : Comparison) (value bound : Int), Decidable (c.Relates value bound)
  | atLeast, value, bound => inferInstanceAs (Decidable (bound ≤ value))
  | atMost, value, bound => inferInstanceAs (Decidable (value ≤ bound))
  | equals, value, bound => inferInstanceAs (Decidable (value = bound))

theorem test_iff {c : Comparison} {value bound : Int64} :
    c.test value bound ↔ c.Relates value.toInt bound.toInt := by
  cases c with
  | atLeast => exact decide_eq_true_iff.trans Int64.le_iff_toInt_le
  | atMost => exact decide_eq_true_iff.trans Int64.le_iff_toInt_le
  | equals => exact decide_eq_true_iff.trans Int64.toInt_inj.symm

end Comparison

namespace Predicate

variable {p : Predicate} {parts : List Predicate} {a : Anomaly} {x : Comparison × Field × Int64}

/-- The anomaly has a value in the column, and that value compares with the bound as it should. -/
def Met (a : Anomaly) : Comparison × Field × Int64 → Prop
  | (c, field, bound) => ∃ value, field.value? a = some value ∧ c.Relates value.toInt bound.toInt

instance (a : Anomaly) : ∀ x, Decidable (Met a x)
  | (c, field, bound) =>
    decidable_of_iff ((field.value? a).any fun value => c.Relates value.toInt bound.toInt) <| by
      simp only [Met, Option.any_eq_true, decide_eq_true_eq]

theorem holds_compare_iff {c : Comparison} {field : Field} {bound : Int64} :
    (compare c field bound).holds a ↔ Met a (c, field, bound) := by
  simp only [holds, Met, Option.any_eq_true, Comparison.test_iff]

/-- Without a detector, no comparison of the detector is met. -/
theorem not_met_detectorId (h : a.detector = none) (c : Comparison) (bound : Int64) :
    ¬ Met a (c, .detectorId, bound) := by
  rintro ⟨value, hvalue, -⟩
  have hnone : Field.value? .detectorId a = none := h
  rw [hnone] at hvalue
  cases hvalue

/-! ### Conjunctions -/

/-- What holds for comparisons, and for a conjunction if it holds for its parts, holds for all
predicates. (The recursor of the type has a second motive, for lists of predicates.) -/
@[elab_as_elim]
theorem induct {motive : Predicate → Prop}
    (compare : ∀ c field bound, motive (.compare c field bound))
    (allOf : ∀ parts, (∀ p ∈ parts, motive p) → motive (.allOf parts)) : ∀ p, motive p
  | .compare c field bound => compare c field bound
  | .allOf parts => allOf parts fun p _ => induct compare allOf p

theorem conjuncts_allOf (parts : List Predicate) :
    (allOf parts).conjuncts = (parts.map conjuncts).sum := by
  rw [conjuncts]
  induction parts with
  | nil => rfl
  | cons p rest ih => rw [conjunctsAll, ih, List.map_cons, List.sum_cons]

theorem holds_allOf_iff : (allOf parts).holds a ↔ ∀ p ∈ parts, p.holds a := by
  rw [holds]
  induction parts with
  | nil => simp [holdsAll]
  | cons p rest ih => simp [holdsAll, ih]

theorem flatten_allOf (parts : List Predicate) :
    (allOf parts).flatten = parts.flatMap flatten := by
  rw [flatten]
  induction parts with
  | nil => rfl
  | cons p rest ih => rw [flattenAll, ih, List.flatMap_cons]

/-! ### Trees -/

/-- The comparison stands in the predicate, at whatever depth. -/
inductive Has (x : Comparison × Field × Int64) : Predicate → Prop where
  | here : Has x (.compare x.1 x.2.1 x.2.2)
  | part {parts : List Predicate} {p : Predicate} (hp : p ∈ parts) (h : Has x p) :
    Has x (.allOf parts)

theorem has_compare_iff {c : Comparison} {field : Field} {bound : Int64} :
    (compare c field bound).Has x ↔ x = (c, field, bound) := by
  constructor
  · rintro ⟨⟩
    rfl
  · rintro rfl
    exact .here

theorem has_allOf_iff : (allOf parts).Has x ↔ ∃ p ∈ parts, p.Has x := by
  constructor
  · rintro (_ | ⟨hp, h⟩)
    exact ⟨_, hp, h⟩
  · rintro ⟨p, hp, h⟩
    exact .part hp h

/-- The flattening has the comparisons of the predicate and no others. -/
theorem mem_flatten_iff : x ∈ p.flatten ↔ p.Has x := by
  induction p using induct with
  | compare c field bound => rw [flatten, List.mem_singleton, has_compare_iff]
  | allOf parts ih =>
    rw [flatten_allOf, List.mem_flatMap, has_allOf_iff]
    constructor
    · rintro ⟨p, hp, hx⟩
      exact ⟨p, hp, (ih p hp).1 hx⟩
    · rintro ⟨p, hp, hx⟩
      exact ⟨p, hp, (ih p hp).2 hx⟩

theorem conjuncts_eq (p : Predicate) : p.conjuncts = p.flatten.length := by
  induction p using induct with
  | compare c field bound => rfl
  | allOf parts ih =>
    rw [conjuncts_allOf, flatten_allOf, List.length_flatMap]
    exact congrArg List.sum (List.map_congr_left ih)

/-- A predicate holds for the anomalies that meet all its comparisons. -/
theorem holds_iff : p.holds a ↔ ∀ x ∈ p.flatten, Met a x := by
  induction p using induct with
  | compare c field bound => rw [holds_compare_iff, flatten, List.forall_mem_singleton]
  | allOf parts ih =>
    rw [holds_allOf_iff, flatten_allOf]
    constructor
    · intro h x hx
      obtain ⟨p, hp, hxp⟩ := List.mem_flatMap.1 hx
      exact (ih p hp).1 (h p hp) x hxp
    · intro h p hp
      refine (ih p hp).2 fun x hx => ?_
      exact h x (List.mem_flatMap.2 ⟨p, hp, hx⟩)

/-! ### Predicates without a comparison -/

theorem conjuncts_eq_zero_iff : p.conjuncts = 0 ↔ p.flatten = [] := by
  rw [conjuncts_eq, List.length_eq_zero_iff]

theorem flatten_eq_nil_iff : p.flatten = [] ↔ ∀ x, ¬ p.Has x := by
  rw [List.eq_nil_iff_forall_not_mem]
  simp only [mem_flatten_iff]

theorem holds_of_flatten_eq_nil (h : p.flatten = []) (a : Anomaly) : p.holds a := by
  rw [holds_iff, h]
  exact nofun

/-! ### What a predicate says -/

/-- A comparison of the detector spoils the predicate for anomalies without one. -/
theorem not_holds_of_has_detectorId (hdetector : a.detector = none) {c : Comparison}
    {bound : Int64} (h : p.Has (c, .detectorId, bound)) : ¬ p.holds a := by
  intro hholds
  have hmet : Met a (c, .detectorId, bound) := holds_iff.1 hholds _ (mem_flatten_iff.2 h)
  exact not_met_detectorId hdetector c bound hmet

/-- The list of its comparisons from left to right says all that the predicate says. -/
structure Flattens (p : Predicate) : Prop where
  /-- The parts of a conjunction are read one after the other. -/
  parts : ∀ parts, p = .allOf parts → p.flatten = parts.flatMap flatten
  conjuncts : p.conjuncts = p.flatten.length
  mem_iff : ∀ x, x ∈ p.flatten ↔ p.Has x
  holds_iff : ∀ a, p.holds a ↔ ∀ x ∈ p.flatten, Met a x
  /-- An anomaly without a detector meets no comparison of the detector. -/
  absent : ∀ a c bound, a.detector = none →
    ¬ Met a (c, .detectorId, bound) ∧ (p.Has (c, .detectorId, bound) → ¬ p.holds a)

theorem flattens (p : Predicate) : p.Flattens where
  parts parts h := by rw [h, flatten_allOf]
  conjuncts := p.conjuncts_eq
  mem_iff _ := mem_flatten_iff
  holds_iff _ := holds_iff
  absent _ c bound h := ⟨not_met_detectorId h c bound, not_holds_of_has_detectorId h⟩

end Predicate
end Outlier
