import Outlier.Anomaly

/-! # Predicates over anomalies

What a store can be asked for: comparisons of an indexed column with a number, and conjunctions of
such. A comparison with a missing detector never holds. `flatten` lists the comparisons of a
predicate from left to right. -/

namespace Outlier

/-- A column of the store that a predicate may compare. -/
inductive Field where
  | startTime
  | endTime
  | detectorId
  deriving DecidableEq

namespace Field

/-- The name of the column. -/
def name : Field → String
  | startTime => "startTime"
  | endTime => "endTime"
  | detectorId => "detectorId"

/-- The columns in declared order. -/
def all : List Field := [startTime, endTime, detectorId]

/-- The value of the column in an anomaly. -/
def value? (f : Field) (a : Anomaly) : Option Int64 :=
  match f with
  | startTime => some a.startTime
  | endTime => some a.endTime
  | detectorId => a.detector

end Field

/-- How a column is compared with a number. -/
inductive Comparison where
  | atLeast
  | atMost
  | equals
  deriving DecidableEq

namespace Comparison

/-- Does the comparison of `value` with `bound` come out true? -/
def test (c : Comparison) (value bound : Int64) : Bool :=
  match c with
  | atLeast => bound ≤ value
  | atMost => value ≤ bound
  | equals => value = bound

/-- The sign of the comparison. -/
def sign : Comparison → String
  | atLeast => ">="
  | atMost => "<="
  | equals => "="

end Comparison

/-- A comparison of a column with a number, or the conjunction of a list of predicates. -/
inductive Predicate where
  | compare (c : Comparison) (field : Field) (bound : Int64)
  | allOf (parts : List Predicate)

namespace Predicate

mutual

/-- The number of comparisons in the predicate. -/
def conjuncts : Predicate → Nat
  | compare .. => 1
  | allOf parts => conjunctsAll parts

/-- The number of comparisons in a list of predicates. -/
def conjunctsAll : List Predicate → Nat
  | [] => 0
  | p :: rest => p.conjuncts + conjunctsAll rest

end

mutual

/-- Does the predicate hold for the anomaly? -/
def holds (a : Anomaly) : Predicate → Bool
  | compare c field bound => (field.value? a).any (c.test · bound)
  | allOf parts => holdsAll a parts

/-- Do all predicates of the list hold for the anomaly? -/
def holdsAll (a : Anomaly) : List Predicate → Bool
  | [] => true
  | p :: rest => holds a p && holdsAll a rest

end

mutual

/-- The comparisons of the predicate from left to right. -/
def flatten : Predicate → List (Comparison × Field × Int64)
  | compare c field bound => [(c, field, bound)]
  | allOf parts => flattenAll parts

/-- The comparisons of a list of predicates from left to right. -/
def flattenAll : List Predicate → List (Comparison × Field × Int64)
  | [] => []
  | p :: rest => p.flatten ++ flattenAll rest

end

mutual

/-- The predicate in messages. -/
def display : Predicate → String
  | compare c field bound => s!"{field.name} {c.sign} {bound.toInt}"
  | allOf parts => "(" ++ String.intercalate " AND " (displayAll parts) ++ ")"

/-- The predicates of a list in messages. -/
def displayAll : List Predicate → List String
  | [] => []
  | p :: rest => p.display :: displayAll rest

end

/-- The value that a comparison wants the detector to have, if it is one of that kind. -/
def wantedDetector? : Predicate → Option Int64
  | compare .equals .detectorId n => some n
  | _ => none

/-- The detector that a predicate asks for: that of the first comparison of that kind among the
parts of an outermost conjunction, or of the predicate itself. -/
def detector? : Predicate → Option Int64
  | allOf parts => parts.findSome? wantedDetector?
  | p => p.wantedDetector?

end Predicate
end Outlier
