import Outlier.Predicate
import Outlier.Text.Quoted

/-! # Slices

A slice names the anomalies of a range of time, of one detector or of any, whose dimensions have
allowed values. It is both the question put to the store and the key under which the answer is
kept. The store is asked only for range and detector (`toPredicate`); the answer is checked again
with `Slice.admits`. `Slice.contains` says on the keys alone that one slice includes another. -/

namespace Outlier

/-- A range of time, a detector and allowed values of dimensions; what is absent is not
restricted. -/
structure Slice where
  start : Option Int64 := none
  stop : Option Int64 := none
  detector : Option Int64 := none
  /-- Dimensions with their allowed values. -/
  filters : Table NameSet := ∅
  deriving DecidableEq

/-- Why a slice is refused as a query. -/
inductive SliceFault where
  /-- Nothing bounds the search. -/
  | unbounded
  /-- The range ends before it starts. -/
  | inverted (start stop : Int64)
  deriving DecidableEq

/-- The message of a fault. -/
def SliceFault.message : SliceFault → String
  | unbounded => "must provide at least one of start, end, or detectorId"
  | inverted start stop => s!"start {start.toInt} is after end {stop.toInt}"

namespace Slice

instance : Inhabited Slice := ⟨{}⟩

/-! ### Building -/

/-- The number, unless it is negative. -/
def natural? (n : Int64) : Option Int64 := if 0 ≤ n then some n else none

/-- The slice from `n` on; a negative `n` leaves the start open. -/
def withStart (s : Slice) (n : Int64) : Slice := { s with start := natural? n }

/-- The slice up to `n`; a negative `n` leaves the end open. -/
def withStop (s : Slice) (n : Int64) : Slice := { s with stop := natural? n }

/-- The slice of detector `n`; a negative `n` stands for any detector. -/
def withDetector (s : Slice) (n : Int64) : Slice := { s with detector := natural? n }

/-- The slice with one more allowed value of a dimension. -/
def withFilter (s : Slice) (dimension value : String) : Slice :=
  let allowed := (s.filters.get? dimension).getD ∅
  { s with filters := s.filters.insert dimension (allowed.add value) }

/-! ### Asking -/

/-- The fault of the slice as a query, if it has one. -/
def fault? (s : Slice) : Option SliceFault :=
  match s.start, s.stop, s.detector with
  | none, none, none => some .unbounded
  | some start, some stop, _ => if stop < start then some (.inverted start stop) else none
  | _, _, _ => none

/-- One comparison for each bound of the slice. -/
def bounds (s : Slice) : List Predicate :=
  (s.start.map (.compare .atLeast .startTime)).toList
    ++ (s.stop.map (.compare .atMost .endTime)).toList
    ++ (s.detector.map (.compare .equals .detectorId)).toList

/-- What the store is asked for; the dimensions are left to `admits`. -/
def predicate (s : Slice) : Predicate := .allOf s.bounds

/-- What the store is asked for, unless the slice is refused. A predicate without a comparison is
never handed out, not even if `fault?` lets the slice pass. -/
def toPredicate (s : Slice) : Except SliceFault Predicate :=
  match s.fault? with
  | some fault => .error fault
  | none => if s.bounds.isEmpty then .error .unbounded else .ok s.predicate

/-! ### Membership -/

/-- Does the anomaly have an allowed value in every filtered dimension? -/
def admitsDimensions (s : Slice) (a : Anomaly) : Bool :=
  s.filters.entries.all fun (dimension, allowed) => (a.dimensions.get? dimension).any allowed.has

/-- Does the anomaly belong to the slice? -/
def admits (s : Slice) (a : Anomaly) : Bool :=
  s.detector.all (a.detector == some ·) && s.start.all (· ≤ a.startTime)
    && s.stop.all (a.endTime ≤ ·) && s.admitsDimensions a

/-- Does every anomaly of `t` belong to `s` too, as far as the keys tell? -/
def contains (s t : Slice) : Bool :=
  s.detector.all (t.detector == some ·)
    && s.start.all (fun mine => t.start.any (mine ≤ ·))
    && s.stop.all (fun mine => t.stop.any (· ≤ mine))
    && s.filters.entries.all fun (dimension, allowed) =>
      (t.filters.get? dimension).any (·.subset allowed)

/-- The anomalies of the list that belong to the slice, in order. -/
def select (s : Slice) (l : List Anomaly) : List Anomaly := l.filter s.admits

theorem select_select (s : Slice) (l : List Anomaly) : s.select (s.select l) = s.select l := by
  simp [select]

/-! ### Messages -/

/-- A bound in messages. -/
def boundText (b : Option Int64) : String :=
  match b with
  | some n => toString n.toInt
  | none => "*"

/-- A set of names in messages. -/
def setText (s : NameSet) : String :=
  "\x7b" ++ String.intercalate ", " (s.names.map Text.quoted) ++ "\x7d"

/-- The slice in messages. -/
def display (s : Slice) : String :=
  s!"slice[{boundText s.start}, {boundText s.stop}] detector={boundText s.detector}"
  ++ (if s.filters.isEmpty then ""
    else
      let filters := s.filters.entries.map fun (dimension, allowed) =>
        Text.quoted dimension ++ ": " ++ setText allowed
      " filters=\x7b" ++ String.intercalate ", " filters ++ "\x7d")

end Slice
end Outlier
