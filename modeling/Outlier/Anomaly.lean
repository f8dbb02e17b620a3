import Outlier.Table
import Outlier.Calendar

/-! # Anomalies

An anomaly is a closed interval of time in which a detector saw something unusual. Times are
signed 64-bit milliseconds since the start of 1970, and nothing forces the start to lie before the
end. An anomaly that was stored has a number; a group anomaly, made from others, has none and owns
its children. -/

namespace Outlier

/-- A closed interval `[startTime, endTime]` reported by a detector, or a group of such. -/
structure Anomaly where
  /-- The number in the store; a group that was not stored has none. -/
  id : Option UInt64 := none
  detector : Option Int64 := none
  startTime : Int64
  endTime : Int64
  dimensions : Table String := ∅
  properties : Table String := ∅
  /-- Is the anomaly shown below a group? -/
  isChild : Bool := false
  /-- What a group anomaly is made of. -/
  children : List Anomaly := []

namespace Anomaly

instance : Inhabited Anomaly := ⟨{ startTime := 0, endTime := 0 }⟩

/-- The property that names the component whose detector produced the anomaly. -/
def componentProperty : String := "detectorComponentName"

/-- An anomaly as the store numbers it. -/
def stored (id : UInt64) (detector startTime endTime : Int64) : Anomaly :=
  { id := some id, detector := some detector, startTime, endTime }

/-- An anomaly without number and detector. -/
def synthetic (startTime endTime : Int64) : Anomaly := { startTime, endTime }

/-- The anomaly with one more dimension. -/
def withDimension (a : Anomaly) (key value : String) : Anomaly :=
  { a with dimensions := a.dimensions.insert key value }

/-- The anomaly with one more property. -/
def withProperty (a : Anomaly) (key value : String) : Anomaly :=
  { a with properties := a.properties.insert key value }

/-- The name of the component whose detector produced the anomaly, if it was recorded. -/
def component? (a : Anomaly) : Option String := a.properties.get? componentProperty

/-- Does the anomaly own children? -/
def isGroup (a : Anomaly) : Bool := !a.children.isEmpty

/-- The same anomaly, shown below a group. -/
def asChild (a : Anomaly) : Anomaly := { a with isChild := true }

/-- The start as a calendar moment. -/
def startMoment? (a : Anomaly) : Option Moment := Moment.ofMillis? a.startTime.toInt

/-- The end as a calendar moment. -/
def endMoment? (a : Anomaly) : Option Moment := Moment.ofMillis? a.endTime.toInt

/-- Do the closed intervals share a moment? -/
def overlaps (a b : Anomaly) : Bool := a.startTime ≤ b.endTime && b.startTime ≤ a.endTime

/-- The anomaly in messages. -/
def display (a : Anomaly) : String :=
  (match a.id with
    | some id => s!"anomaly#{id.toNat}"
    | none => "group")
  ++ s!" [{a.startTime.toInt}, {a.endTime.toInt}]"
  ++ (if a.children.isEmpty then "" else s!" ({a.children.length} children)")

/-! ### Equality -/

mutual

/-- Equality of anomalies, children included, can be decided. -/
def decideEq : (a b : Anomaly) → Decidable (a = b)
  | ⟨i, d, s, e, dims, props, c, cs⟩, ⟨i', d', s', e', dims', props', c', cs'⟩ =>
    if h : i = i' ∧ d = d' ∧ s = s' ∧ e = e' ∧ dims = dims' ∧ props = props' ∧ c = c' then
      match decideEqAll cs cs' with
      | isTrue hc => isTrue (by obtain ⟨rfl, rfl, rfl, rfl, rfl, rfl, rfl⟩ := h; rw [hc])
      | isFalse hc => isFalse fun he => hc (by injection he)
    else isFalse fun he => h (by injection he; simp [*])

/-- Equality of lists of anomalies can be decided. -/
def decideEqAll : (a b : List Anomaly) → Decidable (a = b)
  | [], [] => isTrue rfl
  | [], _ :: _ => isFalse nofun
  | _ :: _, [] => isFalse nofun
  | a :: as, b :: bs => match decideEq a b with
    | isTrue h => match decideEqAll as bs with
      | isTrue hs => isTrue (by rw [h, hs])
      | isFalse hs => isFalse fun he => hs (List.cons.inj he).2
    | isFalse h => isFalse fun he => h (List.cons.inj he).1

end

instance : DecidableEq Anomaly := decideEq

/-! ### Size -/

mutual

/-- The number of anomalies in the tree below and including this one. -/
def nodes : Anomaly → Nat
  | ⟨_, _, _, _, _, _, _, cs⟩ => nodesAll cs + 1

/-- The number of anomalies in the trees of a list. -/
def nodesAll : List Anomaly → Nat
  | [] => 0
  | a :: rest => a.nodes + nodesAll rest

end

end Anomaly
end Outlier
