import Outlier.Slice

/-! # Stores behind a cache

A store answers predicates with anomalies. `MemoryStore` holds a growing list of them, answers
every predicate that has a comparison, and counts its answers. `Backend` is a store as its clients
meet it: each call behaves as a script says, by the number of the call and its predicate, and is
noted. -/

namespace Outlier

/-- Why a store did not answer. -/
inductive StoreError where
  | unavailable (text : String)
  | rejected (text : String)
  | other (text : String)
  deriving DecidableEq

/-- The message of a store error. -/
def StoreError.message : StoreError → String
  | unavailable text => s!"store unavailable: {text}"
  | rejected text => s!"query rejected: {text}"
  | other text => text

/-- Anomalies in the order in which they came, and the number of predicates answered. -/
structure MemoryStore where
  anomalies : List Anomaly := []
  queries : Nat := 0

namespace MemoryStore

/-- Add anomalies at the end. -/
def extend (m : MemoryStore) (l : List Anomaly) : MemoryStore :=
  { m with anomalies := m.anomalies ++ l }

/-- The anomalies for which the predicate holds, in order. A predicate without a comparison is
refused and not counted. -/
def find (m : MemoryStore) (p : Predicate) : Except StoreError (List Anomaly) × MemoryStore :=
  if p.conjuncts = 0 then (.error (.rejected "empty predicate"), m)
  else (.ok (m.anomalies.filter p.holds), { m with queries := m.queries + 1 })

@[simp] theorem anomalies_find (m : MemoryStore) (p : Predicate) :
    (m.find p).2.anomalies = m.anomalies := by
  unfold find
  split <;> rfl

end MemoryStore

/-- How a store call goes. -/
inductive Behaviour where
  /-- The memory store answers. -/
  | obey
  /-- The call fails. -/
  | fail (e : StoreError)
  /-- The call breaks down without an answer. -/
  | crash
  /-- The call returns every stored anomaly, whatever was asked for. -/
  | everything
  /-- The call waits until it is released; then the memory store answers. -/
  | hang

/-- A rule of a script: calls that ask for this detector go this way. -/
structure Rule where
  detector : Option Int64
  behaviour : Behaviour

/-- How a call goes by the first rule for the detector it asks for; without one the store answers.
-/
def Rule.behaviour? (rules : List Rule) (p : Predicate) : Behaviour :=
  match rules.find? (·.detector == p.detector?) with
  | some r => r.behaviour
  | none => .obey

/-- What a store call comes to. -/
inductive Outcome where
  | rows (l : List Anomaly)
  | failed (e : StoreError)
  | crashed
  | hanging

/-- A store with a clock in milliseconds and a script for its calls. -/
structure Backend where
  memory : MemoryStore
  clock : Nat := 0
  /-- How a call goes, by its number and its predicate. -/
  script : Nat → Predicate → Behaviour := fun _ _ => .obey
  /-- The predicates of the calls made so far, in order. -/
  asked : List Predicate := []

namespace Backend

/-- What the memory store says. -/
def ask (b : Backend) (p : Predicate) : Outcome × Backend :=
  match b.memory.find p with
  | (.ok l, memory) => (.rows l, { b with memory })
  | (.error e, memory) => (.failed e, { b with memory })

/-- Make a call. With the gate open, a call that would hang passes through. -/
def call (b : Backend) (p : Predicate) (isOpen : Bool) : Outcome × Backend :=
  let noted : Backend := { b with asked := b.asked ++ [p] }
  match b.script b.asked.length p with
  | .obey => noted.ask p
  | .fail e => (.failed e, noted)
  | .crash => (.crashed, noted)
  | .everything => (.rows b.memory.anomalies, noted)
  | .hang => if isOpen then noted.ask p else (.hanging, noted)

/-- Let time pass. -/
def advance (b : Backend) (millis : Nat) : Backend := { b with clock := b.clock + millis }

/-! ### What a call changes

A call is noted and may be counted; it takes no time and leaves the stored anomalies and the script
alone. -/

@[simp] theorem asked_ask (b : Backend) (p : Predicate) : (b.ask p).2.asked = b.asked := by
  unfold ask
  split <;> rfl

@[simp] theorem clock_ask (b : Backend) (p : Predicate) : (b.ask p).2.clock = b.clock := by
  unfold ask
  split <;> rfl

@[simp] theorem anomalies_ask (b : Backend) (p : Predicate) :
    (b.ask p).2.memory.anomalies = b.memory.anomalies := by
  have h := b.memory.anomalies_find p
  unfold ask
  split <;> simp_all

@[simp] theorem script_ask (b : Backend) (p : Predicate) : (b.ask p).2.script = b.script := by
  unfold ask
  split <;> rfl

@[simp] theorem asked_call (b : Backend) (p : Predicate) (isOpen : Bool) :
    (b.call p isOpen).2.asked = b.asked ++ [p] := by
  unfold call
  split
  case h_1 => exact asked_ask ..
  case h_5 => split <;> simp
  all_goals rfl

@[simp] theorem clock_call (b : Backend) (p : Predicate) (isOpen : Bool) :
    (b.call p isOpen).2.clock = b.clock := by
  unfold call
  split
  case h_1 => exact clock_ask ..
  case h_5 => split <;> simp
  all_goals rfl

@[simp] theorem anomalies_call (b : Backend) (p : Predicate) (isOpen : Bool) :
    (b.call p isOpen).2.memory.anomalies = b.memory.anomalies := by
  unfold call
  split
  case h_1 => exact anomalies_ask ..
  case h_5 => split <;> simp
  all_goals rfl

@[simp] theorem script_call (b : Backend) (p : Predicate) (isOpen : Bool) :
    (b.call p isOpen).2.script = b.script := by
  unfold call
  split
  case h_1 => exact script_ask ..
  case h_5 => split <;> simp
  all_goals rfl

end Backend
end Outlier
