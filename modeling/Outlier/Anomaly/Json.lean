import Outlier.Anomaly
import Outlier.Json.Decode

/-! # Anomalies as JSON

An anomaly is written as an object with all its fields, `children` only when there are some. It is
read from such an object or from the list of its fields in declared order; number and detector may
be `null`, and all fields after the times may be missing. -/

namespace Outlier.Anomaly

/-- How an anomaly is laid out as a record. -/
def form : RecordForm where
  name := "Anomaly"
  fields := ["id", "detector_id", "start_time", "end_time", "dimensions", "properties", "is_child",
    "children"]
  required := 4

/-- The fields of an anomaly that were read so far. -/
structure Draft where
  id : Option UInt64 := none
  detector : Option Int64 := none
  startTime : Option Int64 := none
  endTime : Option Int64 := none
  dimensions : Table String := ∅
  properties : Table String := ∅
  isChild : Bool := false
  children : List Anomaly := []

/-- The anomaly, once both times were read. -/
def Draft.finish (d : Draft) : Except DecodeError Anomaly := do
  let startTime ← require "start_time" d.startTime
  let endTime ← require "end_time" d.endTime
  return { id := d.id, detector := d.detector, startTime, endTime, dimensions := d.dimensions,
           properties := d.properties, isChild := d.isChild, children := d.children }

/-- Read one field that holds no anomalies; unknown fields are ignored. -/
def Draft.readPlain (key : String) (j : Json) (d : Draft) : Except DecodeError Draft :=
  match key with
  | "id" => (j.toOption (Json.toWord .word)).map ({ d with id := · })
  | "detector_id" => (j.toOption Json.toInt64).map ({ d with detector := · })
  | "start_time" => j.toInt64.map ({ d with startTime := some · })
  | "end_time" => j.toInt64.map ({ d with endTime := some · })
  | "dimensions" => (j.toTable Json.toStr).map ({ d with dimensions := · })
  | "properties" => (j.toTable Json.toStr).map ({ d with properties := · })
  | "is_child" => j.toBool.map ({ d with isChild := · })
  | _ => .ok d

mutual

/-- The anomaly that a JSON value holds. -/
def ofJson : Json → Except DecodeError Anomaly
  | .obj fields => do (← readFields fields {}).finish
  | .arr items => do
    let d ← readItems form.fields items {}
    form.checkLength items.length
    d.finish
  | j => .error (j.mismatch (.record form.name))

/-- Read the fields of an object one after the other. -/
def readFields : List (String × Json) → Draft → Except DecodeError Draft
  | [], d => .ok d
  | (key, j) :: rest, d => do readFields rest (← readField key j d)

/-- Read the leading fields from a list of items. -/
def readItems : List String → List Json → Draft → Except DecodeError Draft
  | key :: keys, j :: rest, d => do readItems keys rest (← readField key j d)
  | _, _, d => .ok d

/-- Read one field. -/
def readField (key : String) : Json → Draft → Except DecodeError Draft
  | .arr items, d =>
    if key = "children" then (readChildren items).map ({ d with children := · })
    else d.readPlain key (.arr items)
  | j, d => if key = "children" then .error (j.mismatch .sequence) else d.readPlain key j

/-- Read the children one by one. -/
def readChildren : List Json → Except DecodeError (List Anomaly)
  | [] => .ok []
  | j :: rest => do return (← ofJson j) :: (← readChildren rest)

end

mutual

/-- The JSON form of an anomaly. -/
def toJson : Anomaly → Json
  | ⟨id, detector, startTime, endTime, dimensions, properties, isChild, children⟩ =>
    .obj (childrenField children ++
      [("detector_id", Json.ofOption Json.ofInt64 detector),
       ("dimensions", Json.ofTable Json.str dimensions),
       ("end_time", Json.ofInt64 endTime),
       ("id", Json.ofOption Json.ofWord id),
       ("is_child", .bool isChild),
       ("properties", Json.ofTable Json.str properties),
       ("start_time", Json.ofInt64 startTime)])

/-- The field of the children, which is left out when there are none. -/
def childrenField : List Anomaly → List (String × Json)
  | [] => []
  | a :: rest => [("children", .arr (a.toJson :: toJsonAll rest))]

/-- The JSON forms of a list of anomalies. -/
def toJsonAll : List Anomaly → List Json
  | [] => []
  | a :: rest => a.toJson :: toJsonAll rest

end

end Outlier.Anomaly
