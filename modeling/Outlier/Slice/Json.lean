import Outlier.Slice
import Outlier.Json.Decode

/-! # Slices as JSON

A slice is written as an object with all its fields and read from such an object or from the list of
its fields in declared order. Negative bounds and dimensions without allowed values are kept. -/

namespace Outlier.Slice

/-- How a slice is laid out as a record. -/
def form : RecordForm where
  name := "AnomalySlice"
  fields := ["start", "end", "detector_id", "filters"]
  required := 3

/-- Read one field into the slice; unknown fields are ignored. -/
def readField (key : String) (j : Json) (s : Slice) : Except DecodeError Slice :=
  match key with
  | "start" => (j.toOption Json.toInt64).map ({ s with start := · })
  | "end" => (j.toOption Json.toInt64).map ({ s with stop := · })
  | "detector_id" => (j.toOption Json.toInt64).map ({ s with detector := · })
  | "filters" => (j.toTable Json.toNameSet).map ({ s with filters := · })
  | _ => .ok s

/-- The slice that a JSON value holds. -/
def ofJson (j : Json) : Except DecodeError Slice := form.read readField {} j

/-- The JSON form of a slice. -/
def toJson (s : Slice) : Json :=
  .obj [("detector_id", Json.ofOption Json.ofInt64 s.detector),
    ("end", Json.ofOption Json.ofInt64 s.stop),
    ("filters", Json.ofTable (fun allowed => Json.ofStrings (NameSet.names allowed)) s.filters),
    ("start", Json.ofOption Json.ofInt64 s.start)]

end Outlier.Slice
