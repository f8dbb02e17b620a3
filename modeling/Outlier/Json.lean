import Outlier.Table

/-! # JSON values

A JSON value keeps whole numbers apart from other numbers: `Json.int` holds what was written as a
whole number within the signed or unsigned 64-bit range, `Json.float` the bits of the double for
every other number. The fields of an object stand in ascending key order, one per key;
`Json.object` builds such an object from any list of fields. -/

namespace Outlier

/-- A JSON value. -/
inductive Json where
  | null
  | bool (b : Bool)
  | int (n : Int)
  | float (bits : UInt64)
  | str (s : String)
  | arr (items : List Json)
  | obj (fields : List (String × Json))
  deriving Inhabited

namespace Json

/-- The object with the given fields; the last field of a key counts. -/
def object (fields : List (String × Json)) : Json := .obj (Table.ofList fields).entries

/-- A field of a record that is left out when there is nothing to write. -/
def field? (key : String) (value : Option Json) : List (String × Json) :=
  match value with
  | some j => [(key, j)]
  | none => []

/-- The value, or `null` when there is none. -/
def ofOption {α : Type} (write : α → Json) : Option α → Json
  | some a => write a
  | none => .null

/-- A signed number. -/
def ofInt64 (n : Int64) : Json := .int n.toInt

/-- An unsigned number. -/
def ofWord (n : UInt64) : Json := .int n.toNat

/-- A count. -/
def ofNat (n : Nat) : Json := .int n

/-- The texts of a list. -/
def ofStrings (l : List String) : Json := .arr (l.map .str)

/-- The object that holds a table, with each value written by `write`. -/
def ofTable {β : Type} (write : β → Json) (t : Table β) : Json :=
  .obj (t.entries.map fun p => (p.1, write p.2))

/-- The value of a field of an object. -/
def get? (j : Json) (key : String) : Option Json :=
  match j with
  | .obj fields => fields.lookup key
  | _ => none

end Json
end Outlier
