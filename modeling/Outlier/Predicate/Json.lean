import Outlier.Predicate
import Outlier.Json.Decode

/-! # Predicates as JSON

A predicate is an object with one field: `ge`, `le` or `eq` with a column and a number, or `and`
with a list of predicates. A column is its name, or an object of that one field holding `null`. -/

namespace Outlier

namespace Field

/-- The column of that name. -/
def ofName (name : String) : Except DecodeError Field :=
  match all.find? (·.name == name) with
  | some f => .ok f
  | none => .error (.unknownVariant name (all.map Field.name))

/-- The column that a JSON value names. -/
def ofJson : Json → Except DecodeError Field
  | .str s => ofName s
  | .obj [(key, .null)] => ofName key
  | .obj [(key, j)] => do
    let _ ← ofName key
    .error (j.mismatch .unit)
  | .obj _ => .error .notOneKey
  | j => .error (j.mismatch .stringOrMap)

/-- The JSON form of a column. -/
def toJson (f : Field) : Json := .str f.name

end Field

namespace Comparison

/-- The name of the comparison in JSON. -/
def key : Comparison → String
  | atLeast => "ge"
  | atMost => "le"
  | equals => "eq"

/-- What the comparison is called in faults. -/
def title : Comparison → String
  | atLeast => "Predicate::Ge"
  | atMost => "Predicate::Le"
  | equals => "Predicate::Eq"

/-- Read the column and the number of a comparison. -/
def readParts (c : Comparison) : Json → Except DecodeError Predicate
  | .arr [] => .error (.wrongType .null (.tupleVariantOf c.title))
  | .arr [field] => do
    let _ ← Field.ofJson field
    .error (.tooShort 1 (.tupleVariantOf c.title) 2)
  | .arr (field :: bound :: rest) => do
    let field ← Field.ofJson field
    let bound ← bound.toInt64
    if rest.isEmpty then .ok (.compare c field bound) else .error (.tooLong (rest.length + 2))
  | j => .error (j.mismatch .tupleVariant)

end Comparison

namespace Predicate

/-- The kinds of predicate by their names in JSON; a conjunction has no comparison. -/
def kinds : List (String × Option Comparison) :=
  [("ge", some .atLeast), ("le", some .atMost), ("eq", some .equals), ("and", none)]

/-- The kind of that name. -/
def kindOfName (name : String) : Except DecodeError (Option Comparison) :=
  match kinds.lookup name with
  | some kind => .ok kind
  | none => .error (.unknownVariant name (kinds.map Prod.fst))

mutual

/-- The predicate that a JSON value holds. -/
def ofJson : Json → Except DecodeError Predicate
  | .obj [(key, j)] => do readBody (← kindOfName key) j
  | .obj _ => .error .notOneKey
  | .str s => do
    match ← kindOfName s with
    | some _ => .error (.wrongType .unitVariant .tupleVariant)
    | none => .error (.wrongType .unitVariant .newtypeVariant)
  | j => .error (j.mismatch .stringOrMap)

/-- Read what stands under the name of a kind. -/
def readBody : Option Comparison → Json → Except DecodeError Predicate
  | some c, j => c.readParts j
  | none, .arr parts => (readAll parts).map allOf
  | none, j => .error (j.mismatch .sequence)

/-- Read the parts of a conjunction one by one. -/
def readAll : List Json → Except DecodeError (List Predicate)
  | [] => .ok []
  | j :: rest => do return (← ofJson j) :: (← readAll rest)

end

mutual

/-- The JSON form of a predicate. -/
def toJson : Predicate → Json
  | compare c field bound => .obj [(c.key, .arr [field.toJson, .ofInt64 bound])]
  | allOf parts => .obj [("and", .arr (toJsonAll parts))]

/-- The JSON forms of a list of predicates. -/
def toJsonAll : List Predicate → List Json
  | [] => []
  | p :: rest => p.toJson :: toJsonAll rest

end

end Predicate
end Outlier
