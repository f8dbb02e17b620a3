import Outlier.Json
import Outlier.Text.Quoted
import Outlier.Decimal.Shortest

/-! # Reading records from JSON

What can be wrong with a JSON value that should hold one of the library's records, and the readers
of the plain parts of a record. A record is written as an object, whose fields are read in ascending
key order and of which unknown ones are ignored, or as a list of its leading fields in the order in
which the record declares them. The first fault met is the one reported. -/

namespace Outlier

/-- What stood where something else was wanted. -/
inductive Found where
  | null
  | boolean (b : Bool)
  | integer (n : Int)
  | floating (bits : UInt64)
  | string (s : String)
  | sequence
  | map
  | unitVariant
  deriving DecidableEq

/-- What a reader wants. -/
inductive Wanted where
  | int64
  | word
  | size
  | string
  | boolean
  | sequence
  | map
  | record (name : String)
  | stringOrMap
  | tupleVariant
  | newtypeVariant
  | unit
  | tupleVariantOf (name : String)
  deriving DecidableEq

/-- Why a JSON value does not hold the record that was wanted. -/
inductive DecodeError where
  | wrongType (found : Found) (wanted : Wanted)
  | outOfRange (n : Int) (wanted : Wanted)
  | notOneKey
  | missingField (name : String)
  | tooShort (given : Nat) (wanted : Wanted) (size : Nat)
  | tooLong (given : Nat)
  | unknownVariant (name : String) (known : List String)
  deriving DecidableEq

/-- The words for what was found. -/
def Found.words : Found → String
  | null => "null"
  | boolean b => s!"boolean `{b}`"
  | integer n => s!"integer `{n}`"
  | floating bits => "floating point `" ++ Decimal.ofBits bits ++ "`"
  | string s => "string " ++ Text.quoted s
  | sequence => "sequence"
  | map => "map"
  | unitVariant => "unit variant"

/-- The words for what was wanted. -/
def Wanted.words : Wanted → String
  | int64 => "i64"
  | word => "u64"
  | size => "usize"
  | string => "a string"
  | boolean => "a boolean"
  | sequence => "a sequence"
  | map => "a map"
  | record name => s!"struct {name}"
  | stringOrMap => "string or map"
  | tupleVariant => "tuple variant"
  | newtypeVariant => "newtype variant"
  | unit => "unit"
  | tupleVariantOf name => s!"tuple variant {name}"

/-- The message of a fault. -/
def DecodeError.message : DecodeError → String
  | wrongType found wanted => "invalid type: " ++ found.words ++ ", expected " ++ wanted.words
  | outOfRange n wanted => s!"invalid value: integer `{n}`, expected " ++ wanted.words
  | notOneKey => "invalid value: map, expected map with a single key"
  | missingField name => s!"missing field `{name}`"
  | tooShort given wanted size =>
    s!"invalid length {given}, expected " ++ wanted.words
      ++ (if size = 1 then " with 1 element" else s!" with {size} elements")
  | tooLong given => s!"invalid length {given}, expected fewer elements in array"
  | unknownVariant name known =>
    s!"unknown variant `{name}`, expected one of "
      ++ String.intercalate ", " (known.map fun k => s!"`{k}`")

namespace Json

/-- What the value is, as faults name it. -/
def found : Json → Found
  | .null => .null
  | .bool b => .boolean b
  | .int n => .integer n
  | .float bits => .floating bits
  | .str s => .string s
  | .arr _ => .sequence
  | .obj _ => .map

/-- The fault of a value of the wrong kind. -/
def mismatch (j : Json) (wanted : Wanted) : DecodeError := .wrongType j.found wanted

/-- A signed 64-bit number. -/
def toInt64 : Json → Except DecodeError Int64
  | .int n =>
    if Int64.minValue.toInt ≤ n ∧ n ≤ Int64.maxValue.toInt then .ok (Int64.ofInt n)
    else .error (.outOfRange n .int64)
  | j => .error (j.mismatch .int64)

/-- An unsigned 64-bit number, which faults call by the name `wanted`. -/
def toWord (wanted : Wanted) : Json → Except DecodeError UInt64
  | .int n =>
    if 0 ≤ n ∧ n < UInt64.size then .ok (UInt64.ofNat n.toNat) else .error (.outOfRange n wanted)
  | j => .error (j.mismatch wanted)

/-- A truth value. -/
def toBool : Json → Except DecodeError Bool
  | .bool b => .ok b
  | j => .error (j.mismatch .boolean)

/-- A text. -/
def toStr : Json → Except DecodeError String
  | .str s => .ok s
  | j => .error (j.mismatch .string)

/-- A part that may be `null`. -/
def toOption {α : Type} (read : Json → Except DecodeError α) : Json → Except DecodeError (Option α)
  | .null => .ok none
  | j => (read j).map some

/-- Read the items of a list one by one. -/
def decodeItems {α : Type} (read : Json → Except DecodeError α) :
    List Json → Except DecodeError (List α)
  | [] => .ok []
  | j :: rest => do return (← read j) :: (← decodeItems read rest)

/-- A list whose items are read one by one. -/
def toList {α : Type} (read : Json → Except DecodeError α) : Json → Except DecodeError (List α)
  | .arr items => decodeItems read items
  | j => .error (j.mismatch .sequence)

/-- Read the values of an object in key order. -/
def decodeValues {β : Type} (read : Json → Except DecodeError β) :
    List (String × Json) → Except DecodeError (List (String × β))
  | [] => .ok []
  | (key, j) :: rest => do return (key, ← read j) :: (← decodeValues read rest)

/-- A table whose values are read in key order. -/
def toTable {β : Type} (read : Json → Except DecodeError β) : Json → Except DecodeError (Table β)
  | .obj fields => (decodeValues read fields).map Table.ofList
  | j => .error (j.mismatch .map)

/-- A set of names, written as a list. -/
def toNameSet (j : Json) : Except DecodeError NameSet := (j.toList toStr).map NameSet.ofNames

/-! ### What was written is read back -/

theorem toInt64_ofInt64 (n : Int64) : (ofInt64 n).toInt64 = .ok n := by
  simp only [ofInt64, toInt64]
  rw [if_pos ⟨n.minValue_le_toInt, n.toInt_le⟩, Int64.ofInt_toInt]

theorem toWord_ofWord (wanted : Wanted) (n : UInt64) : (ofWord n).toWord wanted = .ok n := by
  have hu : (n.toNat : Int) < UInt64.size := Int.ofNat_lt.2 n.toNat_lt_size
  simp only [ofWord, toWord]
  rw [if_pos ⟨Int.natCast_nonneg _, hu⟩, Int.toNat_natCast, UInt64.ofNat_toNat]

theorem toOption_ofOption {α : Type} {read : Json → Except DecodeError α} {write : α → Json}
    (h : ∀ a, read (write a) = .ok a) (hn : ∀ a, write a ≠ .null) (o : Option α) :
    (ofOption write o).toOption read = .ok o := by
  cases o with
  | none => rfl
  | some a =>
    simp only [ofOption]
    unfold toOption
    split
    next h' => exact absurd h' (hn a)
    next => simp [h, Except.map]

theorem decodeItems_map {α : Type} {read : Json → Except DecodeError α} {write : α → Json}
    (h : ∀ a, read (write a) = .ok a) (l : List α) : decodeItems read (l.map write) = .ok l := by
  induction l with
  | nil => rfl
  | cons a l ih => simp [decodeItems, h, ih, bind, Except.bind, pure, Except.pure]

theorem decodeValues_map {β : Type} {read : Json → Except DecodeError β} {write : β → Json}
    (h : ∀ b, read (write b) = .ok b) (l : List (String × β)) :
    decodeValues read (l.map fun p => (p.1, write p.2)) = .ok l := by
  induction l with
  | nil => rfl
  | cons p l ih => simp [decodeValues, h, ih, bind, Except.bind, pure, Except.pure]

theorem toTable_ofTable {β : Type} {read : Json → Except DecodeError β} {write : β → Json}
    (h : ∀ b, read (write b) = .ok b) (t : Table β) : (ofTable write t).toTable read = .ok t := by
  simp [ofTable, toTable, decodeValues_map h, Except.map]

theorem toNameSet_ofStrings (s : NameSet) : (ofStrings s.names).toNameSet = .ok s := by
  have hs : ∀ name, toStr (str name) = .ok name := fun _ => rfl
  have h := decodeItems_map hs s.names
  simp [ofStrings, toNameSet, toList, h, Except.map]

end Json

/-- The name of a record and its fields in declared order. The first `required` of them cannot be
left out when the record is written as a list. -/
structure RecordForm where
  name : String
  fields : List String
  required : Nat

namespace RecordForm

/-- Has a list the right length for the record? -/
def checkLength (form : RecordForm) (given : Nat) : Except DecodeError Unit :=
  if given < form.required then .error (.tooShort given (.record form.name) form.fields.length)
  else if form.fields.length < given then .error (.tooLong given)
  else .ok ()

/-- Read the fields of a record one after the other into what was read before. -/
def readFields {δ : Type} (step : String → Json → δ → Except DecodeError δ) :
    List (String × Json) → δ → Except DecodeError δ
  | [], d => .ok d
  | (key, j) :: rest, d => step key j d >>= readFields step rest

/-- Read a record: `step` reads a field into the part that was read before. -/
def read {δ : Type} (form : RecordForm) (step : String → Json → δ → Except DecodeError δ)
    (start : δ) : Json → Except DecodeError δ
  | .obj fields => readFields step fields start
  | .arr items => do
    let d ← readFields step (form.fields.zip items) start
    form.checkLength items.length
    return d
  | j => .error (j.mismatch (.record form.name))

end RecordForm

/-- A field that has to be there. -/
def require {α : Type} (name : String) : Option α → Except DecodeError α
  | some a => .ok a
  | none => .error (.missingField name)

end Outlier
