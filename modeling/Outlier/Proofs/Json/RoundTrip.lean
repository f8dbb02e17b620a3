import Outlier.Anomaly.Json
import Outlier.Predicate.Json
import Outlier.Slice.Json

/-! # Records survive their JSON form

What is written for an anomaly, a slice or a predicate is a JSON value in order (`Json.Valid`), and
reading it gives the record back, whatever it holds (`records_roundTrip`). A record that was read
from some other form of it is therefore the same after it was written and read again. -/

namespace Outlier

namespace Json

/-- Whole numbers are within the signed or the unsigned 64-bit range, and the keys of objects are in
ascending order. -/
inductive Valid : Json → Prop where
  | null : Valid .null
  | bool (b : Bool) : Valid (.bool b)
  | int {n : Int} (hmin : Int64.minValue.toInt ≤ n) (hmax : n < UInt64.size) : Valid (.int n)
  | float (bits : UInt64) : Valid (.float bits)
  | str (s : String) : Valid (.str s)
  | arr {items : List Json} (h : ∀ j ∈ items, Valid j) : Valid (.arr items)
  | obj {fields : List (String × Json)} (hkeys : (fields.map Prod.fst).Pairwise (· < ·))
      (h : ∀ p ∈ fields, Valid p.2) : Valid (.obj fields)

theorem valid_ofInt64 (n : Int64) : (ofInt64 n).Valid :=
  .int n.minValue_le_toInt (Int.lt_of_le_of_lt n.toInt_le (by decide))

theorem valid_ofWord (n : UInt64) : (ofWord n).Valid :=
  .int (Int.le_trans (by decide) (Int.natCast_nonneg _)) (Int.ofNat_lt.2 n.toNat_lt_size)

theorem valid_ofOption {α : Type} {write : α → Json} (h : ∀ a, (write a).Valid) (o : Option α) :
    (ofOption write o).Valid := by
  cases o with
  | none => exact .null
  | some a => exact h a

theorem valid_ofStrings (l : List String) : (ofStrings l).Valid := by
  refine .arr fun j hj => ?_
  obtain ⟨s, -, rfl⟩ := List.mem_map.1 hj
  exact .str s

theorem valid_ofTable {β : Type} {write : β → Json} (h : ∀ b, (write b).Valid) (t : Table β) :
    (ofTable write t).Valid := by
  refine .obj ?_ fun p hp => ?_
  · rw [List.map_map]
    exact List.pairwise_map.2 t.ascending
  · obtain ⟨q, -, rfl⟩ := List.mem_map.1 hp
    exact h q.2

end Json

/-- Every record is written as a JSON value in order and read back from it. -/
structure RoundTrips {α : Type} (write : α → Json) (read : Json → Except DecodeError α) :
    Prop where
  valid : ∀ a, (write a).Valid
  read_write : ∀ a, read (write a) = .ok a
  /-- A record that was read, from whatever form, is read again from what is written for it. -/
  again : ∀ j a, read j = .ok a → read (write a) = read j

theorem RoundTrips.of_read_write {α : Type} {write : α → Json} {read : Json → Except DecodeError α}
    (hvalid : ∀ a, (write a).Valid) (h : ∀ a, read (write a) = .ok a) : RoundTrips write read :=
  ⟨hvalid, h, fun _ a hj => (h a).trans hj.symm⟩

/-! ### Slices -/

namespace Slice

theorem toOption_ofOption_int64 (o : Option Int64) :
    (Json.ofOption Json.ofInt64 o).toOption Json.toInt64 = .ok o :=
  Json.toOption_ofOption Json.toInt64_ofInt64 nofun o

theorem ofJson_toJson (s : Slice) : ofJson s.toJson = .ok s := by
  have hfilters : (Json.ofTable (fun allowed => Json.ofStrings (NameSet.names allowed))
      s.filters).toTable Json.toNameSet = .ok s.filters :=
    Json.toTable_ofTable Json.toNameSet_ofStrings s.filters
  simp only [ofJson, toJson, RecordForm.read, RecordForm.readFields, readField,
    toOption_ofOption_int64, hfilters, Except.map, bind, Except.bind]

theorem ofJson_listed (s : Slice) :
    ofJson (.arr (form.fields.filterMap s.toJson.get?)) = .ok s := by
  have hfilters : (Json.ofTable (fun allowed => Json.ofStrings (NameSet.names allowed))
      s.filters).toTable Json.toNameSet = .ok s.filters :=
    Json.toTable_ofTable Json.toNameSet_ofStrings s.filters
  have hitems : form.fields.zip (form.fields.filterMap s.toJson.get?) =
      [("start", Json.ofOption Json.ofInt64 s.start), ("end", Json.ofOption Json.ofInt64 s.stop),
        ("detector_id", Json.ofOption Json.ofInt64 s.detector),
        ("filters",
          Json.ofTable (fun allowed => Json.ofStrings (NameSet.names allowed)) s.filters)] := rfl
  have hlength : form.checkLength (form.fields.filterMap s.toJson.get?).length = .ok () := rfl
  simp only [ofJson, RecordForm.read, hitems, hlength, RecordForm.readFields, readField,
    toOption_ofOption_int64, hfilters, Except.map, bind, Except.bind, pure, Except.pure]

theorem valid_toJson (s : Slice) : s.toJson.Valid := by
  have hkeys : ["detector_id", "end", "filters", "start"].Pairwise (· < ·) := by decide
  have hnumber := Json.valid_ofOption Json.valid_ofInt64
  refine .obj hkeys ?_
  simp only [List.forall_mem_cons]
  exact ⟨hnumber _, hnumber _, Json.valid_ofTable (fun _ => Json.valid_ofStrings _) _, hnumber _,
    nofun⟩

end Slice

/-! ### Predicates -/

namespace Field

theorem ofJson_toJson (f : Field) : ofJson f.toJson = .ok f := by
  cases f <;> rfl

end Field

namespace Predicate

theorem readBody_compare (c : Comparison) (f : Field) (n : Int64) :
    readBody (some c) (.arr [f.toJson, .ofInt64 n]) = .ok (.compare c f n) := by
  simp only [readBody, Comparison.readParts, f.ofJson_toJson, Json.toInt64_ofInt64, bind,
    Except.bind, List.isEmpty_nil, if_true]

theorem kindOfName_key (c : Comparison) : kindOfName c.key = .ok (some c) := by
  cases c <;> rfl

mutual

theorem ofJson_toJson : ∀ p : Predicate, ofJson p.toJson = .ok p
  | compare c f n => by
    simp only [toJson, ofJson, kindOfName_key, bind, Except.bind, readBody_compare]
  | allOf parts => by
    have hkind : kindOfName "and" = .ok none := rfl
    simp only [toJson, ofJson, hkind, bind, Except.bind, readBody, readAll_toJsonAll parts,
      Except.map]

theorem readAll_toJsonAll : ∀ l : List Predicate, readAll (toJsonAll l) = .ok l
  | [] => rfl
  | p :: rest => by
    simp only [toJsonAll, readAll, ofJson_toJson p, readAll_toJsonAll rest, bind, Except.bind,
      pure, Except.pure]

end

mutual

theorem valid_toJson : ∀ p : Predicate, p.toJson.Valid
  | compare c f n => by
    refine .obj (List.pairwise_singleton ..) (List.forall_mem_singleton.2 (.arr ?_))
    exact List.forall_mem_cons.2 ⟨.str _, List.forall_mem_singleton.2 (Json.valid_ofInt64 n)⟩
  | allOf parts => by
    refine .obj (List.pairwise_singleton ..) (List.forall_mem_singleton.2 (.arr ?_))
    exact valid_toJsonAll parts

theorem valid_toJsonAll : ∀ l : List Predicate, ∀ j ∈ toJsonAll l, j.Valid
  | [] => nofun
  | p :: rest => List.forall_mem_cons.2 ⟨valid_toJson p, valid_toJsonAll rest⟩

end

end Predicate

/-! ### Anomalies -/

namespace Anomaly

theorem readField_of_ne {key : String} (h : key ≠ "children") (j : Json) (d : Draft) :
    readField key j d = d.readPlain key j := by
  cases j <;> simp only [readField, if_neg h]

theorem readFields_plain {l : List (String × Json)} (h : ∀ p ∈ l, p.1 ≠ "children") (d : Draft) :
    readFields l d = RecordForm.readFields Draft.readPlain l d := by
  induction l generalizing d with
  | nil => rfl
  | cons p l ih =>
    obtain ⟨key, j⟩ := p
    obtain ⟨hkey, hl⟩ := List.forall_mem_cons.1 h
    simp only [readFields, readField_of_ne hkey, RecordForm.readFields]
    cases d.readPlain key j with
    | error e => rfl
    | ok d => exact ih hl d

theorem readFields_append (l rest : List (String × Json)) (d : Draft) :
    readFields (l ++ rest) d = readFields l d >>= readFields rest := by
  induction l generalizing d with
  | nil => rfl
  | cons p l ih =>
    obtain ⟨key, j⟩ := p
    simp only [List.cons_append, readFields]
    cases readField key j d with
    | error e => rfl
    | ok d => exact ih d

theorem readItems_eq (keys : List String) (items : List Json) (d : Draft) :
    readItems keys items d = readFields (keys.zip items) d := by
  induction keys generalizing items d with
  | nil => cases items <;> rfl
  | cons key keys ih =>
    cases items with
    | nil => rfl
    | cons j items =>
      simp only [readItems, readFields, List.zip_cons_cons]
      cases readField key j d with
      | error e => rfl
      | ok d => exact ih items d

/-- Children that are read back from a list are read back from their field. -/
theorem readFields_childrenField {cs : List Anomaly} (h : readChildren (toJsonAll cs) = .ok cs)
    {d : Draft} (hd : d.children = []) :
    readFields (childrenField cs) d = .ok { d with children := cs } := by
  cases cs with
  | nil =>
    obtain ⟨_, _, _, _, _, _, _, _⟩ := d
    obtain rfl := hd
    rfl
  | cons a rest =>
    rw [toJsonAll] at h
    simp only [childrenField, readFields, readField, if_true, h, Except.map, bind, Except.bind]

section

variable (id : Option UInt64) (detector : Option Int64) (startTime endTime : Int64)
  (dimensions properties : Table String) (isChild : Bool)

theorem toOption_ofOption_id :
    (Json.ofOption Json.ofWord id).toOption (Json.toWord .word) = .ok id :=
  Json.toOption_ofOption (Json.toWord_ofWord .word) nofun id

theorem toOption_ofOption_detector :
    (Json.ofOption Json.ofInt64 detector).toOption Json.toInt64 = .ok detector :=
  Json.toOption_ofOption Json.toInt64_ofInt64 nofun detector

theorem toTable_ofTable_str :
    (Json.ofTable Json.str dimensions).toTable Json.toStr = .ok dimensions := by
  have hread : ∀ text, Json.toStr (.str text) = .ok text := fun _ => rfl
  exact Json.toTable_ofTable hread dimensions

theorem readFields_keyed (d : Draft) :
    readFields
      [("detector_id", Json.ofOption Json.ofInt64 detector),
        ("dimensions", Json.ofTable Json.str dimensions), ("end_time", Json.ofInt64 endTime),
        ("id", Json.ofOption Json.ofWord id), ("is_child", .bool isChild),
        ("properties", Json.ofTable Json.str properties), ("start_time", Json.ofInt64 startTime)]
      d =
      .ok ⟨id, detector, some startTime, some endTime, dimensions, properties, isChild,
        d.children⟩ := by
  rw [readFields_plain (by simp)]
  simp only [RecordForm.readFields, Draft.readPlain, toOption_ofOption_id,
    toOption_ofOption_detector, toTable_ofTable_str, Json.toInt64_ofInt64, Json.toBool, Except.map,
    bind, Except.bind]

theorem readFields_declared (d : Draft) :
    readFields
      [("id", Json.ofOption Json.ofWord id), ("detector_id", Json.ofOption Json.ofInt64 detector),
        ("start_time", Json.ofInt64 startTime), ("end_time", Json.ofInt64 endTime),
        ("dimensions", Json.ofTable Json.str dimensions),
        ("properties", Json.ofTable Json.str properties), ("is_child", .bool isChild)]
      d =
      .ok ⟨id, detector, some startTime, some endTime, dimensions, properties, isChild,
        d.children⟩ := by
  rw [readFields_plain (by simp)]
  simp only [RecordForm.readFields, Draft.readPlain, toOption_ofOption_id,
    toOption_ofOption_detector, toTable_ofTable_str, Json.toInt64_ofInt64, Json.toBool, Except.map,
    bind, Except.bind]

end

mutual

theorem ofJson_toJson : ∀ a : Anomaly, ofJson a.toJson = .ok a
  | ⟨id, detector, startTime, endTime, dimensions, properties, isChild, children⟩ => by
    have hchildren : readFields (childrenField children) {} = .ok { children } :=
      readFields_childrenField (readChildren_toJsonAll children) rfl
    simp only [toJson, ofJson, readFields_append, hchildren, bind, Except.bind, readFields_keyed]
    rfl

theorem readChildren_toJsonAll : ∀ l : List Anomaly, readChildren (toJsonAll l) = .ok l
  | [] => rfl
  | a :: rest => by
    simp only [toJsonAll, readChildren, ofJson_toJson a, readChildren_toJsonAll rest, bind,
      Except.bind, pure, Except.pure]

end

theorem toJsonAll_eq_map (l : List Anomaly) : toJsonAll l = l.map toJson := by
  induction l with
  | nil => rfl
  | cons a rest ih => rw [toJsonAll, ih, List.map_cons]

theorem get?_children (a : Anomaly) :
    a.toJson.get? "children" =
      if a.children = [] then none else some (.arr (a.children.map toJson)) := by
  obtain ⟨_, _, _, _, _, _, _, children⟩ := a
  cases children with
  | nil => rfl
  | cons a rest =>
    rw [if_neg (List.cons_ne_nil a rest), ← toJsonAll_eq_map]
    rfl

/-- The values of the fields in declared order are another form of the anomaly. -/
theorem ofJson_listed (a : Anomaly) :
    ofJson (.arr (form.fields.filterMap a.toJson.get?)) = .ok a := by
  obtain ⟨id, detector, startTime, endTime, dimensions, properties, isChild, children⟩ := a
  let other : List (String × Json) :=
    [("id", Json.ofOption Json.ofWord id), ("detector_id", Json.ofOption Json.ofInt64 detector),
      ("start_time", Json.ofInt64 startTime), ("end_time", Json.ofInt64 endTime),
      ("dimensions", Json.ofTable Json.str dimensions),
      ("properties", Json.ofTable Json.str properties), ("is_child", .bool isChild)]
  have hitems : form.fields.filterMap (toJson ⟨id, detector, startTime, endTime, dimensions,
      properties, isChild, children⟩).get? = (other ++ childrenField children).map Prod.snd := by
    cases children <;> rfl
  have hzip : form.fields.zip ((other ++ childrenField children).map Prod.snd) =
      other ++ childrenField children := by
    cases children <;> rfl
  have hlength : form.checkLength ((other ++ childrenField children).map Prod.snd).length =
      .ok () := by
    cases children <;> rfl
  have hother : readFields other {} = .ok _ :=
    readFields_declared id detector startTime endTime dimensions properties isChild {}
  have hall : readFields (other ++ childrenField children) {} =
      .ok ⟨id, detector, some startTime, some endTime, dimensions, properties, isChild,
        children⟩ := by
    rw [readFields_append, hother]
    exact readFields_childrenField (readChildren_toJsonAll children) rfl
  simp only [hitems, ofJson, readItems_eq, hzip, hall, hlength, bind, Except.bind]
  rfl

mutual

theorem valid_toJson : ∀ a : Anomaly, a.toJson.Valid
  | ⟨id, detector, startTime, endTime, dimensions, properties, isChild, children⟩ => by
    have hkeys : ["children", "detector_id", "dimensions", "end_time", "id", "is_child",
        "properties", "start_time"].Pairwise (· < ·) := by decide
    have hchildren : ∀ p ∈ childrenField children, p.2.Valid := by
      cases children with
      | nil => exact nofun
      | cons a rest =>
        refine List.forall_mem_singleton.2 (.arr ?_)
        exact valid_toJsonAll (a :: rest)
    have htable : ∀ t : Table String, (Json.ofTable Json.str t).Valid := Json.valid_ofTable .str
    rw [toJson]
    refine .obj ?_ (List.forall_mem_append.2 ⟨hchildren, ?_⟩)
    · cases children with
      | nil => exact hkeys.tail
      | cons a rest => exact hkeys
    · simp only [List.forall_mem_cons]
      exact ⟨Json.valid_ofOption Json.valid_ofInt64 _, htable _, Json.valid_ofInt64 _,
        Json.valid_ofOption Json.valid_ofWord _, .bool _, htable _, Json.valid_ofInt64 _, nofun⟩

theorem valid_toJsonAll : ∀ l : List Anomaly, ∀ j ∈ toJsonAll l, j.Valid
  | [] => nofun
  | a :: rest => List.forall_mem_cons.2 ⟨valid_toJson a, valid_toJsonAll rest⟩

end

end Anomaly

/-- **Core records survive their JSON form.** Every anomaly, slice and predicate is read back from
what is written for it, and so is one that was read from any other JSON value. Of an anomaly, the
children are written if there are any; anomalies and slices can also be read from the list of the
values that are written for them. -/
theorem records_roundTrip :
    RoundTrips Anomaly.toJson Anomaly.ofJson ∧ RoundTrips Slice.toJson Slice.ofJson ∧
      RoundTrips Predicate.toJson Predicate.ofJson ∧
      (∀ a : Anomaly, a.toJson.get? "children" =
        if a.children = [] then none else some (.arr (a.children.map Anomaly.toJson))) ∧
      (∀ a : Anomaly,
        Anomaly.ofJson (.arr (Anomaly.form.fields.filterMap a.toJson.get?)) = .ok a) ∧
      ∀ s : Slice, Slice.ofJson (.arr (Slice.form.fields.filterMap s.toJson.get?)) = .ok s :=
  ⟨.of_read_write Anomaly.valid_toJson Anomaly.ofJson_toJson,
    .of_read_write Slice.valid_toJson Slice.ofJson_toJson,
    .of_read_write Predicate.valid_toJson Predicate.ofJson_toJson,
    Anomaly.get?_children, Anomaly.ofJson_listed, Slice.ofJson_listed⟩

/-- What is left out of an anomaly is empty. -/
example :
    Anomaly.ofJson (.obj [("detector_id", .int 9), ("end_time", .int 2), ("id", .int 3),
      ("start_time", .int 1)]) = .ok (.stored 3 9 1 2) := rfl

end Outlier
