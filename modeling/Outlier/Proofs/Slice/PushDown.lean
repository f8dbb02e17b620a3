import Outlier.Proofs.Slice.Containment

/-! # What the store is asked for

The predicate of a slice compares start, end and detector as the slice restricts them, so that it
leaves out nothing but the dimensions (`admits_iff_holds`). A store may answer it with more than it
was asked for: as long as the answer is a part of what is stored and no anomaly that the predicate
holds for is missing, checking it with the slice gives what the slice selects from the whole store
(`select_eq_of_answer`). -/

namespace Outlier.Slice

variable {s : Slice} {p : Predicate} {f : SliceFault} {a : Anomaly} {stored rows : List Anomaly}

/-! ### When there is a predicate -/

theorem toPredicate_of_valid (h : s.fault? = none) : s.toPredicate = .ok s.predicate := by
  have hbounds : s.bounds.isEmpty = false := by
    rw [List.isEmpty_eq_false_iff]
    exact bounds_ne_nil h
  simp only [toPredicate, h, hbounds, Bool.false_eq_true, if_false]

theorem toPredicate_of_fault (h : s.fault? = some f) : s.toPredicate = .error f := by
  simp only [toPredicate, h]

theorem toPredicate_eq_ok_iff :
    s.toPredicate = .ok p ↔ s.fault? = none ∧ s.predicate = p := by
  cases hf : s.fault? with
  | none => simp [toPredicate_of_valid hf]
  | some f => simp [toPredicate_of_fault hf]

/-- The second look at the bounds finds nothing that `fault?` has not found. -/
theorem toPredicate_eq_error_iff : s.toPredicate = .error f ↔ s.fault? = some f := by
  cases hf : s.fault? with
  | none => simp [toPredicate_of_valid hf]
  | some g => simp [toPredicate_of_fault hf]

/-- For slices that were all checked before, no predicate is missing. -/
theorem mapM_toPredicate {slices : List Slice} (h : ∀ s ∈ slices, s.fault? = none) :
    slices.mapM toPredicate = .ok (slices.map predicate) := by
  induction slices with
  | nil => rfl
  | cons s rest ih =>
    have hs := toPredicate_of_valid (h s List.mem_cons_self)
    have hrest := ih fun t ht => h t (List.mem_cons_of_mem s ht)
    rw [List.mapM_cons, hs, hrest]
    rfl

/-! ### What it leaves out -/

theorem admits_iff_holds : s.admits a ↔ s.predicate.holds a ∧
    ∀ f ∈ s.filters.entries, ∃ v, a.dimensions.get? f.1 = some v ∧ f.2.has v := by
  rw [admits_iff, holds_predicate_iff]
  constructor
  · rintro ⟨hdetector, hstart, hstop, hdimensions⟩
    exact ⟨⟨hstart, hstop, hdetector⟩, hdimensions⟩
  · rintro ⟨⟨hstart, hstop, hdetector⟩, hdimensions⟩
    exact ⟨hdetector, hstart, hstop, hdimensions⟩

/-! ### Checking an answer again -/

/-- Rows that the predicate does not hold for may stand in an answer; checking it again takes them
out, and the rest is there in its order. -/
theorem select_eq_of_answer (hrows : rows.Sublist stored)
    (hkept : (stored.filter s.predicate.holds).Sublist rows) :
    s.select rows = s.select stored := by
  have hle : (rows.filter s.predicate.holds).Sublist (stored.filter s.predicate.holds) :=
    hrows.filter _
  have hge : (stored.filter s.predicate.holds).Sublist (rows.filter s.predicate.holds) := by
    have h := hkept.filter s.predicate.holds
    rwa [List.filter_filter, funext fun a => Bool.and_self _] at h
  have heq : rows.filter s.predicate.holds = stored.filter s.predicate.holds :=
    hle.eq_of_length_le hge.length_le
  calc
    s.select rows = s.select (rows.filter s.predicate.holds) := (s.select_filter_holds rows).symm
    _ = s.select (stored.filter s.predicate.holds) := by rw [heq]
    _ = s.select stored := s.select_filter_holds stored

/-- The predicate asks for the slice: the store does not refuse it, it leaves out nothing but the
dimensions, and an answer to it is enough. -/
structure Asks (s : Slice) (p : Predicate) : Prop where
  conjuncts : 1 ≤ p.conjuncts
  admits_iff : ∀ a, s.admits a ↔ p.holds a ∧
    ∀ f ∈ s.filters.entries, ∃ v, a.dimensions.get? f.1 = some v ∧ f.2.has v
  select_eq : ∀ stored rows : List Anomaly, rows.Sublist stored →
    (stored.filter p.holds).Sublist rows → s.select rows = s.select stored

theorem asks_of_toPredicate (h : s.toPredicate = .ok p) : s.Asks p := by
  obtain ⟨hvalid, rfl⟩ := toPredicate_eq_ok_iff.1 h
  refine ⟨?_, fun a => admits_iff_holds, fun stored rows => select_eq_of_answer⟩
  exact Nat.one_le_iff_ne_zero.2 (conjuncts_predicate_ne_zero hvalid)

end Outlier.Slice
