import Outlier.Proofs.Predicate.Flattening
import Outlier.Slice

/-! # Selecting through a containing slice

A slice is a filter, and the two other forms in which it filters agree with it as far as answers
are concerned: the predicate that goes to the store lets every anomaly of the slice through
(`holds_predicate_of_admits`), and so does a slice that contains it (`admits_of_contains`). What a
slice selects from a list is therefore what it selects from the store's answer
(`select_filter_holds`) or from the anomalies of a containing slice (`select_of_contains`), order
and repeats included. -/

namespace Outlier

/-! ### Tables as sets of entries -/

namespace Table

universe u

variable {β : Type u}

theorem mem_entries_of_get? {t : Table β} {key : String} {value : β}
    (h : t.get? key = some value) : (key, value) ∈ t.entries := by
  obtain ⟨l, l', he, -⟩ := List.lookup_eq_some_iff.1 h
  rw [he]
  exact List.mem_append_right _ (List.mem_cons_self ..)

end Table

namespace NameSet

theorem has_iff {s : NameSet} {name : String} : s.has name ↔ name ∈ s.names := by
  constructor
  · intro h
    obtain ⟨u, hu⟩ := Option.isSome_iff_exists.1 h
    exact List.mem_map.2 ⟨(name, u), Table.mem_entries_of_get? hu, rfl⟩
  · intro h
    obtain ⟨p, hp, rfl⟩ := List.mem_map.1 h
    rw [has, Option.isSome_iff_ne_none]
    intro hn
    simpa using List.lookup_eq_none_iff.1 hn p hp

theorem has_of_subset {s t : NameSet} {name : String} (h : s.subset t) (hs : s.has name) :
    t.has name :=
  List.all_eq_true.1 h name (has_iff.1 hs)

end NameSet

/-! ### Membership, restriction by restriction -/

namespace Slice

variable {s t : Slice} {a : Anomaly}

theorem admits_iff : s.admits a ↔
    (∀ d, s.detector = some d → a.detector = some d) ∧
    (∀ n, s.start = some n → n ≤ a.startTime) ∧
    (∀ n, s.stop = some n → a.endTime ≤ n) ∧
    ∀ p ∈ s.filters.entries, ∃ v, a.dimensions.get? p.1 = some v ∧ p.2.has v := by
  simp only [admits, admitsDimensions, Bool.and_eq_true, Option.all_eq_true, List.all_eq_true,
    Option.any_eq_true, beq_iff_eq, decide_eq_true_eq, and_assoc]

theorem contains_iff : s.contains t ↔
    (∀ d, s.detector = some d → t.detector = some d) ∧
    (∀ n, s.start = some n → ∃ m, t.start = some m ∧ n ≤ m) ∧
    (∀ n, s.stop = some n → ∃ m, t.stop = some m ∧ m ≤ n) ∧
    ∀ p ∈ s.filters.entries, ∃ q, t.filters.get? p.1 = some q ∧ q.subset p.2 := by
  simp only [contains, Bool.and_eq_true, Option.all_eq_true, List.all_eq_true, Option.any_eq_true,
    beq_iff_eq, decide_eq_true_eq, and_assoc]

theorem admits_of_contains (h : s.contains t) (ha : t.admits a) : s.admits a := by
  obtain ⟨hd, hb, he, hf⟩ := contains_iff.1 h
  obtain ⟨td, tb, te, tf⟩ := admits_iff.1 ha
  refine admits_iff.2 ⟨fun d e => td d (hd d e), fun n e => ?_, fun n e => ?_, fun p hp => ?_⟩
  · obtain ⟨m, hm, hle⟩ := hb n e
    exact Int64.le_trans hle (tb m hm)
  · obtain ⟨m, hm, hle⟩ := he n e
    exact Int64.le_trans (te m hm) hle
  · obtain ⟨q, hq, hsub⟩ := hf p hp
    obtain ⟨v, hv, hhas⟩ := tf (p.1, q) (Table.mem_entries_of_get? hq)
    exact ⟨v, hv, NameSet.has_of_subset hsub hhas⟩

theorem contains_trans {u : Slice} (h : s.contains t) (k : t.contains u) : s.contains u := by
  obtain ⟨hd, hb, he, hf⟩ := contains_iff.1 h
  obtain ⟨kd, kb, ke, kf⟩ := contains_iff.1 k
  refine contains_iff.2 ⟨fun d e => kd d (hd d e), fun n e => ?_, fun n e => ?_, fun p hp => ?_⟩
  · obtain ⟨m, hm, hle⟩ := hb n e
    obtain ⟨l, hl, hle'⟩ := kb m hm
    exact ⟨l, hl, Int64.le_trans hle hle'⟩
  · obtain ⟨m, hm, hle⟩ := he n e
    obtain ⟨l, hl, hle'⟩ := ke m hm
    exact ⟨l, hl, Int64.le_trans hle' hle⟩
  · obtain ⟨q, hq, hsub⟩ := hf p hp
    obtain ⟨q', hq', hsub'⟩ := kf (p.1, q) (Table.mem_entries_of_get? hq)
    refine ⟨q', hq', List.all_eq_true.2 fun name hname => ?_⟩
    exact NameSet.has_of_subset hsub (NameSet.has_of_subset hsub' (NameSet.has_iff.2 hname))

/-- Going through a containing slice first loses nothing and keeps the order. -/
theorem select_of_contains (h : s.contains t) (l : List Anomaly) :
    t.select (s.select l) = t.select l := by
  unfold select
  rw [List.filter_filter]
  refine List.filter_congr fun a _ => ?_
  by_cases ha : t.admits a = true
  · simp [ha, admits_of_contains h ha]
  · simp [ha]

/-! ### The predicate for the store -/

/-- The predicate restricts start, end and detector, and nothing else. -/
theorem holds_predicate_iff : s.predicate.holds a ↔
    (∀ n, s.start = some n → n ≤ a.startTime) ∧
    (∀ n, s.stop = some n → a.endTime ≤ n) ∧
    ∀ d, s.detector = some d → a.detector = some d := by
  rw [predicate, Predicate.holds_allOf_iff]
  simp only [bounds, List.mem_append, Option.mem_toList, Option.map_eq_some_iff]
  constructor
  · intro h
    refine ⟨fun n hn => ?_, fun n hn => ?_, fun d hd => ?_⟩
    · have hat := h _ (.inl (.inl ⟨n, hn, rfl⟩))
      simpa [Predicate.holds, Field.value?, Comparison.test] using hat
    · have hat := h _ (.inl (.inr ⟨n, hn, rfl⟩))
      simpa [Predicate.holds, Field.value?, Comparison.test] using hat
    · have hat := h _ (.inr ⟨d, hd, rfl⟩)
      simpa [Predicate.holds, Field.value?, Comparison.test, Option.any_eq_true] using hat
  · rintro ⟨hstart, hstop, hdetector⟩ p ((⟨n, hn, rfl⟩ | ⟨n, hn, rfl⟩) | ⟨d, hd, rfl⟩)
    · simpa [Predicate.holds, Field.value?, Comparison.test] using hstart n hn
    · simpa [Predicate.holds, Field.value?, Comparison.test] using hstop n hn
    · simp [Predicate.holds, Field.value?, Comparison.test, hdetector d hd]

/-- The store is asked for every anomaly of the slice. -/
theorem holds_predicate_of_admits (ha : s.admits a) : s.predicate.holds a := by
  obtain ⟨hdetector, hstart, hstop, -⟩ := admits_iff.1 ha
  exact holds_predicate_iff.2 ⟨hstart, hstop, hdetector⟩

/-- Asking the store for the predicate first loses nothing and keeps the order. -/
theorem select_filter_holds (s : Slice) (l : List Anomaly) :
    s.select (l.filter s.predicate.holds) = s.select l := by
  unfold select
  rw [List.filter_filter]
  refine List.filter_congr fun a _ => ?_
  by_cases ha : s.admits a = true
  · simp [ha, holds_predicate_of_admits ha]
  · simp [ha]

theorem bounds_ne_nil (h : s.fault? = none) : s.bounds ≠ [] := by
  intro hnil
  simp only [bounds, List.append_eq_nil_iff, Option.toList_eq_nil_iff, Option.map_eq_none_iff]
    at hnil
  obtain ⟨⟨hs, he⟩, hd⟩ := hnil
  simp [fault?, hs, he, hd] at h

theorem conjuncts_of_mem_bounds {p : Predicate} (h : p ∈ s.bounds) : p.conjuncts = 1 := by
  simp only [bounds, List.mem_append, Option.mem_toList, Option.map_eq_some_iff] at h
  rcases h with (⟨n, -, rfl⟩ | ⟨n, -, rfl⟩) | ⟨n, -, rfl⟩ <;> rfl

theorem conjuncts_predicate_ne_zero (h : s.fault? = none) : s.predicate.conjuncts ≠ 0 := by
  obtain ⟨p, rest, hbounds⟩ := List.exists_cons_of_ne_nil (bounds_ne_nil h)
  have hp : p.conjuncts = 1 :=
    conjuncts_of_mem_bounds (hbounds ▸ List.mem_cons_self)
  rw [predicate, Predicate.conjuncts, hbounds, Predicate.conjunctsAll, hp]
  omega

end Slice
end Outlier
