import Mathlib.Data.List.Sort
import Outlier.Proofs.Slice.Containment

/-! # Containment decided on the keys

`Slice.contains` looks at the bounds and the allowed values of two slices and at no anomaly. It
orders the slices (`contains_refl`, `contains_trans`, `contains_antisymm`), and what it says is
right about anomalies in both directions: a contained slice has no anomaly of its own
(`admits_of_contains`), and for a slice that is not contained there is an anomaly that tells the two
apart, made from the bounds and the allowed values of the slice itself (`Slice.sample`). -/

namespace Outlier

/-! ### Tables as functions -/

namespace Table

universe u

variable {β γ : Type u} {s t : Table β}

theorem get?_of_mem_entries {p : String × β} (h : p ∈ t.entries) : t.get? p.1 = some p.2 := by
  obtain ⟨entries, hascending⟩ := t
  change p ∈ entries at h
  change entries.lookup p.1 = some p.2
  induction entries with
  | nil => exact absurd h List.not_mem_nil
  | cons q l ih =>
    obtain ⟨hq, hl⟩ := List.pairwise_cons.1 hascending
    rcases List.mem_cons.1 h with rfl | h
    · exact List.lookup_cons_self
    · have hne : p.1 ≠ q.1 := by
        intro he
        have hlt := hq p h
        rw [he] at hlt
        exact String.lt_irrefl _ hlt
      rw [List.lookup_cons, beq_false_of_ne hne]
      exact ih hl h

theorem mem_entries_iff {p : String × β} : p ∈ t.entries ↔ t.get? p.1 = some p.2 :=
  ⟨get?_of_mem_entries, mem_entries_of_get?⟩

theorem ext_get? (h : ∀ key, s.get? key = t.get? key) : s = t := by
  have hirrefl : Std.Irrefl fun a b : String × β => a.1 < b.1 := ⟨fun a => String.lt_irrefl a.1⟩
  have hantisymm : Std.Antisymm fun a b : String × β => a.1 < b.1 :=
    ⟨fun a b hab hba => absurd hba (String.lt_asymm hab)⟩
  refine ext (s.ascending.eq_of_mem_iff t.ascending fun p => ?_)
  rw [mem_entries_iff, mem_entries_iff, h]

/-- The table with another value at each key. -/
def mapValues (f : String → β → γ) (t : Table β) : Table γ where
  entries := t.entries.map fun p => (p.1, f p.1 p.2)
  ascending := List.pairwise_map.2 t.ascending

theorem get?_mapValues_of_mem (f : String → β → γ) {p : String × β} (h : p ∈ t.entries) :
    (t.mapValues f).get? p.1 = some (f p.1 p.2) := by
  have hmem : (p.1, f p.1 p.2) ∈ (t.mapValues f).entries :=
    List.mem_map_of_mem (f := fun p : String × β => (p.1, f p.1 p.2)) h
  exact get?_of_mem_entries hmem

theorem get?_mapValues_of_none (f : String → β → γ) {key : String} (h : t.get? key = none) :
    (t.mapValues f).get? key = none := by
  have hnone := List.lookup_eq_none_iff.1 h
  refine List.lookup_eq_none_iff.2 fun q hq => ?_
  obtain ⟨p, hp, rfl⟩ := List.mem_map.1 hq
  exact hnone p hp

end Table

namespace NameSet

variable {s t : NameSet}

theorem subset_iff : s.subset t ↔ ∀ name, s.has name → t.has name := by
  constructor
  · intro h name hs
    exact has_of_subset h hs
  · intro h
    exact List.all_eq_true.2 fun name hname => h name (has_iff.2 hname)

theorem subset_refl (s : NameSet) : s.subset s := subset_iff.2 fun _ h => h

theorem subset_antisymm (h : s.subset t) (k : t.subset s) : s = t := by
  refine Table.ext_get? fun name => ?_
  have hhas : s.has name = t.has name :=
    Bool.eq_iff_iff.2 ⟨subset_iff.1 h name, subset_iff.1 k name⟩
  unfold has at hhas
  cases hs : s.get? name <;> cases ht : t.get? name <;> simp_all

end NameSet

namespace Slice

variable {s t : Slice}

/-! ### A partial order -/

theorem contains_refl (s : Slice) : s.contains s := by
  refine contains_iff.2 ⟨fun _ h => h, fun n h => ?_, fun n h => ?_, fun p hp => ?_⟩
  · exact ⟨n, h, Int64.le_refl n⟩
  · exact ⟨n, h, Int64.le_refl n⟩
  · exact ⟨p.2, Table.get?_of_mem_entries hp, NameSet.subset_refl p.2⟩

theorem filters_eq_of_contains (h : s.contains t) (k : t.contains s) : s.filters = t.filters := by
  obtain ⟨-, -, -, hf⟩ := contains_iff.1 h
  obtain ⟨-, -, -, kf⟩ := contains_iff.1 k
  refine Table.ext_get? fun dimension => Option.ext fun allowed => ?_
  constructor
  · intro hs
    obtain ⟨q, hq, hsub⟩ := hf _ (Table.mem_entries_of_get? hs)
    obtain ⟨p, hp, hsub'⟩ := kf _ (Table.mem_entries_of_get? hq)
    obtain rfl : p = allowed := Option.some.inj (hp.symm.trans hs)
    rw [NameSet.subset_antisymm hsub' hsub]
    exact hq
  · intro ht
    obtain ⟨p, hp, hsub⟩ := kf _ (Table.mem_entries_of_get? ht)
    obtain ⟨q, hq, hsub'⟩ := hf _ (Table.mem_entries_of_get? hp)
    obtain rfl : q = allowed := Option.some.inj (hq.symm.trans ht)
    rw [NameSet.subset_antisymm hsub' hsub]
    exact hp

theorem bound_eq {r : Int64 → Int64 → Prop} (hr : ∀ m n, r m n → r n m → m = n)
    {b c : Option Int64} (h : ∀ m, b = some m → ∃ n, c = some n ∧ r m n)
    (k : ∀ n, c = some n → ∃ m, b = some m ∧ r n m) : b = c := by
  cases b with
  | none =>
    cases c with
    | none => rfl
    | some n =>
      obtain ⟨m, hm, -⟩ := k n rfl
      cases hm
  | some m =>
    obtain ⟨n, rfl, hmn⟩ := h m rfl
    obtain ⟨m', hm', hnm⟩ := k n rfl
    obtain rfl := Option.some.inj hm'
    rw [hr m n hmn hnm]

theorem contains_antisymm (h : s.contains t) (k : t.contains s) : s = t := by
  obtain ⟨hd, hb, he, -⟩ := contains_iff.1 h
  obtain ⟨kd, kb, ke, -⟩ := contains_iff.1 k
  have hdetector : s.detector = t.detector := Option.ext fun d => ⟨hd d, kd d⟩
  have hstart : s.start = t.start := bound_eq (fun _ _ => Int64.le_antisymm) hb kb
  have hstop : s.stop = t.stop :=
    bound_eq (r := fun m n => n ≤ m) (fun _ _ hmn hnm => Int64.le_antisymm hnm hmn) he ke
  have hfilters := filters_eq_of_contains h k
  cases s
  cases t
  simp_all

/-! ### An anomaly of a slice -/

/-- The anomaly of the slice that begins and ends as far out as the slice lets it, with these values
of the filtered dimensions. -/
def sample (s : Slice) (value : String → NameSet → String) : Anomaly where
  detector := s.detector
  startTime := s.start.getD Int64.minValue
  endTime := s.stop.getD Int64.maxValue
  dimensions := s.filters.mapValues value

theorem admits_sample {value : String → NameSet → String}
    (h : ∀ p ∈ s.filters.entries, p.2.has (value p.1 p.2)) : s.admits (s.sample value) := by
  refine admits_iff.2 ⟨fun d hd => hd, fun n hn => ?_, fun n hn => ?_, fun p hp => ?_⟩
  · rw [sample, hn]
    exact Int64.le_refl n
  · rw [sample, hn]
    exact Int64.le_refl n
  · exact ⟨_, Table.get?_mapValues_of_mem value hp, h p hp⟩

theorem sample_startTime_le (h : t.fault? = none) (value : String → NameSet → String) :
    (t.sample value).startTime ≤ (t.sample value).endTime := by
  unfold sample
  cases hs : t.start with
  | none => exact Int64.minValue_le _
  | some m =>
    cases he : t.stop with
    | none => exact Int64.le_maxValue _
    | some n => simpa [fault?, hs, he] using h

/-- The value at one dimension, and the first allowed one at any other. -/
def valueAt (dimension value : String) (key : String) (allowed : NameSet) : String :=
  if key = dimension then value else allowed.names.headD ""

theorem has_headD {allowed : NameSet} (h : allowed.names ≠ []) :
    allowed.has (allowed.names.headD "") := by
  obtain ⟨name, rest, hnames⟩ := List.exists_cons_of_ne_nil h
  rw [NameSet.has_iff, hnames]
  exact List.mem_cons_self

theorem has_valueAt {dimension value : String} {p : String × NameSet} (h : p.2.names ≠ [])
    (hvalue : p.1 = dimension → p.2.has value) : p.2.has (valueAt dimension value p.1 p.2) := by
  unfold valueAt
  split
  next he => exact hvalue he
  next => exact has_headD h

/-- A slice of which no anomaly is missing contains it. Only anomalies that end after they begin are
needed to see it. -/
theorem contains_of_forall_admits (hv : t.fault? = none)
    (hne : ∀ p ∈ t.filters.entries, p.2.names ≠ []) (hstart : s.start ≠ some Int64.minValue)
    (hstop : s.stop ≠ some Int64.maxValue)
    (h : ∀ a : Anomaly, a.startTime ≤ a.endTime → t.admits a → s.admits a) : s.contains t := by
  -- any choice of allowed values gives an anomaly of both
  have hsample (value : String → NameSet → String)
      (hvalue : ∀ p ∈ t.filters.entries, p.2.has (value p.1 p.2)) :=
    admits_iff.1 (h _ (sample_startTime_le hv value) (admits_sample hvalue))
  obtain ⟨hd, hb, he, hf⟩ := hsample (fun _ allowed => allowed.names.headD "") fun p hp =>
    has_headD (hne p hp)
  refine contains_iff.2 ⟨hd, fun n hn => ?_, fun n hn => ?_, fun p hp => ?_⟩
  · have hle := hb n hn
    cases ht : t.start with
    | none =>
      rw [sample, ht] at hle
      have hmin : n = Int64.minValue := Int64.le_antisymm hle (Int64.minValue_le n)
      exact absurd (hmin ▸ hn) hstart
    | some m =>
      rw [sample, ht] at hle
      exact ⟨m, rfl, hle⟩
  · have hle := he n hn
    cases ht : t.stop with
    | none =>
      rw [sample, ht] at hle
      have hmax : n = Int64.maxValue := Int64.le_antisymm (Int64.le_maxValue n) hle
      exact absurd (hmax ▸ hn) hstop
    | some m =>
      rw [sample, ht] at hle
      exact ⟨m, rfl, hle⟩
  · cases ht : t.filters.get? p.1 with
    | none =>
      obtain ⟨v, hv, -⟩ := hf p hp
      rw [sample, Table.get?_mapValues_of_none _ ht] at hv
      cases hv
    | some theirs =>
      refine ⟨theirs, rfl, NameSet.subset_iff.2 fun name hname => ?_⟩
      have hallowed : ∀ q ∈ t.filters.entries, q.1 = p.1 → q.2.has name := by
        intro q hq hkey
        have hget := Table.get?_of_mem_entries hq
        rw [hkey, ht] at hget
        rwa [← Option.some.inj hget]
      obtain ⟨-, -, -, hf⟩ := hsample (valueAt p.1 name) fun q hq =>
        has_valueAt (hne q hq) (hallowed q hq)
      obtain ⟨v, hv, hhas⟩ := hf p hp
      have hvalue := Table.get?_mapValues_of_mem (valueAt p.1 name) (Table.mem_entries_of_get? ht)
      rw [sample, hvalue] at hv
      obtain rfl := Option.some.inj hv
      rwa [valueAt, if_pos rfl] at hhas

/-- **Containment.** A slice has every anomaly of the slices that it contains. It contains each
valid slice of which it has every anomaly, unless a filter of that slice allows nothing or a bound
of its own keeps no time out. Containment is a partial order. -/
theorem contains_exact (s t : Slice) :
    (s.contains t → ∀ a, t.admits a → s.admits a) ∧
    (t.fault? = none → (∀ p ∈ t.filters.entries, p.2.names ≠ []) →
      s.start ≠ some Int64.minValue → s.stop ≠ some Int64.maxValue →
      (∀ a : Anomaly, a.startTime ≤ a.endTime → t.admits a → s.admits a) → s.contains t) ∧
    s.contains s ∧
    (∀ u : Slice, s.contains t → t.contains u → s.contains u) ∧
    (s.contains t → t.contains s → s = t) := by
  refine ⟨fun h a ha => ?_, contains_of_forall_admits, contains_refl s, fun u h k => ?_, ?_⟩
  · exact admits_of_contains h ha
  · exact contains_trans h k
  · exact contains_antisymm

/-- A detector in two countries. -/
def twoCountries : Slice :=
  (({ detector := some 1, stop := some 900 } : Slice).withFilter "country" "us").withFilter
    "country" "de"

/-- The same detector in one of them, for some time and on one device. -/
def oneCountry : Slice :=
  (({ detector := some 1, start := some 100, stop := some 200 } : Slice).withFilter
    "device" "phone").withFilter "country" "de"

/-- Which anomalies the two slices have is enough to see that one contains the other. -/
theorem contains_oneCountry :
    oneCountry.fault? = none ∧ (∀ p ∈ oneCountry.filters.entries, p.2.names ≠ []) ∧
      twoCountries.start ≠ some Int64.minValue ∧ twoCountries.stop ≠ some Int64.maxValue ∧
      (∀ a : Anomaly, a.startTime ≤ a.endTime → oneCountry.admits a → twoCountries.admits a) ∧
      twoCountries.contains oneCountry := by
  obtain ⟨-, hcontains, -⟩ := contains_exact twoCountries oneCountry
  have hv : oneCountry.fault? = none := by decide
  have hne : ∀ p ∈ oneCountry.filters.entries, p.2.names ≠ [] := by decide
  have hstart : twoCountries.start ≠ some Int64.minValue := by decide
  have hstop : twoCountries.stop ≠ some Int64.maxValue := by decide
  have hfilters : ∀ p ∈ twoCountries.filters.entries,
      ∃ q ∈ oneCountry.filters.entries, q.1 = p.1 ∧ q.2.subset p.2 := by decide
  have hall : ∀ a : Anomaly, a.startTime ≤ a.endTime → oneCountry.admits a →
      twoCountries.admits a := by
    intro a _ ha
    obtain ⟨hd, -, he, hf⟩ := admits_iff.1 ha
    refine admits_iff.2 ⟨hd, nofun, fun n hn => ?_, fun p hp => ?_⟩
    · obtain rfl : 900 = n := Option.some.inj hn
      exact Int64.le_trans (he 200 rfl) (by decide)
    · obtain ⟨q, hq, hkey, hsub⟩ := hfilters p hp
      obtain ⟨v, hget, hhas⟩ := hf q hq
      exact ⟨v, hkey ▸ hget, NameSet.has_of_subset hsub hhas⟩
  exact ⟨hv, hne, hstart, hstop, hall, hcontains hv hne hstart hstop hall⟩

end Slice
end Outlier
