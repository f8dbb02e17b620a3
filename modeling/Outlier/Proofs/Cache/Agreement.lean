import Outlier.Proofs.Cache.Plain
import Outlier.Proofs.Cache.Residency

/-! # Entries that agree with the store

A slice is answered from its own entry or from that of a slice that contains it. As long as all of
these that are fresh have, for the slice, what the store has (`Recency.Agrees`), so does every
answer, whichever entry it comes from, and it stays so, because what is derived from an entry agrees
as well as the entry did (`Access.agrees_getAll`). -/

namespace Outlier

variable {P : List Anomaly → Prop} {m : List Anomaly} {s t : Slice} {now ttl : Nat}

theorem Slice.SelectsFrom.select_eq {l : List Anomaly} (h : s.SelectsFrom P l) :
    s.select l = l := by
  obtain ⟨m, -, rfl⟩ := h
  exact s.select_select m

namespace Recency

variable {r : Recency} {e : Entry}

theorem get?_of_mem (hn : (r.entries.map Prod.fst).Nodup) (h : (s, e) ∈ r.entries) :
    r.get? s = some e := by
  cases hget : r.get? s with
  | none =>
    have hnone := List.lookup_eq_none_iff.1 hget (s, e) h
    simp at hnone
  | some e' =>
    have heq := List.inj_on_of_nodup_map hn (r.mem_of_get? hget) h rfl
    exact congrArg some (congrArg Prod.snd heq)

/-- The fresh entries of the slice and of containing slices have, for the slice, what `m` has. -/
def Agrees (now ttl : Nat) (m : List Anomaly) (t : Slice) (r : Recency) : Prop :=
  ∀ p ∈ r.entries, p.2.isFresh now ttl → p.1 = t ∨ p.1.contains t →
    t.select p.2.anomalies = t.select m

namespace Agrees

theorem erase (h : r.Agrees now ttl m t) (s : Slice) : (r.erase s).Agrees now ttl m t :=
  fun p hp => h p (r.mem_of_mem_erase hp)

theorem push (h : r.Agrees now ttl m t)
    (he : s = t ∨ s.contains t → t.select e.anomalies = t.select m) :
    (r.push s e).Agrees now ttl m t := by
  intro p hp hfresh hpt
  rcases r.mem_of_mem_push hp with rfl | hp
  · exact he hpt
  · exact h p hp hfresh hpt

theorem touch (h : r.Agrees now ttl m t) (he : r.get? s = some e) (hfresh : e.isFresh now ttl)
    (later : Nat) : (r.touch s later).Agrees now ttl m t := by
  intro p hp hp' hpt
  rw [Recency.touch, he] at hp
  rcases List.mem_cons.1 hp with rfl | hp
  · exact h (s, e) (r.mem_of_get? he) hfresh hpt
  · exact h p (r.mem_of_mem_erase hp) hp' hpt

theorem later (h : r.Agrees now ttl m t) {k : Nat} (hle : now ≤ k) :
    r.Agrees k ttl m t := by
  intro p hp hfresh hpt
  refine h p hp ?_ hpt
  have hage : k - p.2.lastAccess < ttl := by simpa [Entry.isFresh] using hfresh
  have hyounger : now - p.2.lastAccess < ttl := by omega
  simpa [Entry.isFresh] using hyounger

theorem pushAll (h : r.Agrees now ttl m t) {l : Answers}
    (hl : ∀ q ∈ l, q.1 = t ∨ q.1.contains t → t.select q.2 = t.select m) :
    (r.pushAll now l).Agrees now ttl m t := by
  induction l generalizing r with
  | nil => exact h
  | cons q rest ih =>
    obtain ⟨hq, hrest⟩ := List.forall_mem_cons.1 hl
    exact ih (h.push hq) hrest

end Agrees

/-- What a slice has in the store agrees with it for every slice that it contains. -/
theorem select_select_of_contained (hst : s = t ∨ s.contains t) (m : List Anomaly) :
    t.select (s.select m) = t.select m := by
  rcases hst with rfl | hst
  · exact s.select_select m
  · exact Slice.select_of_contains hst m

end Recency

namespace SliceCache

namespace Lookup

/-- Entries and answers of a look-up agree with the store about the slice `t`. -/
structure Agrees (P : List Anomaly → Prop) (now ttl : Nat) (m : List Anomaly) (t : Slice)
    (l : Lookup) : Prop where
  nodup : (l.entries.entries.map Prod.fst).Nodup
  faithful : l.entries.Faithful P
  entries : l.entries.Agrees now ttl m t
  answers : ∀ q ∈ l.answers, q.1 = t → q.2 = t.select m
  derived : ∀ q ∈ l.derived, q.1 = t ∨ q.1.contains t → t.select q.2 = t.select m

variable {l : Lookup}

theorem Agrees.derive (h : l.Agrees P now ttl m t) (s : Slice) :
    (l.derive now ttl s).Agrees P now ttl m t := by
  unfold Lookup.derive
  split
  · exact h
  next key e hc =>
    obtain ⟨hmem, hfresh, hcontains⟩ := l.entries.of_container?_eq_some hc
    have hrows (hst : s = t ∨ s.contains t) : t.select (s.select e.anomalies) = t.select m := by
      rw [Recency.select_select_of_contained hst]
      refine h.entries _ hmem hfresh (.inr ?_)
      rcases hst with rfl | hst
      · exact hcontains
      · exact Slice.contains_trans hcontains hst
    refine ⟨(l.entries.follows_touch key now).nodup h.nodup, h.faithful.touch key now,
      h.entries.touch (Recency.get?_of_mem h.nodup hmem) hfresh now, fun q hq hqt => ?_,
      fun q hq hqt => ?_⟩
    · rcases List.mem_append.1 hq with hq | hq
      · exact h.answers q hq hqt
      · obtain rfl := List.mem_singleton.1 hq
        obtain rfl : s = t := hqt
        rw [← hrows (.inl rfl)]
        exact (s.select_select _).symm
    · rcases List.mem_append.1 hq with hq | hq
      · exact h.derived q hq hqt
      · obtain rfl := List.mem_singleton.1 hq
        exact hrows hqt

theorem Agrees.step (h : l.Agrees P now ttl m t) (s : Slice) :
    (l.step now ttl s).Agrees P now ttl m t := by
  unfold Lookup.step
  split
  · exact h
  · split
    · exact h.derive s
    next e he =>
      split
      next hfresh =>
        refine ⟨(l.entries.follows_touch s now).nodup h.nodup, h.faithful.touch s now,
          h.entries.touch he hfresh now, fun q hq hqt => ?_, h.derived⟩
        rcases List.mem_append.1 hq with hq | hq
        · exact h.answers q hq hqt
        · obtain rfl := List.mem_singleton.1 hq
          obtain rfl : s = t := hqt
          have hmem := l.entries.mem_of_get? he
          exact (h.faithful _ hmem).select_eq.symm.trans (h.entries _ hmem hfresh (.inl rfl))
      next =>
        refine Agrees.derive (l := { l with entries := l.entries.erase s }) ?_ s
        exact ⟨(l.entries.follows_erase s).nodup h.nodup, h.faithful.erase s, h.entries.erase s,
          h.answers, h.derived⟩

theorem Agrees.foldl (h : l.Agrees P now ttl m t) (slices : List Slice) :
    (slices.foldl (Lookup.step now ttl) l).Agrees P now ttl m t := by
  induction slices generalizing l with
  | nil => exact h
  | cons s rest ih => exact ih (h.step s)

end Lookup

theorem agrees_lookUp {c : SliceCache} (hn : (c.entries.entries.map Prod.fst).Nodup)
    (hf : c.entries.Faithful P) (h : c.entries.Agrees now c.settings.idleTtl m t)
    (slices : List Slice) :
    (c.lookUp now slices).2.entries.Agrees now c.settings.idleTtl m t ∧
      ∀ q ∈ (c.lookUp now slices).1, q.1 = t → q.2 = t.select m := by
  have hstart : Lookup.Agrees P now c.settings.idleTtl m t
      { entries := c.entries, stats := c.stats } := ⟨hn, hf, h, nofun, nofun⟩
  have hall := hstart.foldl slices
  refine ⟨?_, hall.answers⟩
  rw [lookUp, entries_foldl_keep]
  exact hall.entries.pushAll hall.derived

end SliceCache

namespace Access

variable {x : Access} {slices : List Slice} {first : Answers}

/-- A batch over a plain store answers a slice about which the entries agree with the store with
what the store has, and they still agree afterwards. -/
theorem agrees_getAll (h : x.Ready) (hv : ∀ s ∈ slices, s.fault? = none)
    (hn : (x.cache.entries.entries.map Prod.fst).Nodup) (hf : x.cache.entries.Faithful P)
    (hagrees : x.cache.entries.Agrees x.backend.clock x.cache.settings.idleTtl
      x.backend.memory.anomalies t)
    (hfirst : (x.getAll slices).1 = some (.ok first)) :
    (x.getAll slices).2.cache.entries.Agrees x.backend.clock x.cache.settings.idleTtl
        x.backend.memory.anomalies t ∧
      ∀ q ∈ first, q.1 = t → q.2 = t.select x.backend.memory.anomalies := by
  obtain ⟨-, landed, hperm, hentries⟩ := getAll_of_ready h hv
  obtain ⟨hfound, hrows⟩ := SliceCache.agrees_lookUp hn hf hagrees slices
  obtain rfl := eq_of_getAll h hv hfirst
  simp only [lookUp_of_enabled h.mode] at hentries ⊢
  rw [hentries]
  have hasked : ∀ q ∈ x.asksFor slices, q.2 = q.1.select x.backend.memory.anomalies := by
    intro q hq
    obtain ⟨s, -, rfl⟩ := List.mem_map.1 hq
    rfl
  refine ⟨hfound.pushAll fun q hq hqt => ?_, fun q hq hqt => ?_⟩
  · rw [hasked q (hperm.subset hq)]
    exact Recency.select_select_of_contained hqt _
  · rcases List.mem_append.1 hq with hq | hq
    · exact hrows q hq hqt
    · rw [hasked q hq, hqt]

end Access
end Outlier
