import Outlier.Proofs.Cache.Order

/-! # What a clean-up leaves

A clean-up first drops the expired entries, each by its slice, and then the least recently used one
as long as there are too many. As no slice has two entries, what is left are the fresh entries, and
of these the first ones up to the limit (`SliceCache.cleanUp_eq_remaining`). A second clean-up finds
nothing to do. -/

namespace Outlier

namespace Recency

variable {r : Recency} {now ttl limit : Nat}

/-- The fresh entries, of which only the `limit` most recently used stay. -/
def remaining (r : Recency) (now ttl limit : Nat) : List (Slice × Entry) :=
  (r.entries.filter (·.2.isFresh now ttl)).take limit

theorem remaining_sublist (r : Recency) (now ttl limit : Nat) :
    (r.remaining now ttl limit).Sublist r.entries :=
  (List.take_sublist ..).trans List.filter_sublist

theorem length_remaining_le (r : Recency) (now ttl limit : Nat) :
    (r.remaining now ttl limit).length ≤ limit :=
  List.length_take_le ..

theorem remaining_again (capacity : Nat) :
    remaining { capacity, entries := r.remaining now ttl limit } now ttl limit =
      r.remaining now ttl limit := by
  have hfresh : ∀ p ∈ r.remaining now ttl limit, p.2.isFresh now ttl = true := fun p hp =>
    (List.mem_filter.1 (List.mem_of_mem_take hp)).2
  show ((r.remaining now ttl limit).filter _).take limit = _
  rw [List.filter_eq_self.2 hfresh, List.take_of_length_le (r.length_remaining_le now ttl limit)]

theorem mem_expired_iff (h : (r.entries.map Prod.fst).Nodup) {p : Slice × Entry}
    (hp : p ∈ r.entries) : p.1 ∈ r.expired now ttl ↔ p.2.isFresh now ttl = false := by
  simp only [expired, List.mem_map, List.mem_filter, Bool.not_eq_true']
  constructor
  · rintro ⟨q, ⟨hq, hstale⟩, hqp⟩
    rwa [List.inj_on_of_nodup_map h hq hp hqp] at hstale
  · intro hstale
    exact ⟨p, ⟨hp, hstale⟩, rfl⟩

theorem filter_notMem_expired (h : (r.entries.map Prod.fst).Nodup) (now ttl : Nat) :
    r.entries.filter (·.1 ∉ r.expired now ttl) = r.entries.filter (·.2.isFresh now ttl) := by
  refine List.filter_congr fun p hp => ?_
  rw [Bool.eq_iff_iff, decide_eq_true_iff, mem_expired_iff h hp, Bool.not_eq_false]

theorem length_expired (r : Recency) (now ttl : Nat) :
    (r.expired now ttl).length = r.size - (r.entries.filter (·.2.isFresh now ttl)).length := by
  have hparts := List.length_eq_length_filter_add (l := r.entries) (·.2.isFresh now ttl)
  simp only [expired, List.length_map, size]
  omega

/-- Fresh entries that have to go were not used later than those that stay. -/
theorem Ordered.le_of_dropped (h : r.Ordered now) {p q : Slice × Entry} {time : Nat}
    (hp : p ∈ r.entries) (hfresh : p.2.isFresh time ttl = true)
    (hdropped : p ∉ r.remaining time ttl limit) (hq : q ∈ r.remaining time ttl limit) :
    p.2.lastAccess ≤ q.2.lastAccess := by
  have hall := h.descending.sublist (List.filter_sublist (p := (·.2.isFresh time ttl)))
  rw [← List.take_append_drop limit (r.entries.filter _)] at hall
  have hin : p ∈ r.entries.filter (·.2.isFresh time ttl) := List.mem_filter.2 ⟨hp, hfresh⟩
  rw [← List.take_append_drop limit (r.entries.filter _)] at hin
  have hlast := (List.mem_append.1 hin).resolve_left hdropped
  exact (List.pairwise_append.1 hall).2.2 q hq p hlast

end Recency

namespace SliceCache

/-- The cache with some entries in place of its own, of which others were dropped. -/
def evict (c : SliceCache) (entries : List (Slice × Entry)) : SliceCache :=
  { c with
    entries := { c.entries with entries }
    stats.evictions := c.stats.evictions + (c.size - entries.length) }

/-- **What a clean-up leaves** are the fresh entries that are within the limit, and it counts all
others. -/
theorem cleanUp_eq_remaining (c : SliceCache) (now : Nat)
    (h : (c.entries.entries.map Prod.fst).Nodup) :
    let left := c.entries.remaining now c.settings.idleTtl c.settings.maxEntries
    c.cleanUp now = (c.size - left.length, c.evict left) := by
  have hfresh := Recency.filter_notMem_expired h now c.settings.idleTtl
  have hexpired := c.entries.length_expired now c.settings.idleTtl
  have hle : (c.entries.entries.filter (·.2.isFresh now c.settings.idleTtl)).length ≤ c.size :=
    List.length_filter_le ..
  have hcount : (c.entries.expired now c.settings.idleTtl).length +
      ((c.entries.entries.filter (·.2.isFresh now c.settings.idleTtl)).length -
        c.settings.maxEntries) =
      c.size - (c.entries.remaining now c.settings.idleTtl c.settings.maxEntries).length := by
    rw [hexpired, Recency.remaining, List.length_take]
    simp only [size] at hle ⊢
    omega
  simp only [cleanUp_eq, hfresh, hcount]
  rfl

theorem cleanUp_of_remaining {c : SliceCache} {now : Nat}
    (h : (c.entries.entries.map Prod.fst).Nodup)
    (hall : c.entries.remaining now c.settings.idleTtl c.settings.maxEntries = c.entries.entries) :
    c.cleanUp now = (0, c) := by
  have hnone : c.size - c.entries.entries.length = 0 := Nat.sub_self _
  rw [cleanUp_eq_remaining c now h, hall, hnone]
  simp only [evict, hnone, Nat.add_zero]

/-- The entries of a cache at a moment, and a clean-up at that moment. -/
structure Bounded (settings : Settings) (m : Nat × SliceCache) : Prop where
  /-- No slice has two entries. -/
  nodup : (m.2.entries.entries.map Prod.fst).Nodup
  size_le : m.2.size ≤ max 1 settings.maxEntries
  /-- A clean-up leaves the fresh entries that are within the limit, as they are and in their order.
  Other than that it only counts those it drops. -/
  cleanUp :
    let left := (m.2.entries.entries.filter (·.2.isFresh m.1 settings.idleTtl)).take
      settings.maxEntries
    (m.2.cleanUp m.1).2 = m.2.evict left
  /-- It returns by how many the entries became fewer. -/
  counted : (m.2.cleanUp m.1).1 + (m.2.cleanUp m.1).2.size = m.2.size
  /-- The fresh ones it drops were not used later than those it leaves. -/
  dropped : ∀ p ∈ m.2.entries.entries, p.2.isFresh m.1 settings.idleTtl = true →
    p ∉ (m.2.cleanUp m.1).2.entries.entries →
      ∀ q ∈ (m.2.cleanUp m.1).2.entries.entries, p.2.lastAccess ≤ q.2.lastAccess
  /-- Another clean-up at that moment does nothing. -/
  again : (m.2.cleanUp m.1).2.cleanUp m.1 = (0, (m.2.cleanUp m.1).2)

theorem Sound.bounded {settings : Settings} {mode : Mode} {m : Nat × SliceCache}
    (h : Sound settings mode m) : Bounded settings m := by
  obtain ⟨now, c⟩ := m
  obtain rfl : c.settings = settings := h.settings
  have hn : (c.entries.entries.map Prod.fst).Nodup := h.ordered.nodup
  have hclean := c.cleanUp_eq_remaining now hn
  have hsub := c.entries.remaining_sublist now c.settings.idleTtl c.settings.maxEntries
  constructor
  case nodup => exact hn
  case size_le =>
    calc c.size ≤ c.entries.capacity := h.ordered.size_le
      _ = max 1 c.settings.maxEntries := h.capacity
  case cleanUp => exact congrArg Prod.snd hclean
  case counted =>
    rw [hclean]
    exact Nat.sub_add_cancel hsub.length_le
  case dropped =>
    intro p hp hfresh hout q hq
    rw [hclean] at hout hq
    exact h.ordered.le_of_dropped hp hfresh hout hq
  case again =>
    rw [hclean]
    exact cleanUp_of_remaining ((hsub.map _).nodup hn) (Recency.remaining_again _)

end SliceCache
end Outlier
