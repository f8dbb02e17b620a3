import Outlier.Proofs.Cache.Agreement
import Outlier.Proofs.Cache.Changes
import Outlier.Proofs.Cache.Permits

/-! # The order of the entries

Entries stand in the order of their last uses, the latest first (`Recency.Ordered`): whatever uses
an entry or puts one in moves it to the front and stamps it with the present time. So the expired
entries are the last ones (`Ordered.fresh_append_expired`), and what is pushed out for want of room
is expired if any entry is (`Ordered.expired_of_pushed_out`). Every change of a cache keeps the
order, and the permits accounted for (`SliceCache.Change.sound`). -/

namespace Outlier

namespace Entry

variable {e e' : Entry} {now ttl : Nat}

theorem isFresh_iff : e.isFresh now ttl ↔ now - e.lastAccess < ttl := decide_eq_true_iff

theorem isFresh_of_le (h : e.lastAccess ≤ e'.lastAccess) (he : e.isFresh now ttl) :
    e'.isFresh now ttl := by
  rw [isFresh_iff] at he ⊢
  omega

theorem isFresh_used (h : e.isFresh now ttl) (rows : List Anomaly) :
    Entry.isFresh { anomalies := rows, lastAccess := now } now ttl := by
  rw [isFresh_iff] at h ⊢
  dsimp only
  omega

end Entry

namespace Recency

/-- The entries fit in, each slice has one at most, and they stand in the order of their last uses,
none of which is still to come. -/
structure Ordered (now : Nat) (r : Recency) : Prop where
  size_le : r.size ≤ r.capacity
  nodup : (r.entries.map Prod.fst).Nodup
  used : ∀ p ∈ r.entries, p.2.lastAccess ≤ now
  descending : r.entries.Pairwise fun p q => q.2.lastAccess ≤ p.2.lastAccess

variable {r : Recency} {s : Slice} {e : Entry} {now ttl : Nat}

theorem length_erase_lt (h : r.get? s = some e) : (r.erase s).entries.length < r.entries.length :=
  List.length_filter_lt_length_iff_exists.2 ⟨(s, e), r.mem_of_get? h, by simp⟩

namespace Ordered

theorem later (h : r.Ordered now) {time : Nat} (hle : now ≤ time) : r.Ordered time :=
  { h with used := fun p hp => Nat.le_trans (h.used p hp) hle }

theorem sublist (h : r.Ordered now) {l : List (Slice × Entry)} (hl : l.Sublist r.entries) :
    Ordered now { r with entries := l } where
  size_le := Nat.le_trans hl.length_le h.size_le
  nodup := (hl.map _).nodup h.nodup
  used p hp := h.used p (hl.subset hp)
  descending := h.descending.sublist hl

theorem erase (h : r.Ordered now) (s : Slice) : (r.erase s).Ordered now :=
  h.sublist List.filter_sublist

theorem cleared (h : r.Ordered now) : r.cleared.Ordered now := h.sublist (List.nil_sublist _)

theorem descending_cons (h : r.Ordered now) (s : Slice) (he : e.lastAccess = now) :
    ((s, e) :: (r.erase s).entries).Pairwise fun p q => q.2.lastAccess ≤ p.2.lastAccess :=
  List.pairwise_cons.2 ⟨fun p hp => he ▸ (h.erase s).used p hp, (h.erase s).descending⟩

theorem used_cons (h : r.Ordered now) (s : Slice) (he : e.lastAccess = now) :
    ∀ p ∈ (s, e) :: (r.erase s).entries, p.2.lastAccess ≤ now :=
  List.forall_mem_cons.2 ⟨Nat.le_of_eq he, (h.erase s).used⟩

theorem push (h : r.Ordered now) (s : Slice) (he : e.lastAccess = now) :
    (r.push s e).Ordered now where
  size_le := r.size_push_le s e
  nodup := ((List.take_sublist ..).map _).nodup (nodup_cons_erase h.nodup s e)
  used p hp := h.used_cons s he p (List.mem_of_mem_take hp)
  descending := (h.descending_cons s he).sublist (List.take_sublist ..)

theorem touch (h : r.Ordered now) (s : Slice) : (r.touch s now).Ordered now := by
  unfold Recency.touch
  split
  next e he =>
    refine ⟨?_, nodup_cons_erase h.nodup s _, h.used_cons s rfl, h.descending_cons s rfl⟩
    exact Nat.le_trans (length_erase_lt he) h.size_le
  next => exact h

/-! ### Expired entries -/

/-- The expired entries come after all fresh ones. -/
theorem fresh_append_expired (h : r.Ordered now) (t ttl : Nat) :
    r.entries.filter (·.2.isFresh t ttl) ++ r.entries.filter (!·.2.isFresh t ttl) = r.entries := by
  have hall : ∀ l : List (Slice × Entry), l.Pairwise (fun p q => q.2.lastAccess ≤ p.2.lastAccess) →
      l.filter (·.2.isFresh t ttl) ++ l.filter (!·.2.isFresh t ttl) = l := by
    intro l hl
    induction l with
    | nil => rfl
    | cons p l ih =>
      obtain ⟨hp, hl⟩ := List.pairwise_cons.1 hl
      cases hfresh : p.2.isFresh t ttl with
      | true => simpa [hfresh] using ih hl
      | false =>
        have hstale : ∀ q ∈ l, q.2.isFresh t ttl = false := by
          intro q hq
          refine Bool.eq_false_iff.2 fun hq' => ?_
          rw [Entry.isFresh_of_le (hp q hq) hq'] at hfresh
          cases hfresh
        rw [List.filter_eq_nil_iff.2, List.filter_eq_self.2, List.nil_append]
        · simpa [hfresh] using hstale
        · simpa [hfresh] using hstale
  exact hall r.entries h.descending

/-- A new entry pushes one entry out at most. -/
theorem length_drop_le (h : r.Ordered now) (s : Slice) (e : Entry) :
    (((s, e) :: (r.erase s).entries).drop r.capacity).length ≤ 1 := by
  have hsize : r.entries.length ≤ r.capacity := h.size_le
  have herase : (r.erase s).entries.length ≤ r.entries.length := r.size_erase_le s
  rw [List.length_drop, List.length_cons]
  omega

theorem drop_eq_nil_of_some (h : r.Ordered now) {e' : Entry} (he' : r.get? s = some e') :
    ((s, e) :: (r.erase s).entries).drop r.capacity = [] := by
  have hsize : r.entries.length ≤ r.capacity := h.size_le
  have hlt := length_erase_lt he'
  rw [List.drop_eq_nil_iff, List.length_cons]
  omega

/-- An entry that is pushed out is expired if any entry is. -/
theorem expired_of_pushed_out (h : r.Ordered now) (he : e.lastAccess = now) {p q : Slice × Entry}
    (hp : p ∈ r.entries) (hps : p.1 ≠ s) (hout : p ∉ (r.push s e).entries) (hq : q ∈ r.entries)
    (hstale : q.2.isFresh now ttl = false) : p.2.isFresh now ttl = false := by
  have hmem {t : Slice × Entry} (ht : t ∈ r.entries) (hts : t.1 ≠ s) :
      t ∈ (r.push s e).entries ∨ t ∈ ((s, e) :: (r.erase s).entries).drop r.capacity := by
    rw [Recency.push, ← List.mem_append, List.take_append_drop]
    exact List.mem_cons_of_mem _ (List.mem_filter.2 ⟨ht, by simpa using hts⟩)
  have hpdrop := (hmem hp hps).resolve_left hout
  -- an entry is pushed out only if the slice had none, so that of `q` is not replaced
  have hqs : q.1 ≠ s := by
    intro heq
    rw [h.drop_eq_nil_of_some (heq ▸ get?_of_mem h.nodup hq)] at hpdrop
    exact absurd hpdrop List.not_mem_nil
  rcases hmem hq hqs with hq | hq
  · have hall := h.descending_cons s he
    rw [← List.take_append_drop r.capacity ((s, e) :: _)] at hall
    have hle : p.2.lastAccess ≤ q.2.lastAccess := (List.pairwise_append.1 hall).2.2 q hq p hpdrop
    refine Bool.eq_false_iff.2 fun hfresh => ?_
    rw [Entry.isFresh_of_le hle hfresh] at hstale
    cases hstale
  · obtain ⟨t, ht⟩ := List.length_eq_one_iff.1
      (Nat.le_antisymm (h.length_drop_le s e) (List.length_pos_of_mem hpdrop))
    rw [ht, List.mem_singleton] at hpdrop hq
    rw [hpdrop, ← hq]
    exact hstale

end Ordered

end Recency

namespace SliceCache

/-! ### All the time -/

/-- What holds of a cache of these settings and of this mode all the time, also between the changes
that one operation makes. -/
structure Sound (settings : Settings) (mode : Mode) (m : Nat × SliceCache) : Prop where
  ordered : m.2.entries.Ordered m.1
  capacity : m.2.entries.capacity = settings.capacity
  /-- A cache that keeps nothing has no entries. -/
  unused : mode = .disabled → m.2.entries.entries = []
  held : m.2.held = settings.permits
  settings : m.2.settings = settings
  mode : m.2.mode = mode

theorem sound_new (settings : Settings) (mode : Mode) (now : Nat) :
    Sound settings mode (now, new settings mode) :=
  ⟨⟨Nat.zero_le _, .nil, nofun, .nil⟩, rfl, fun _ => rfl, rfl, rfl, rfl⟩

variable {settings : Settings} {mode : Mode} {m m' : Nat × SliceCache}

theorem Change.sound (h : Change m m') (hm : Sound settings mode m) : Sound settings mode m' := by
  cases h with
  | use he =>
    refine { hm with ordered := hm.ordered.touch _, capacity := ?_, unused := fun hmode => ?_ }
    · exact (Recency.capacity_touch ..).trans hm.capacity
    · rw [hm.unused hmode] at he
      exact absurd he List.not_mem_nil
  | @expire _ c s =>
    refine { hm with ordered := hm.ordered.erase s, unused := fun hmode => ?_ }
    exact congrArg (List.filter _) (hm.unused hmode)
  | keep hmode s rows =>
    refine { hm with ordered := hm.ordered.push s rfl, unused := fun hunused => ?_ }
    rw [← hm.mode, hmode] at hunused
    cases hunused
  | @take _ c hfree =>
    refine { hm with held := ?_ }
    rw [← hm.held]
    simp only [held, List.length_append, List.length_singleton]
    omega
  | @giveBack _ place c hplace =>
    refine { hm with held := ?_ }
    rw [← hm.held]
    simp only [held, List.length_eraseIdx_of_lt hplace]
    omega
  | cleanUp now c =>
    obtain ⟨l, hl, heq⟩ := c.exists_cleanUp now
    rw [heq]
    refine { hm with ordered := hm.ordered.sublist hl, unused := fun hmode => ?_ }
    exact List.sublist_nil.1 (hm.unused hmode ▸ hl)
  | clear => exact { hm with ordered := hm.ordered.cleared, unused := fun _ => rfl }
  | note => exact ⟨hm.ordered, hm.capacity, hm.unused, hm.held, hm.settings, hm.mode⟩
  | wait c hle => exact { hm with ordered := hm.ordered.later hle }

theorem Sound.entries_eq_nil (hm : Sound settings mode m) (h : m.2.mode = .disabled) :
    m.2.entries.entries = [] := hm.unused (hm.mode.symm.trans h)

theorem Evolves.sound (h : Evolves m m') (hm : Sound settings mode m) : Sound settings mode m' :=
  h.induct (fun _ _ hchange => hchange.sound) hm

end SliceCache
end Outlier
