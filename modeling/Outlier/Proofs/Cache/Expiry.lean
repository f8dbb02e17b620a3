import Outlier.Proofs.Cache.Coverage

/-! # Answers without the expired entries

Expired entries might as well not be there: a look-up finds the same without them
(`SliceCache.lookUp_live`), so a batch makes the same calls, and gets the same answer or waits in
the same way (`Access.getAll_withoutExpired`). Batches that wait are answered without a look at the
entries (`Access.Alike.land`, `Access.Alike.release`). -/

namespace Outlier

variable {now ttl : Nat} {s : Slice}

namespace Recency

/-- The fresh entries. -/
def live (r : Recency) (now ttl : Nat) : Recency :=
  { r with entries := r.entries.filter (·.2.isFresh now ttl) }

variable {r : Recency} {e : Entry}

theorem get?_live (hn : (r.entries.map Prod.fst).Nodup) :
    (r.live now ttl).get? s = (r.get? s).filter (·.isFresh now ttl) := by
  have hlive : ((r.live now ttl).entries.map Prod.fst).Nodup :=
    (List.filter_sublist.map _).nodup hn
  cases hget : (r.live now ttl).get? s with
  | some e =>
    obtain ⟨hmem, hfresh⟩ := List.mem_filter.1 ((r.live now ttl).mem_of_get? hget)
    rw [get?_of_mem hn hmem, Option.filter_some, if_pos hfresh]
  | none =>
    cases hs : r.get? s with
    | none => rfl
    | some e =>
      rw [Option.filter_some, if_neg]
      intro hfresh
      have hmem : (s, e) ∈ (r.live now ttl).entries :=
        List.mem_filter.2 ⟨r.mem_of_get? hs, hfresh⟩
      rw [get?_of_mem hlive hmem] at hget
      cases hget

theorem container?_live (r : Recency) :
    (r.live now ttl).container? s now ttl = r.container? s now ttl := by
  rw [container?, live, List.find?_filter, container?]
  congr 1
  funext p
  by_cases hfresh : p.2.isFresh now ttl <;> simp [hfresh]

theorem live_touch (hn : (r.entries.map Prod.fst).Nodup) (he : r.get? s = some e)
    (hfresh : e.isFresh now ttl) : (r.touch s now).live now ttl = (r.live now ttl).touch s now := by
  have hget : (r.live now ttl).get? s = some e := by
    rw [get?_live hn, he, Option.filter_some, if_pos hfresh]
  have hused : Entry.isFresh { e with lastAccess := now } now ttl :=
    Entry.isFresh_used hfresh e.anomalies
  have hcomm : (r.entries.filter (·.1 ≠ s)).filter (·.2.isFresh now ttl) =
      (r.entries.filter (·.2.isFresh now ttl)).filter (·.1 ≠ s) := by
    rw [List.filter_filter, List.filter_filter]
    exact List.filter_congr fun p _ => Bool.and_comm ..
  simp only [touch, he, hget]
  simp only [live, erase]
  rw [List.filter_cons_of_pos (by exact hused), hcomm]

theorem live_erase (hn : (r.entries.map Prod.fst).Nodup) (he : r.get? s = some e)
    (hstale : ¬ e.isFresh now ttl) : (r.erase s).live now ttl = r.live now ttl := by
  simp only [live, erase, List.filter_filter]
  congr 1
  refine List.filter_congr fun p hp => ?_
  by_cases hps : p.1 = s
  · have hget : r.get? s = some p.2 := hps ▸ get?_of_mem hn hp
    obtain rfl := Option.some.inj (he.symm.trans hget)
    simp [hps, hstale]
  · simp [hps]

end Recency

namespace SliceCache

/-! ### Looking up -/

namespace Lookup

/-- The look-up with its fresh entries alone. -/
def live (l : Lookup) (now ttl : Nat) : Lookup := { l with entries := l.entries.live now ttl }

variable {l : Lookup}

theorem live_derive (hn : (l.entries.entries.map Prod.fst).Nodup) (s : Slice) :
    (l.derive now ttl s).live now ttl = (l.live now ttl).derive now ttl s := by
  have hcontainer :
      (l.live now ttl).entries.container? s now ttl = l.entries.container? s now ttl :=
    l.entries.container?_live
  simp only [derive, hcontainer]
  cases hc : l.entries.container? s now ttl with
  | none => rfl
  | some p =>
    obtain ⟨hmem, hfresh, -⟩ := l.entries.of_container?_eq_some hc
    have htouch := Recency.live_touch hn (Recency.get?_of_mem hn hmem) hfresh
    simp only [live, htouch]

theorem live_step (hn : (l.entries.entries.map Prod.fst).Nodup) (s : Slice) :
    (l.step now ttl s).live now ttl = (l.live now ttl).step now ttl s := by
  have hget : (l.live now ttl).entries.get? s = (l.entries.get? s).filter (·.isFresh now ttl) :=
    Recency.get?_live hn
  have hanswers : (l.live now ttl).answers = l.answers := rfl
  simp only [step, hget, hanswers]
  split
  · rfl
  cases he : l.entries.get? s with
  | none => exact live_derive hn s
  | some e =>
    by_cases hfresh : e.isFresh now ttl = true
    · have htouch := Recency.live_touch hn he hfresh
      simp only [Option.filter_some, hfresh, if_true, live, htouch]
    · have herase := Recency.live_erase hn he hfresh
      let erased : Lookup := { l with entries := l.entries.erase s }
      have hderive :
          (erased.derive now ttl s).live now ttl = (erased.live now ttl).derive now ttl s :=
        live_derive ((l.entries.follows_erase s).nodup hn) s
      simp only [Option.filter_some, hfresh, if_false, Bool.false_eq_true]
      rw [hderive]
      simp only [live, herase, erased]

theorem live_foldl (hn : (l.entries.entries.map Prod.fst).Nodup) (slices : List Slice) :
    (slices.foldl (Lookup.step now ttl) l).live now ttl =
      slices.foldl (Lookup.step now ttl) (l.live now ttl) := by
  induction slices generalizing l with
  | nil => rfl
  | cons s rest ih =>
    rw [List.foldl_cons, List.foldl_cons, ← live_step hn]
    exact ih ((lookup_step l now ttl s).1.nodup hn)

end Lookup

/-- The look-up of a cache without its expired entries differs in the entries that it leaves. -/
theorem lookUp_live {c : SliceCache} (hn : (c.entries.entries.map Prod.fst).Nodup) (now : Nat)
    (slices : List Slice) : ∃ entries,
    SliceCache.lookUp { c with entries := c.entries.live now c.settings.idleTtl } now slices =
      ((c.lookUp now slices).1, { (c.lookUp now slices).2 with entries }) := by
  let start : Lookup := { entries := c.entries, stats := c.stats }
  let l := slices.foldl (Lookup.step now c.settings.idleTtl) start
  have h : l.live now c.settings.idleTtl =
      slices.foldl (Lookup.step now c.settings.idleTtl) (start.live now c.settings.idleTtl) :=
    Lookup.live_foldl hn slices
  obtain ⟨kept, hkept, -⟩ :=
    foldl_keep now l.derived { c with entries := l.entries, stats := l.stats }
  obtain ⟨live, hlive, -⟩ := foldl_keep now l.derived
    { c with entries := l.entries.live now c.settings.idleTtl, stats := l.stats }
  refine ⟨live, Prod.ext (congrArg Lookup.answers h).symm ?_⟩
  have hlooked : (c.lookUp now slices).2 = { c with entries := kept, stats := l.stats } := hkept
  rw [hlooked]
  simp only [lookUp]
  have hstart : start.live now c.settings.idleTtl =
      { entries := c.entries.live now c.settings.idleTtl, stats := c.stats } := rfl
  rw [← hstart, ← h]
  exact hlive

end SliceCache

namespace Access

/-! ### Entries and the rest

What a cache does with its store, its permits and its queue is the same whatever its entries are,
once the look-up of a batch is over. -/

/-- The two differ in their entries at most. -/
def Alike (x y : Access) : Prop := ∃ entries, x = { y with cache.entries := entries }

variable {x y : Access}

theorem Alike.free (h : x.Alike y) : x.cache.free = y.cache.free := by
  obtain ⟨entries, rfl⟩ := h
  rfl

theorem Alike.hanging (h : x.Alike y) : x.cache.hanging = y.cache.hanging := by
  obtain ⟨entries, rfl⟩ := h
  rfl

theorem Alike.settings (h : x.Alike y) : x.cache.settings = y.cache.settings := by
  obtain ⟨entries, rfl⟩ := h
  rfl

theorem Alike.settle (h : x.Alike y) (s : Slice) (o : Outcome) :
    (x.settle s o).1 = (y.settle s o).1 ∧ (x.settle s o).2.Alike (y.settle s o).2 := by
  obtain ⟨entries, rfl⟩ := h
  cases o with
  | rows l =>
    refine ⟨rfl, ?_⟩
    simp only [Access.settle]
    split <;> exact ⟨_, rfl⟩
  | failed e => exact ⟨rfl, entries, rfl⟩
  | crashed => exact ⟨rfl, entries, rfl⟩
  | hanging => exact ⟨rfl, entries, rfl⟩

theorem Alike.fetch (h : x.Alike y) (isOpen : Bool) (s : Slice) :
    (x.fetch isOpen s).1 = (y.fetch isOpen s).1 ∧
      (x.fetch isOpen s).2.Alike (y.fetch isOpen s).2 := by
  obtain ⟨entries, rfl⟩ := h
  let called : Access := { y with backend := (y.backend.call s.predicate isOpen).2 }
  exact Alike.settle (y := called) ⟨entries, rfl⟩ s (y.backend.call s.predicate isOpen).1

theorem Alike.fetchAll (h : x.Alike y) (isOpen : Bool) (slices : List Slice) :
    (x.fetchAll isOpen slices).1 = (y.fetchAll isOpen slices).1 ∧
      (x.fetchAll isOpen slices).2.1 = (y.fetchAll isOpen slices).2.1 ∧
      (x.fetchAll isOpen slices).2.2.Alike (y.fetchAll isOpen slices).2.2 := by
  induction slices generalizing x y with
  | nil => exact ⟨rfl, rfl, h⟩
  | cons s rest ih =>
    obtain ⟨hfetched, hnext⟩ := h.fetch isOpen s
    obtain ⟨hrows, hwaiting, hlast⟩ := ih hnext
    simp only [Access.fetchAll, h.free]
    split
    · exact ⟨rfl, rfl, h⟩
    · exact ⟨by rw [hfetched, hrows], hwaiting, hlast⟩

theorem Alike.enqueue (h : x.Alike y) (b : Batch) : (x.enqueue b).Alike (y.enqueue b) := by
  obtain ⟨entries, rfl⟩ := h
  unfold Access.enqueue
  split <;> exact ⟨entries, rfl⟩

theorem Alike.conclude (h : x.Alike y) (r : Except CacheError Answers) :
    (x.conclude r).Alike (y.conclude r) := by
  obtain ⟨entries, rfl⟩ := h
  cases r <;> exact ⟨entries, rfl⟩

/-! ### Batches that come -/

variable {slices : List Slice}

theorem Alike.start (hfound : (x.lookUp slices).1 = (y.lookUp slices).1)
    (hlooked : (x.lookUp slices).2.Alike (y.lookUp slices).2) :
    (x.start slices).1 = (y.start slices).1 ∧ (x.start slices).2.Alike (y.start slices).2 := by
  have hmissed : (x.lookedUp slices).Alike (y.lookedUp slices) := by
    obtain ⟨entries, heq⟩ := hlooked
    unfold lookedUp
    rw [heq, hfound]
    exact ⟨entries, rfl⟩
  obtain ⟨hrows, hwaiting, hlast⟩ := hmissed.fetchAll false (pending slices (y.lookUp slices).1)
  rw [start_eq, start_eq, hfound]
  exact ⟨by rw [hrows, hwaiting], hlast⟩

/-- A batch for which the look-ups find the same gets the same answer, makes the same calls and
comes to stand in the queue in the same way. -/
theorem Alike.getAll (h : x.Alike y) (hfound : (x.lookUp slices).1 = (y.lookUp slices).1)
    (hlooked : (x.lookUp slices).2.Alike (y.lookUp slices).2) :
    (x.getAll slices).1 = (y.getAll slices).1 ∧ (x.getAll slices).2.Alike (y.getAll slices).2 := by
  obtain ⟨hbatch, hnext⟩ := Alike.start hfound hlooked
  unfold Access.getAll
  split
  · exact ⟨rfl, h⟩
  · simp only [hbatch, hnext.settings]
    split
    · exact ⟨rfl, hnext.enqueue _⟩
    next r _ => exact ⟨rfl, (hnext.enqueue _).conclude r⟩

/-- The cache without its expired entries. -/
def withoutExpired (x : Access) : Access :=
  { x with cache.entries := x.cache.entries.live x.backend.clock x.cache.settings.idleTtl }

theorem lookUp_withoutExpired (hn : (x.cache.entries.entries.map Prod.fst).Nodup)
    (slices : List Slice) :
    (x.withoutExpired.lookUp slices).1 = (x.lookUp slices).1 ∧
      (x.withoutExpired.lookUp slices).2.Alike (x.lookUp slices).2 := by
  cases hmode : x.cache.mode with
  | enabled =>
    obtain ⟨entries, hlive⟩ := SliceCache.lookUp_live hn x.backend.clock slices
    rw [lookUp_of_enabled hmode, lookUp_of_enabled (x := x.withoutExpired) hmode]
    have hcache : x.withoutExpired.cache.lookUp x.withoutExpired.backend.clock slices = _ := hlive
    rw [hcache]
    exact ⟨rfl, entries, rfl⟩
  | disabled =>
    rw [lookUp_of_disabled hmode, lookUp_of_disabled (x := x.withoutExpired) hmode]
    exact ⟨rfl, _, rfl⟩

theorem getAll_withoutExpired (hn : (x.cache.entries.entries.map Prod.fst).Nodup)
    (slices : List Slice) :
    (x.withoutExpired.getAll slices).1 = (x.getAll slices).1 ∧
      (x.withoutExpired.getAll slices).2.Alike (x.getAll slices).2 := by
  obtain ⟨hfound, hlooked⟩ := lookUp_withoutExpired hn slices
  exact Alike.getAll ⟨_, rfl⟩ hfound hlooked

/-! ### Batches that wait -/

theorem Alike.serve (h : x.Alike y) (isOpen : Bool) (queue : List Batch) :
    (x.serve isOpen queue).1 = (y.serve isOpen queue).1 ∧
      (x.serve isOpen queue).2.Alike (y.serve isOpen queue).2 := by
  induction queue generalizing x y with
  | nil => exact ⟨rfl, h⟩
  | cons b rest ih =>
    obtain ⟨hrows, hwaiting, hnext⟩ := h.fetchAll isOpen b.waiting
    obtain ⟨hqueue, hlast⟩ := ih hnext
    simp only [Access.serve]
    exact ⟨by rw [hrows, hwaiting, hqueue], hlast⟩

theorem Alike.report (h : x.Alike y) (slices : List Slice) (r : Except CacheError Answers) :
    (x.report slices r).Alike (y.report slices r) := by
  obtain ⟨entries, rfl⟩ := h
  exact ⟨entries, rfl⟩

theorem Alike.answer (h : x.Alike y) (b : Batch) : (x.answer b).Alike (y.answer b) := by
  unfold Access.answer
  rw [h.settings]
  split
  · exact h.enqueue b
  · split
    · exact h.enqueue b
    next r _ => exact ((h.enqueue _).report b.slices r).conclude r

theorem Alike.foldl_answer (h : x.Alike y) (queue : List Batch) :
    (queue.foldl Access.answer x).Alike (queue.foldl Access.answer y) := by
  induction queue generalizing x y with
  | nil => exact h
  | cons b rest ih => exact ih (h.answer b)

theorem Alike.serveQueue (h : x.Alike y) (isOpen : Bool) :
    (x.serveQueue isOpen).Alike (y.serveQueue isOpen) := by
  obtain ⟨entries, rfl⟩ := h
  obtain ⟨hqueue, last, hlast⟩ :=
    Alike.serve (x := { y with cache.entries := entries }) ⟨entries, rfl⟩ isOpen y.cache.queue
  let emptied : Access := { (y.serve isOpen y.cache.queue).2 with cache.queue := [] }
  simp only [Access.serveQueue, hqueue, hlast]
  exact Alike.foldl_answer (y := emptied) ⟨last, rfl⟩ _

theorem Alike.finish (h : x.Alike y) (place : Nat) : (x.finish place).Alike (y.finish place) := by
  obtain ⟨entries, rfl⟩ := h
  cases hs : y.cache.hanging[place]? with
  | none =>
    simp only [Access.finish, hs]
    exact ⟨entries, rfl⟩
  | some s =>
    let freed : Access :=
      { y with
        cache.free := y.cache.free + 1
        cache.hanging := y.cache.hanging.eraseIdx place
        backend := (y.backend.ask s.predicate).2 }
    simp only [Access.finish, hs]
    exact (Alike.settle (y := freed) ⟨entries, rfl⟩ s (y.backend.ask s.predicate).1).2

theorem Alike.foldl_finish (h : x.Alike y) (l : List Slice) :
    (l.foldl (fun x _ => x.finish 0) x).Alike (l.foldl (fun x _ => x.finish 0) y) := by
  induction l generalizing x y with
  | nil => exact h
  | cons s rest ih => exact ih (h.finish 0)

/-- What a landing does to the queue and the late answers does not depend on the entries. -/
theorem Alike.land (h : x.Alike y) (place : Nat) : (x.land place).Alike (y.land place) := by
  unfold Access.land
  rw [h.hanging]
  split
  · exact (h.finish place).serveQueue false
  · exact h

theorem Alike.release (h : x.Alike y) : x.release.Alike y.release := by
  unfold Access.release
  rw [h.hanging]
  exact (h.foldl_finish _).serveQueue true

end Access
end Outlier
