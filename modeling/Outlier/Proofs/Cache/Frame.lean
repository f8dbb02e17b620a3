import Outlier.Cache

/-! # What work on a cache leaves alone

Whatever a cache does with the store behind it, its settings, mode and capacity stay, the stored
anomalies and the script of the store stay, time does not go back, and the list of calls made so far
only grows (`Access.Follows`). Each operation comes with that fact, which is then used by name. -/

namespace Outlier

/-- The second state of a store comes from the first by calls and as time passes. -/
structure Backend.Follows (b b' : Backend) : Prop where
  anomalies : b'.memory.anomalies = b.memory.anomalies
  script : b'.script = b.script
  clock : b.clock ≤ b'.clock
  asked : b.asked <+: b'.asked

namespace Backend

theorem Follows.refl (b : Backend) : b.Follows b := ⟨rfl, rfl, Nat.le_refl _, List.prefix_refl _⟩

theorem Follows.trans {b b' b'' : Backend} (h : b.Follows b') (k : b'.Follows b'') :
    b.Follows b'' where
  anomalies := k.anomalies.trans h.anomalies
  script := k.script.trans h.script
  clock := Nat.le_trans h.clock k.clock
  asked := h.asked.trans k.asked

theorem Follows.asked_eq {b b' : Backend} (h : b.Follows b') :
    b'.asked = b.asked ++ b'.asked.drop b.asked.length :=
  (List.prefix_iff_eq_append.1 h.asked).symm

theorem follows_ask (b : Backend) (p : Predicate) : b.Follows (b.ask p).2 where
  anomalies := b.anomalies_ask p
  script := b.script_ask p
  clock := Nat.le_of_eq (b.clock_ask p).symm
  asked := (b.asked_ask p).symm ▸ List.prefix_refl _

theorem follows_call (b : Backend) (p : Predicate) (isOpen : Bool) :
    b.Follows (b.call p isOpen).2 where
  anomalies := b.anomalies_call p isOpen
  script := b.script_call p isOpen
  clock := Nat.le_of_eq (b.clock_call p isOpen).symm
  asked := ⟨[p], (b.asked_call p isOpen).symm⟩

theorem follows_advance (b : Backend) (millis : Nat) : b.Follows (b.advance millis) :=
  ⟨rfl, rfl, Nat.le_add_right .., List.prefix_refl _⟩

end Backend

namespace Recency

/-- The second map comes from the first by uses and changes of entries. -/
structure Follows (r r' : Recency) : Prop where
  capacity : r'.capacity = r.capacity
  nodup : (r.entries.map Prod.fst).Nodup → (r'.entries.map Prod.fst).Nodup

variable {r r' r'' : Recency}

theorem Follows.refl (r : Recency) : r.Follows r := ⟨rfl, id⟩

theorem Follows.trans (h : r.Follows r') (k : r'.Follows r'') : r.Follows r'' :=
  ⟨k.capacity.trans h.capacity, k.nodup ∘ h.nodup⟩

theorem nodup_cons_erase (h : (r.entries.map Prod.fst).Nodup) (s : Slice) (e : Entry) :
    (((s, e) :: (r.erase s).entries).map Prod.fst).Nodup := by
  refine List.nodup_cons.2 ⟨fun hs => ?_, (List.filter_sublist.map _).nodup h⟩
  obtain ⟨q, hq, hqs⟩ := List.mem_map.1 hs
  simpa [hqs] using (List.mem_filter.1 hq).2

theorem follows_erase (r : Recency) (s : Slice) : r.Follows (r.erase s) :=
  ⟨rfl, (List.filter_sublist.map _).nodup⟩

theorem follows_push (r : Recency) (s : Slice) (e : Entry) : r.Follows (r.push s e) :=
  ⟨rfl, fun h => ((List.take_sublist ..).map _).nodup (nodup_cons_erase h s e)⟩

theorem follows_touch (r : Recency) (s : Slice) (now : Nat) : r.Follows (r.touch s now) := by
  unfold touch
  split
  · exact ⟨rfl, fun h => nodup_cons_erase h s _⟩
  · exact .refl r

theorem follows_sublist (r : Recency) {l : List (Slice × Entry)} (h : l.Sublist r.entries) :
    r.Follows { r with entries := l } :=
  ⟨rfl, (h.map _).nodup⟩

end Recency

namespace SliceCache

/-! ### Cleaning up -/

/-- Cleaning up at once: the slices with expired entries go, and of the others those beyond the
limit. -/
theorem cleanUp_eq (c : SliceCache) (now : Nat) :
    c.cleanUp now =
      let expired := c.entries.expired now c.settings.idleTtl
      let others := c.entries.entries.filter (·.1 ∉ expired)
      let evicted := expired.length + (others.length - c.settings.maxEntries)
      (evicted,
        { c with
          entries := { c.entries with entries := others.take c.settings.maxEntries }
          stats.evictions := c.stats.evictions + evicted }) := by
  simp only [cleanUp, Recency.eraseAll_eq, Recency.shrink_eq]
  rfl

/-- Cleaning up drops entries and counts them; those that are left stay in their order. -/
theorem exists_cleanUp (c : SliceCache) (now : Nat) :
    ∃ l : List (Slice × Entry), l.Sublist c.entries.entries ∧
      (c.cleanUp now).2 =
        { c with
          entries := { c.entries with entries := l }
          stats.evictions := c.stats.evictions + (c.cleanUp now).1 } := by
  rw [cleanUp_eq]
  exact ⟨_, (List.take_sublist _ _).trans List.filter_sublist, rfl⟩

/-! ### Looking up -/

theorem lookup_derive (l : Lookup) (now ttl : Nat) (s : Slice) :
    l.entries.Follows (l.derive now ttl s).entries ∧
      (l.derive now ttl s).stats.failedBatches = l.stats.failedBatches := by
  unfold Lookup.derive
  split
  · exact ⟨.refl _, rfl⟩
  · exact ⟨Recency.follows_touch .., rfl⟩

theorem lookup_step (l : Lookup) (now ttl : Nat) (s : Slice) :
    l.entries.Follows (l.step now ttl s).entries ∧
      (l.step now ttl s).stats.failedBatches = l.stats.failedBatches := by
  unfold Lookup.step
  split
  · exact ⟨.refl _, rfl⟩
  · split
    · exact lookup_derive l now ttl s
    · split
      · exact ⟨Recency.follows_touch .., rfl⟩
      · obtain ⟨hentries, hfailed⟩ :=
          lookup_derive { l with entries := l.entries.erase s } now ttl s
        exact ⟨(l.entries.follows_erase s).trans hentries, hfailed⟩

theorem lookup_foldl (l : Lookup) (now ttl : Nat) (slices : List Slice) :
    l.entries.Follows (slices.foldl (Lookup.step now ttl) l).entries ∧
      (slices.foldl (Lookup.step now ttl) l).stats.failedBatches = l.stats.failedBatches := by
  induction slices generalizing l with
  | nil => exact ⟨.refl _, rfl⟩
  | cons s rest ih =>
    have hs := lookup_step l now ttl s
    exact ⟨hs.1.trans (ih _).1, (ih _).2.trans hs.2⟩

/-- Keeping answers as entries changes the entries alone. -/
theorem foldl_keep (now : Nat) (l : Answers) (c : SliceCache) :
    ∃ entries, l.foldl (fun c p => c.keep now p.1 p.2) c = { c with entries } ∧
      c.entries.Follows entries := by
  induction l generalizing c with
  | nil => exact ⟨c.entries, rfl, .refl _⟩
  | cons p l ih =>
    obtain ⟨entries, h, hkept⟩ := ih (c.keep now p.1 p.2)
    exact ⟨entries, h, (c.entries.follows_push p.1 _).trans hkept⟩

theorem lookUp_eq (c : SliceCache) (now : Nat) (slices : List Slice) : ∃ entries stats,
    (c.lookUp now slices).2 = { c with entries, stats } ∧
      c.entries.Follows entries ∧
      stats.failedBatches = c.stats.failedBatches := by
  obtain ⟨hfound, hfailed⟩ := lookup_foldl { entries := c.entries, stats := c.stats } now
    c.settings.idleTtl slices
  simp only [lookUp]
  obtain ⟨entries, h, hkept⟩ := foldl_keep now
    (slices.foldl (Lookup.step now c.settings.idleTtl)
      { entries := c.entries, stats := c.stats }).derived _
  rw [h]
  exact ⟨entries, _, rfl, hfound.trans hkept, hfailed⟩

end SliceCache

namespace Access

/-- The second state comes from the first by work on the cache. -/
structure Follows (x y : Access) : Prop
    extends toBackend : Backend.Follows x.backend y.backend where
  settings : y.cache.settings = x.cache.settings
  mode : y.cache.mode = x.cache.mode
  recency : x.cache.entries.Follows y.cache.entries

namespace Follows

variable {x y z : Access}

theorem refl (x : Access) : x.Follows x := ⟨.refl x.backend, rfl, rfl, .refl _⟩

theorem trans (h : x.Follows y) (k : y.Follows z) : x.Follows z where
  toBackend := h.toBackend.trans k.toBackend
  settings := k.settings.trans h.settings
  mode := k.mode.trans h.mode
  recency := h.recency.trans k.recency

theorem foldl {α : Type} {f : Access → α → Access} (hf : ∀ (x : Access) a, x.Follows (f x a))
    (l : List α) (x : Access) : x.Follows (l.foldl f x) := by
  induction l generalizing x with
  | nil => exact refl x
  | cons a l ih => exact (hf x a).trans (ih (f x a))

end Follows

variable (x : Access)

/-! ### Fetching -/

theorem follows_settle (s : Slice) (o : Outcome) : x.Follows (x.settle s o).2 := by
  cases o with
  | rows l =>
    simp only [settle]
    split
    · exact ⟨.refl x.backend, rfl, rfl, x.cache.entries.follows_push s _⟩
    · exact .refl x
  | failed e => exact .refl x
  | crashed => exact .refl x
  | hanging => exact ⟨.refl x.backend, rfl, rfl, .refl _⟩

theorem follows_fetch (isOpen : Bool) (s : Slice) : x.Follows (x.fetch isOpen s).2 := by
  have hcall : x.Follows { x with backend := (x.backend.call s.predicate isOpen).2 } :=
    ⟨x.backend.follows_call s.predicate isOpen, rfl, rfl, .refl _⟩
  exact hcall.trans (follows_settle _ s _)

theorem follows_fetchAll (isOpen : Bool) (slices : List Slice) :
    x.Follows (x.fetchAll isOpen slices).2.2 := by
  induction slices generalizing x with
  | nil => exact .refl x
  | cons s rest ih =>
    unfold fetchAll
    split
    · exact .refl x
    · exact (x.follows_fetch isOpen s).trans (ih _)

theorem backend_settle (s : Slice) (o : Outcome) : (x.settle s o).2.backend = x.backend := by
  cases o with
  | rows l =>
    simp only [settle]
    split <;> rfl
  | _ => rfl

theorem cache_settle (s : Slice) (o : Outcome) : ∃ entries free hanging,
    (x.settle s o).2.cache = { x.cache with entries, free, hanging } := by
  cases o with
  | rows l =>
    simp only [settle]
    split <;> exact ⟨_, _, _, rfl⟩
  | failed e => exact ⟨_, _, _, rfl⟩
  | crashed => exact ⟨_, _, _, rfl⟩
  | hanging => exact ⟨_, _, _, rfl⟩

theorem cache_fetchAll (isOpen : Bool) (slices : List Slice) : ∃ entries free hanging,
    (x.fetchAll isOpen slices).2.2.cache = { x.cache with entries, free, hanging } := by
  induction slices generalizing x with
  | nil => exact ⟨_, _, _, rfl⟩
  | cons s rest ih =>
    unfold fetchAll
    split
    · exact ⟨_, _, _, rfl⟩
    · obtain ⟨entries, free, hanging, h⟩ := ih (x.fetch isOpen s).2
      obtain ⟨_, _, _, hs⟩ := cache_settle
        { x with backend := (x.backend.call s.predicate isOpen).2 } s _
      refine ⟨entries, free, hanging, h.trans ?_⟩
      exact congrArg (fun c : SliceCache => { c with entries, free, hanging }) hs

theorem backend_fetch (isOpen : Bool) (s : Slice) :
    (x.fetch isOpen s).2.backend = (x.backend.call s.predicate isOpen).2 :=
  backend_settle _ s _

theorem asked_fetchAll (isOpen : Bool) (slices : List Slice) :
    (x.fetchAll isOpen slices).2.2.backend.asked =
      x.backend.asked ++ (x.fetchAll isOpen slices).1.map (·.1.predicate) := by
  induction slices generalizing x with
  | nil => simp [fetchAll]
  | cons s rest ih =>
    unfold fetchAll
    split
    · simp
    · simp only [ih, List.map_cons]
      rw [backend_fetch, Backend.asked_call, List.append_assoc]
      rfl

/-- The slices that were fetched and those that wait are all slices, in order. -/
theorem keys_fetchAll (isOpen : Bool) (slices : List Slice) :
    (x.fetchAll isOpen slices).1.map Prod.fst ++ (x.fetchAll isOpen slices).2.1 = slices := by
  induction slices generalizing x with
  | nil => rfl
  | cons s rest ih =>
    unfold fetchAll
    split
    · rfl
    · simp only [List.map_cons, List.cons_append, ih]

/-! ### Answering -/

theorem follows_failBatch (e : CacheError) : x.Follows (x.failBatch e) :=
  ⟨x.backend.follows_advance _, rfl, rfl, .refl _⟩

theorem follows_conclude (r : Except CacheError Answers) : x.Follows (x.conclude r) := by
  cases r with
  | ok a => exact .refl x
  | error e => exact x.follows_failBatch e

theorem enqueue_of_nil {b : Batch} (h : b.waiting = []) : x.enqueue b = x := by
  rw [enqueue, h]
  rfl

theorem enqueue_of_ne_nil {b : Batch} (h : b.waiting ≠ []) :
    x.enqueue b = { x with cache.queue := x.cache.queue ++ [b] } := by
  rw [enqueue, if_neg fun he => h (List.isEmpty_iff.1 he)]

theorem follows_enqueue (b : Batch) : x.Follows (x.enqueue b) := by
  unfold enqueue
  split
  · exact .refl x
  · exact ⟨.refl x.backend, rfl, rfl, .refl _⟩

theorem lookUp_eq (slices : List Slice) : ∃ entries stats,
    (x.lookUp slices).2 = { x with cache := { x.cache with entries, stats } } ∧
      x.cache.entries.Follows entries ∧
      stats.failedBatches = x.cache.stats.failedBatches := by
  unfold lookUp
  split
  · obtain ⟨entries, stats, h, hkept⟩ := x.cache.lookUp_eq x.backend.clock slices
    exact ⟨entries, stats, congrArg (fun cache => { x with cache }) h, hkept⟩
  · exact ⟨_, _, rfl, .refl _, rfl⟩

theorem follows_lookUp (slices : List Slice) : x.Follows (x.lookUp slices).2 := by
  obtain ⟨entries, stats, h, hentries, -⟩ := x.lookUp_eq slices
  rw [h]
  exact ⟨.refl x.backend, rfl, rfl, hentries⟩

theorem follows_countMisses (n : Nat) : x.Follows (x.countMisses n) :=
  ⟨.refl x.backend, rfl, rfl, .refl _⟩

theorem follows_start (slices : List Slice) : x.Follows (x.start slices).2 :=
  ((x.follows_lookUp slices).trans (follows_countMisses _ _)).trans (follows_fetchAll _ _ _)

theorem follows_getAll (slices : List Slice) : x.Follows (x.getAll slices).2 := by
  unfold getAll
  split
  · exact .refl x
  · have h := x.follows_start slices
    dsimp only
    split
    · exact h.trans (follows_enqueue _ _)
    · exact h.trans ((follows_enqueue _ _).trans (follows_conclude _ _))

/-! ### Calls of a batch

A batch calls the store for its fetches and for nothing else. -/

theorem backend_lookUp (slices : List Slice) : (x.lookUp slices).2.backend = x.backend := by
  obtain ⟨entries, stats, h, -⟩ := x.lookUp_eq slices
  rw [h]

theorem asked_enqueue (b : Batch) : (x.enqueue b).backend.asked = x.backend.asked := by
  unfold enqueue
  split <;> rfl

theorem asked_conclude (r : Except CacheError Answers) :
    (x.conclude r).backend.asked = x.backend.asked := by
  cases r <;> rfl

theorem asked_start (slices : List Slice) : (x.start slices).2.backend.asked =
    x.backend.asked ++ (x.start slices).1.fetched.map (·.1.predicate) := by
  have h := asked_fetchAll
    ((x.lookUp slices).2.countMisses (pending slices (x.lookUp slices).1).length)
    false (pending slices (x.lookUp slices).1)
  have hb : ((x.lookUp slices).2.countMisses (pending slices (x.lookUp slices).1).length).backend =
      x.backend := x.backend_lookUp slices
  rw [hb] at h
  exact h

theorem asked_getAll (slices : List Slice) (h : slices.findSome? Slice.fault? = none) :
    (x.getAll slices).2.backend.asked = (x.start slices).2.backend.asked := by
  unfold getAll
  rw [h]
  dsimp only
  split
  · exact asked_enqueue _ _
  · exact (asked_conclude _ _).trans (asked_enqueue _ _)

/-! ### Waiting -/

theorem follows_serve (isOpen : Bool) (queue : List Batch) :
    x.Follows (x.serve isOpen queue).2 := by
  induction queue generalizing x with
  | nil => exact .refl x
  | cons b rest ih => exact (x.follows_fetchAll isOpen b.waiting).trans (ih _)

theorem follows_report (slices : List Slice) (r : Except CacheError Answers) :
    x.Follows (x.report slices r) :=
  ⟨.refl x.backend, rfl, rfl, .refl _⟩

theorem follows_answer (b : Batch) : x.Follows (x.answer b) := by
  unfold answer
  split
  · exact x.follows_enqueue b
  · split
    · exact x.follows_enqueue b
    · refine (x.follows_enqueue _).trans (.trans (follows_report _ _ _) (follows_conclude _ _))

theorem follows_serveQueue (isOpen : Bool) : x.Follows (x.serveQueue isOpen) := by
  refine (x.follows_serve isOpen x.cache.queue).trans (.trans ?_ (.foldl follows_answer _ _))
  exact ⟨.refl _, rfl, rfl, .refl _⟩

theorem follows_finish (place : Nat) : x.Follows (x.finish place) := by
  unfold finish
  split
  · exact .refl x
  next s _ =>
    refine .trans ?_ (follows_settle _ s _)
    exact ⟨x.backend.follows_ask s.predicate, rfl, rfl, .refl _⟩

theorem cache_finish (place : Nat) : ∃ entries free hanging,
    (x.finish place).cache = { x.cache with entries, free, hanging } := by
  unfold finish
  split
  · exact ⟨_, _, _, rfl⟩
  next s _ =>
    obtain ⟨entries, free, hanging, h⟩ := cache_settle { x with
      cache.free := x.cache.free + 1
      cache.hanging := x.cache.hanging.eraseIdx place
      backend := (x.backend.ask s.predicate).2 } s (x.backend.ask s.predicate).1
    exact ⟨entries, free, hanging, h⟩

theorem follows_land (place : Nat) : x.Follows (x.land place) := by
  unfold land
  split
  · exact (x.follows_finish place).trans (follows_serveQueue _ false)
  · exact .refl x

/-- Without hanging calls and waiting fetches there is nothing to release. -/
theorem release_of_idle (hh : x.cache.hanging = []) (hq : x.cache.queue = []) : x.release = x := by
  obtain ⟨c, b⟩ := x
  cases c
  cases hh
  cases hq
  rfl

theorem follows_release : x.Follows x.release :=
  (Follows.foldl (fun x _ => x.follows_finish 0) _ _).trans (follows_serveQueue _ true)

end Access
end Outlier
