import Outlier.Proofs.Cache.Order
import Outlier.Proofs.Cache.Settlement
import Outlier.Proofs.Slice.Exactness

/-! # Slices that a cache has to fetch

A slice is covered while some fresh entry's slice contains it (`Recency.Covers`). While the slices
of a batch are looked up one after the other, entries are moved to the front, stamped anew and
dropped, but the fresh ones stay and no other becomes fresh, so each slice finds what it would have
found at the beginning (`Lookup.Finds`). A batch therefore fetches exactly its distinct slices that
are not covered, each once (`Access.fetchesUncovered`). -/

namespace Outlier

variable {now ttl : Nat} {s t : Slice} {rows : List Anomaly}

namespace Recency

/-- A fresh entry's slice contains the slice. -/
def Covers (r : Recency) (now ttl : Nat) (t : Slice) : Prop :=
  ∃ p ∈ r.entries, p.2.isFresh now ttl ∧ p.1.contains t

/-- The anomalies are those of a fresh entry of the slice, or what the slice selects from those of a
fresh entry whose slice contains it. -/
def Gives (r : Recency) (now ttl : Nat) (t : Slice) (rows : List Anomaly) : Prop :=
  ∃ p ∈ r.entries, p.2.isFresh now ttl ∧
    (p.1 = t ∧ rows = p.2.anomalies ∨ p.1.contains t ∧ rows = t.select p.2.anomalies)

theorem Gives.covers {r : Recency} (h : r.Gives now ttl t rows) : r.Covers now ttl t := by
  obtain ⟨p, hp, hfresh, ⟨rfl, -⟩ | ⟨hcontains, -⟩⟩ := h
  · exact ⟨p, hp, hfresh, Slice.contains_refl _⟩
  · exact ⟨p, hp, hfresh, hcontains⟩

end Recency

namespace SliceCache

namespace Lookup

/-! ### Fresh entries during a look-up -/

theorem hasFresh_of_mem {r : Recency} (hn : (r.entries.map Prod.fst).Nodup) {p : Slice × Entry}
    (hp : p ∈ r.entries) (hfresh : p.2.isFresh now ttl) : HasFresh now ttl p.1 p.2.anomalies r :=
  ⟨p.2, Recency.get?_of_mem hn hp, hfresh, rfl⟩

theorem hasFresh_touch {r : Recency} {e : Entry} (he : r.get? s = some e)
    (hfresh : e.isFresh now ttl) :
    HasFresh now ttl t rows (r.touch s now) ↔ HasFresh now ttl t rows r := by
  refine ⟨fun h => ?_, fun h => h.touch s⟩
  obtain ⟨e', he', hfresh', hrows⟩ := h
  rw [Recency.get?_touch] at he'
  split at he'
  next heq =>
    rw [he] at he'
    obtain rfl := Option.some.inj he'
    exact ⟨e, heq ▸ he, hfresh, hrows⟩
  next => exact ⟨e', he', hfresh', hrows⟩

theorem hasFresh_erase {r : Recency} {e : Entry} (he : r.get? s = some e)
    (hstale : ¬ e.isFresh now ttl) :
    HasFresh now ttl t rows (r.erase s) ↔ HasFresh now ttl t rows r := by
  by_cases hts : t = s
  · subst hts
    constructor
    · rintro ⟨e', he', -⟩
      rw [Recency.get?_erase_self] at he'
      cases he'
    · rintro ⟨e', he', hfresh, -⟩
      obtain rfl := Option.some.inj (he.symm.trans he')
      exact absurd hfresh hstale
  · rw [HasFresh, Recency.get?_erase_of_ne _ hts, HasFresh]

/-- The look-up of the slices `done` left the fresh entries of `r`, and answered from them exactly
the slices that they cover. -/
structure Finds (now ttl : Nat) (r : Recency) (done : List Slice) (l : Lookup) : Prop where
  nodup : (l.entries.entries.map Prod.fst).Nodup
  fresh : ∀ t rows, HasFresh now ttl t rows l.entries ↔ HasFresh now ttl t rows r
  answers : ∀ q ∈ l.answers, r.Gives now ttl q.1 q.2
  keys : ∀ t, t ∈ l.answers.map Prod.fst ↔ t ∈ done ∧ r.Covers now ttl t

namespace Finds

variable {r : Recency} {done : List Slice} {l l' : Lookup}

/-- A fresh entry is one of those at the beginning, up to the time of its last use. -/
theorem exists_mem (h : l.Finds now ttl r done) {p : Slice × Entry} (hp : p ∈ l.entries.entries)
    (hfresh : p.2.isFresh now ttl) :
    ∃ e, (p.1, e) ∈ r.entries ∧ e.isFresh now ttl ∧ e.anomalies = p.2.anomalies := by
  obtain ⟨e, he, hfresh', hrows⟩ := (h.fresh _ _).1 (hasFresh_of_mem h.nodup hp hfresh)
  exact ⟨e, r.mem_of_get? he, hfresh', hrows⟩

theorem covers (h : l.Finds now ttl r done) (hn : (r.entries.map Prod.fst).Nodup)
    (hs : r.Covers now ttl s) : l.entries.Covers now ttl s := by
  obtain ⟨p, hp, hfresh, hcontains⟩ := hs
  obtain ⟨e, he, hfresh', -⟩ := (h.fresh _ _).2 (hasFresh_of_mem hn hp hfresh)
  exact ⟨(p.1, e), l.entries.mem_of_get? he, hfresh', hcontains⟩

theorem pass (h : l.Finds now ttl r done)
    (hs : r.Covers now ttl s → s ∈ l.answers.map Prod.fst) : l.Finds now ttl r (done ++ [s]) where
  nodup := h.nodup
  fresh := h.fresh
  answers := h.answers
  keys t := by
    rw [List.mem_append, List.mem_singleton]
    constructor
    · intro ht
      obtain ⟨hdone, hcovers⟩ := (h.keys t).1 ht
      exact ⟨.inl hdone, hcovers⟩
    · rintro ⟨hdone | rfl, hcovers⟩
      · exact (h.keys t).2 ⟨hdone, hcovers⟩
      · exact hs hcovers

theorem answer (h : l.Finds now ttl r done) (hs : r.Gives now ttl s rows)
    (hnodup : (l'.entries.entries.map Prod.fst).Nodup)
    (hfresh : ∀ t rows, HasFresh now ttl t rows l'.entries ↔ HasFresh now ttl t rows l.entries)
    (hanswers : l'.answers = l.answers ++ [(s, rows)]) : l'.Finds now ttl r (done ++ [s]) where
  nodup := hnodup
  fresh t rows := (hfresh t rows).trans (h.fresh t rows)
  answers q hq := by
    rw [hanswers] at hq
    rcases List.mem_append.1 hq with hq | hq
    · exact h.answers q hq
    · obtain rfl := List.mem_singleton.1 hq
      exact hs
  keys t := by
    rw [hanswers, List.map_append, List.mem_append, List.mem_append, h.keys]
    constructor
    · rintro (⟨hdone, hcovers⟩ | ht)
      · exact ⟨.inl hdone, hcovers⟩
      · obtain rfl : t = s := by simpa using ht
        exact ⟨.inr (List.mem_singleton_self t), hs.covers⟩
    · rintro ⟨hdone | ht, hcovers⟩
      · exact .inl ⟨hdone, hcovers⟩
      · exact .inr (by simpa using ht)

theorem derive (h : l.Finds now ttl r done) (hn : (r.entries.map Prod.fst).Nodup) (s : Slice) :
    (l.derive now ttl s).Finds now ttl r (done ++ [s]) := by
  unfold Lookup.derive
  split
  next hnone =>
    refine h.pass fun hcovers => ?_
    obtain ⟨p, hp, hfresh, hcontains⟩ := h.covers hn hcovers
    have hp' := List.find?_eq_none.1 hnone p hp
    simp [hfresh, hcontains] at hp'
  next key e hc =>
    obtain ⟨hmem, hfresh, hcontains⟩ := l.entries.of_container?_eq_some hc
    obtain ⟨e', he', hfresh', hrows⟩ := h.exists_mem hmem hfresh
    have hgives : r.Gives now ttl s (s.select e.anomalies) :=
      ⟨(key, e'), he', hfresh', .inr ⟨hcontains, by rw [hrows]⟩⟩
    have hget := Recency.get?_of_mem h.nodup hmem
    exact h.answer hgives ((l.entries.follows_touch key now).nodup h.nodup)
      (fun _ _ => hasFresh_touch hget hfresh) rfl

theorem step (h : l.Finds now ttl r done) (hn : (r.entries.map Prod.fst).Nodup) (s : Slice) :
    (l.step now ttl s).Finds now ttl r (done ++ [s]) := by
  unfold Lookup.step
  split
  next hsome =>
    refine h.pass fun _ => Classical.byContradiction fun hs => ?_
    rw [lookup_eq_none_iff_not_mem.2 hs] at hsome
    cases hsome
  next =>
    split
    · exact h.derive hn s
    next e he =>
      split
      next hfresh =>
        obtain ⟨e', he', hfresh', hrows⟩ := h.exists_mem (l.entries.mem_of_get? he) hfresh
        have hgives : r.Gives now ttl s e.anomalies :=
          ⟨(s, e'), he', hfresh', .inl ⟨rfl, hrows.symm⟩⟩
        exact h.answer hgives ((l.entries.follows_touch s now).nodup h.nodup)
          (fun _ _ => hasFresh_touch he hfresh) rfl
      next hstale =>
        have herased : Finds now ttl r done { l with entries := l.entries.erase s } :=
          { h with
            nodup := (l.entries.follows_erase s).nodup h.nodup
            fresh := fun t rows => (hasFresh_erase he hstale).trans (h.fresh t rows) }
        exact herased.derive hn s

theorem foldl (h : l.Finds now ttl r done) (hn : (r.entries.map Prod.fst).Nodup)
    (slices : List Slice) :
    (slices.foldl (Lookup.step now ttl) l).Finds now ttl r (done ++ slices) := by
  induction slices generalizing l done with
  | nil => simpa using h
  | cons s rest ih => simpa using ih (h.step hn s)

end Finds

end Lookup

/-- A look-up answers exactly the slices that fresh entries cover, from such entries. -/
theorem finds_lookUp {c : SliceCache} (hn : (c.entries.entries.map Prod.fst).Nodup)
    (now : Nat) (slices : List Slice) :
    (∀ q ∈ (c.lookUp now slices).1, c.entries.Gives now c.settings.idleTtl q.1 q.2) ∧
      ∀ t, t ∈ (c.lookUp now slices).1.map Prod.fst ↔
        t ∈ slices ∧ c.entries.Covers now c.settings.idleTtl t := by
  have hstart : Lookup.Finds now c.settings.idleTtl c.entries []
      { entries := c.entries, stats := c.stats } :=
    ⟨hn, fun _ _ => .rfl, nofun, fun t => by simp⟩
  have h := hstart.foldl hn slices
  rw [List.nil_append] at h
  exact ⟨h.answers, h.keys⟩

/-- The slices whose fetches wait for a permit. -/
def waiting (c : SliceCache) : List Slice := c.queue.flatMap (·.waiting)

end SliceCache

namespace Access

variable {x y z : Access} {slices more more' : List Slice}

/-! ### Looking up -/

/-- What the fresh entries of a cache that keeps any give for a slice. -/
def Gives (x : Access) (t : Slice) (rows : List Anomaly) : Prop :=
  x.cache.mode = .enabled ∧
    x.cache.entries.Gives x.backend.clock x.cache.settings.idleTtl t rows

/-- A fresh entry of the cache contains the slice. -/
def Covers (x : Access) (t : Slice) : Prop :=
  x.cache.entries.Covers x.backend.clock x.cache.settings.idleTtl t

theorem gives_of_lookUp (hn : (x.cache.entries.entries.map Prod.fst).Nodup) :
    ∀ q ∈ (x.lookUp slices).1, x.Gives q.1 q.2 := by
  unfold lookUp
  split
  next hmode =>
    intro q hq
    exact ⟨hmode, (SliceCache.finds_lookUp hn x.backend.clock slices).1 q hq⟩
  next => exact nofun

/-- A cache that keeps nothing has no entries. -/
theorem keys_lookUp (hn : (x.cache.entries.entries.map Prod.fst).Nodup)
    (hempty : x.cache.mode = .disabled → x.cache.entries.entries = []) (t : Slice) :
    t ∈ (x.lookUp slices).1.map Prod.fst ↔ t ∈ slices ∧ x.Covers t := by
  unfold lookUp
  split
  next => exact (SliceCache.finds_lookUp hn x.backend.clock slices).2 t
  next hmode =>
    have hnone : ¬ x.Covers t := by
      rintro ⟨p, hp, -⟩
      rw [hempty hmode] at hp
      exact absurd hp List.not_mem_nil
    simp [hnone]

/-! ### Fetching -/

/-- The slices for which a batch calls the store at once. -/
def called (x : Access) (slices : List Slice) : List Slice :=
  (x.start slices).1.fetched.map Prod.fst

/-- The slices of a batch whose fetches have to wait for a permit. -/
def postponed (x : Access) (slices : List Slice) : List Slice := (x.start slices).1.waiting

theorem called_append_postponed (x : Access) (slices : List Slice) :
    x.called slices ++ x.postponed slices = pending slices (x.lookUp slices).1 :=
  keys_fetchAll ..

theorem queue_start (x : Access) (slices : List Slice) :
    (x.start slices).2.cache.queue = x.cache.queue := by
  obtain ⟨stats, hlooked, -⟩ := x.lookedUp_eq slices
  obtain ⟨_, _, _, hcache⟩ :=
    (x.lookedUp slices).cache_fetchAll false (pending slices (x.lookUp slices).1)
  rw [start_eq, hcache, hlooked]

/-- Nothing happens but that these slices come to wait. -/
structure Queues (more : List Slice) (x y : Access) : Prop where
  asked : y.backend.asked = x.backend.asked
  hanging : y.cache.hanging = x.cache.hanging
  waiting : y.cache.waiting = x.cache.waiting ++ more
  misses : y.cache.stats.misses = x.cache.stats.misses

theorem Queues.refl (x : Access) : x.Queues [] x := ⟨rfl, rfl, (List.append_nil _).symm, rfl⟩

theorem Queues.trans (h : x.Queues more y) (k : y.Queues more' z) :
    x.Queues (more ++ more') z where
  asked := k.asked.trans h.asked
  hanging := k.hanging.trans h.hanging
  waiting := by rw [k.waiting, h.waiting, List.append_assoc]
  misses := k.misses.trans h.misses

theorem queues_enqueue (x : Access) (b : Batch) : x.Queues b.waiting (x.enqueue b) := by
  by_cases hb : b.waiting = []
  · rw [x.enqueue_of_nil hb, hb]
    exact .refl x
  · rw [x.enqueue_of_ne_nil hb]
    exact ⟨rfl, rfl, by simp [SliceCache.waiting], rfl⟩

theorem queues_conclude (x : Access) (r : Except CacheError Answers) :
    x.Queues [] (x.conclude r) := by
  cases r with
  | ok answers => exact .refl x
  | error e => exact ⟨rfl, rfl, (List.append_nil _).symm, rfl⟩

theorem queues_getAll (hv : ∀ t ∈ slices, t.fault? = none) :
    (x.start slices).2.Queues (x.postponed slices) (x.getAll slices).2 := by
  unfold getAll
  rw [List.findSome?_eq_none_iff.2 hv]
  dsimp only
  split
  · exact queues_enqueue _ (x.start slices).1
  next r _ =>
    have hmarked := queues_enqueue (x.start slices).2 { (x.start slices).1 with answered := true }
    have hall := hmarked.trans (queues_conclude _ r)
    rwa [List.append_nil] at hall

theorem waiting_getAll (hv : ∀ t ∈ slices, t.fault? = none) :
    (x.getAll slices).2.cache.waiting = x.cache.waiting ++ x.postponed slices := by
  have hstart : (x.start slices).2.cache.waiting = x.cache.waiting :=
    congrArg (·.flatMap (·.waiting)) (x.queue_start slices)
  rw [(queues_getAll hv).waiting, hstart]

theorem asked_getAll_of_valid (hv : ∀ t ∈ slices, t.fault? = none) :
    (x.getAll slices).2.backend.asked =
      x.backend.asked ++ (x.called slices).map Slice.predicate := by
  rw [x.asked_getAll slices (List.findSome?_eq_none_iff.2 hv), asked_start, called, List.map_map]
  rfl

/-- A batch fetches exactly its distinct slices that no fresh entry covers, each once: some at once,
the others when a permit becomes free. -/
structure FetchesUncovered (x : Access) (slices : List Slice) : Prop where
  /-- The store is called for the first ones. -/
  asked : (x.getAll slices).2.backend.asked =
    x.backend.asked ++ (x.called slices).map Slice.predicate
  /-- The others wait for a permit, after those that were waiting. -/
  waiting : (x.getAll slices).2.cache.waiting = x.cache.waiting ++ x.postponed slices
  once : (x.called slices ++ x.postponed slices).Nodup
  uncovered : ∀ t, t ∈ x.called slices ++ x.postponed slices ↔ t ∈ slices ∧ ¬ x.Covers t
  /-- It does not matter in which order and how often the batch names its slices. -/
  perm : ∀ slices' : List Slice, (∀ t, t ∈ slices' ↔ t ∈ slices) →
    (x.called slices' ++ x.postponed slices').Perm (x.called slices ++ x.postponed slices)

theorem fetchesUncovered (hn : (x.cache.entries.entries.map Prod.fst).Nodup)
    (hempty : x.cache.mode = .disabled → x.cache.entries.entries = [])
    (hv : ∀ t ∈ slices, t.fault? = none) : x.FetchesUncovered slices := by
  have honce (slices : List Slice) : (x.called slices ++ x.postponed slices).Nodup := by
    rw [called_append_postponed]
    exact nodup_eraseDups _
  have huncovered (slices : List Slice) (t : Slice) :
      t ∈ x.called slices ++ x.postponed slices ↔ t ∈ slices ∧ ¬ x.Covers t := by
    rw [called_append_postponed, mem_pending, keys_lookUp hn hempty]
    exact and_congr_right fun ht => not_congr (and_iff_right ht)
  refine ⟨asked_getAll_of_valid hv, waiting_getAll hv, honce slices, huncovered slices, ?_⟩
  intro slices' hsame
  refine (List.perm_ext_iff_of_nodup (honce slices') (honce slices)).2 fun t => ?_
  rw [huncovered, huncovered, hsame]

end Access
end Outlier
