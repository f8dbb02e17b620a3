import Outlier.Proofs.Cache.Frame
import Outlier.Proofs.Sequence
import Outlier.Proofs.Slice.Containment

/-! # Entries and answers as parts of store contents

What a cache keeps and answers for a slice is what the slice selects from some content of the
store. `P` says which contents count, for instance those that the store had when it was asked. A
cache is faithful to `P` when that holds of its entries and of its batches, waiting and answered
ones (`SliceCache.Faithful`). Looking up, cleaning up and answering keep a cache faithful to
whatever it was faithful to; fetching needs that the present content counts, and only if something
is fetched at all. -/

namespace Outlier

variable {P Q : List Anomaly → Prop}

/-! ### What a slice selects -/

/-- The anomalies are those of the slice in some list for which `P` holds. -/
def Slice.SelectsFrom (P : List Anomaly → Prop) (s : Slice) (l : List Anomaly) : Prop :=
  ∃ m, P m ∧ l = s.select m

namespace Slice.SelectsFrom

variable {s t : Slice} {l : List Anomaly}

theorem mono (hPQ : ∀ m, P m → Q m) (h : s.SelectsFrom P l) : s.SelectsFrom Q l := by
  obtain ⟨m, hm, rfl⟩ := h
  exact ⟨m, hPQ m hm, rfl⟩

/-- What a contained slice selects from the anomalies of a slice, it selects from the same list as
the slice did. -/
theorem select (h : s.SelectsFrom P l) (hst : s.contains t) : t.SelectsFrom P (t.select l) := by
  obtain ⟨m, hm, rfl⟩ := h
  exact ⟨m, hm, select_of_contains hst m⟩

end Slice.SelectsFrom

/-- Answers for exactly the slices of a request, all without fault, each once, from lists for which
`P` holds. -/
structure CompleteAnswers (P : List Anomaly → Prop) (slices : List Slice) (answers : Answers) :
    Prop where
  valid : ∀ s ∈ slices, s.fault? = none
  nodup : (answers.map Prod.fst).Nodup
  keys : ∀ s, s ∈ answers.map Prod.fst ↔ s ∈ slices
  rows : ∀ q ∈ answers, q.1.SelectsFrom P q.2

theorem CompleteAnswers.mono {slices : List Slice} {answers : Answers} (hPQ : ∀ m, P m → Q m)
    (h : CompleteAnswers P slices answers) : CompleteAnswers Q slices answers :=
  ⟨h.valid, h.nodup, h.keys, fun q hq => (h.rows q hq).mono hPQ⟩

theorem lookup_eq_none_iff_not_mem {answers : Answers} {s : Slice} :
    answers.lookup s = none ↔ s ∉ answers.map Prod.fst := by
  rw [List.lookup_eq_none_iff]
  constructor
  · intro h hs
    obtain ⟨q, hq, rfl⟩ := List.mem_map.1 hs
    simpa using h q hq
  · intro h q hq
    rw [bne_iff_ne]
    rintro rfl
    exact h (List.mem_map_of_mem hq)

theorem mem_of_lookup {answers : Answers} {s : Slice} {rows : List Anomaly}
    (h : answers.lookup s = some rows) : (s, rows) ∈ answers := by
  obtain ⟨before, after, rfl, -⟩ := List.lookup_eq_some_iff.1 h
  exact List.mem_append_right _ List.mem_cons_self

namespace CompleteAnswers

variable {slices : List Slice} {answers : Answers} {s : Slice}

theorem isSome_lookup (h : CompleteAnswers P slices answers) :
    (answers.lookup s).isSome ↔ s ∈ slices := by
  rw [← h.keys s, Option.isSome_iff_ne_none, Ne, lookup_eq_none_iff_not_mem,
    Classical.not_not]

theorem exists_lookup (h : CompleteAnswers P slices answers) (hs : s ∈ slices) :
    ∃ m, P m ∧ answers.lookup s = some (s.select m) := by
  obtain ⟨rows, hrows⟩ := Option.isSome_iff_exists.1 (h.isSome_lookup.2 hs)
  obtain ⟨m, hm, hsel⟩ := h.rows (s, rows) (mem_of_lookup hrows)
  exact ⟨m, hm, hsel ▸ hrows⟩

theorem length_eq (h : CompleteAnswers P slices answers) :
    answers.length = slices.eraseDups.length := by
  have hperm : (answers.map Prod.fst).Perm slices.eraseDups :=
    (List.perm_ext_iff_of_nodup h.nodup (nodup_eraseDups slices)).2 fun s => by
      rw [h.keys, List.mem_eraseDups]
  simpa using hperm.length_eq

end CompleteAnswers

/-! ### Batches -/

/-- The answers and the fetches of a batch stand for its slices, each once, and its rows come from
lists for which `P` holds. -/
structure Batch.Faithful (P : List Anomaly → Prop) (b : Batch) : Prop where
  valid : ∀ s ∈ b.slices, s.fault? = none
  answers : ∀ q ∈ b.answers, q.1.SelectsFrom P q.2
  fetched : ∀ s l, (s, .rows l) ∈ b.fetched → s.SelectsFrom P l
  nodup : (b.answers.map Prod.fst ++ (b.fetched.map Prod.fst ++ b.waiting)).Nodup
  keys : ∀ s, s ∈ b.answers.map Prod.fst ++ (b.fetched.map Prod.fst ++ b.waiting) ↔ s ∈ b.slices

namespace Batch

/-- A batch of fetches that comes to rows has rows for each of its slices. -/
theorem of_outcome_eq_ok {timeout : Nat} {fs : List (Slice × Fetch)} {rows : Answers}
    (h : outcome timeout fs = some (.ok rows)) : fs = rows.map fun q => (q.1, .rows q.2) := by
  induction fs generalizing rows with
  | nil =>
    obtain rfl : [] = rows := by simpa [outcome] using h
    rfl
  | cons f fs ih =>
    obtain ⟨s, f⟩ := f
    cases f with
    | rows l =>
      simp only [outcome, Option.map_eq_some_iff] at h
      obtain ⟨r, hr, he⟩ := h
      cases r with
      | error e => cases he
      | ok more =>
        obtain rfl : (s, l) :: more = rows := by simpa [Except.map] using he
        rw [ih hr, List.map_cons]
    | failed e => simp [outcome] at h
    | hanging => simp [outcome] at h
    | queued => simp [outcome] at h

variable {b : Batch}

theorem Faithful.mono (hPQ : ∀ m, P m → Q m) (h : b.Faithful P) : b.Faithful Q where
  valid := h.valid
  answers q hq := (h.answers q hq).mono hPQ
  fetched s l hl := (h.fetched s l hl).mono hPQ
  nodup := h.nodup
  keys := h.keys

/-- Answers of a batch are what its look-up found and what its fetches brought. -/
theorem of_verdict_eq_ok {timeout : Nat} {answers : Answers}
    (h : b.verdict timeout = some (.ok answers)) :
    ∃ rows : Answers, answers = b.answers ++ rows ∧
      b.fetched.map Prod.fst ++ b.waiting = rows.map Prod.fst ∧
      ∀ q ∈ rows, (q.1, .rows q.2) ∈ b.fetched := by
  obtain ⟨r, hr, he⟩ := Option.map_eq_some_iff.1 h
  cases r with
  | error e => cases he
  | ok rows =>
    obtain rfl : b.answers ++ rows = answers := by simpa [Except.map] using he
    have hrows := of_outcome_eq_ok hr
    refine ⟨rows, rfl, ?_, fun q hq => ?_⟩
    · have hkeys := congrArg (List.map Prod.fst) hrows
      simpa [Function.comp_def] using hkeys
    · have hmem : (q.1, Fetch.rows q.2) ∈ b.fetched ++ b.waiting.map (·, .queued) := by
        rw [hrows]
        exact List.mem_map.2 ⟨q, hq, rfl⟩
      rcases List.mem_append.1 hmem with hmem | hmem
      · exact hmem
      · simp at hmem

theorem Faithful.complete (h : b.Faithful P) {timeout : Nat} {answers : Answers}
    (hv : b.verdict timeout = some (.ok answers)) : CompleteAnswers P b.slices answers := by
  obtain ⟨rows, rfl, hkeys, hrows⟩ := of_verdict_eq_ok hv
  refine ⟨h.valid, ?_, ?_, ?_⟩
  · rw [List.map_append, ← hkeys]
    exact h.nodup
  · rw [List.map_append, ← hkeys]
    exact h.keys
  · intro q hq
    rcases List.mem_append.1 hq with hq | hq
    · exact h.answers q hq
    · exact h.fetched _ _ (hrows q hq)

end Batch

/-! ### Entries -/

/-- Every entry holds what its slice selects from a list for which `P` holds. -/
def Recency.Faithful (P : List Anomaly → Prop) (r : Recency) : Prop :=
  ∀ q ∈ r.entries, q.1.SelectsFrom P q.2.anomalies

namespace Recency.Faithful

variable {r : Recency}

theorem mono (hPQ : ∀ m, P m → Q m) (h : r.Faithful P) : r.Faithful Q := by
  intro q hq
  exact (h q hq).mono hPQ

theorem push (h : r.Faithful P) {s : Slice} {e : Entry} (he : s.SelectsFrom P e.anomalies) :
    (r.push s e).Faithful P := by
  intro q hq
  rcases r.mem_of_mem_push hq with rfl | hq
  · exact he
  · exact h q hq

theorem erase (h : r.Faithful P) (s : Slice) : (r.erase s).Faithful P := by
  intro q hq
  exact h q (r.mem_of_mem_erase hq)

theorem touch (h : r.Faithful P) (s : Slice) (now : Nat) : (r.touch s now).Faithful P := by
  intro q hq
  obtain ⟨e, he, hl⟩ := r.mem_of_mem_touch hq
  exact hl ▸ h _ he

theorem sublist (h : r.Faithful P) {l : List (Slice × Entry)} (hl : l.Sublist r.entries) :
    Faithful P { r with entries := l } := by
  intro q hq
  exact h q (hl.subset hq)

end Recency.Faithful

namespace SliceCache

/-! ### Looking up -/

namespace Lookup

/-- The look-up of the slices `done` left faithful entries and found faithful answers, for some of
these slices and for each once. -/
structure Faithful (P : List Anomaly → Prop) (done : List Slice) (l : Lookup) : Prop where
  entries : l.entries.Faithful P
  answers : ∀ q ∈ l.answers, q.1.SelectsFrom P q.2
  derived : ∀ q ∈ l.derived, q.1.SelectsFrom P q.2
  nodup : (l.answers.map Prod.fst).Nodup
  keys : ∀ s ∈ l.answers.map Prod.fst, s ∈ done

variable {l : Lookup} {done : List Slice} {s : Slice}

theorem Faithful.skip (h : l.Faithful P done) : l.Faithful P (done ++ [s]) :=
  { h with keys := fun t ht => List.mem_append_left _ (h.keys t ht) }

theorem Faithful.add (h : l.Faithful P done) (hs : s ∉ l.answers.map Prod.fst)
    {rows : List Anomaly} (hrows : s.SelectsFrom P rows) {answers : Answers}
    (ha : answers = l.answers ++ [(s, rows)]) :
    (∀ q ∈ answers, q.1.SelectsFrom P q.2) ∧ (answers.map Prod.fst).Nodup ∧
      ∀ t ∈ answers.map Prod.fst, t ∈ done ++ [s] := by
  subst ha
  refine ⟨fun q hq => ?_, ?_, fun t ht => ?_⟩
  · rcases List.mem_append.1 hq with hq | hq
    · exact h.answers q hq
    · obtain rfl := List.mem_singleton.1 hq
      exact hrows
  · rw [List.map_append]
    exact List.nodup_append.2 ⟨h.nodup, by simp, fun a ha b hb => by
      obtain rfl : b = s := by simpa using hb
      exact fun e => hs (e ▸ ha)⟩
  · rw [List.map_append] at ht
    rcases List.mem_append.1 ht with ht | ht
    · exact List.mem_append_left _ (h.keys t ht)
    · exact List.mem_append_right _ ht

theorem Faithful.derive (h : l.Faithful P done) (hs : s ∉ l.answers.map Prod.fst) (now ttl : Nat) :
    (l.derive now ttl s).Faithful P (done ++ [s]) := by
  unfold Lookup.derive
  split
  · exact h.skip
  next key e hc =>
    obtain ⟨hmem, -, hcontains⟩ := l.entries.of_container?_eq_some hc
    have hrows : s.SelectsFrom P (s.select e.anomalies) := (h.entries _ hmem).select hcontains
    obtain ⟨hanswers, hnodup, hkeys⟩ := h.add hs hrows rfl
    refine ⟨h.entries.touch key now, hanswers, fun q hq => ?_, hnodup, hkeys⟩
    rcases List.mem_append.1 hq with hq | hq
    · exact h.derived q hq
    · obtain rfl := List.mem_singleton.1 hq
      exact hrows

theorem Faithful.step (h : l.Faithful P done) (now ttl : Nat) (s : Slice) :
    (l.step now ttl s).Faithful P (done ++ [s]) := by
  unfold Lookup.step
  split
  · exact h.skip
  next hnone =>
    have hs : s ∉ l.answers.map Prod.fst :=
      lookup_eq_none_iff_not_mem.1 (Option.not_isSome_iff_eq_none.1 hnone)
    split
    · exact h.derive hs now ttl
    next e he =>
      split
      · have hrows : s.SelectsFrom P e.anomalies := h.entries _ (l.entries.mem_of_get? he)
        obtain ⟨hanswers, hnodup, hkeys⟩ := h.add hs hrows rfl
        exact ⟨h.entries.touch s now, hanswers, h.derived, hnodup, hkeys⟩
      · have herased : Faithful P done { l with entries := l.entries.erase s } :=
          { h with entries := h.entries.erase s }
        exact herased.derive hs now ttl

theorem Faithful.foldl (h : l.Faithful P done) (now ttl : Nat) (slices : List Slice) :
    (slices.foldl (Lookup.step now ttl) l).Faithful P (done ++ slices) := by
  induction slices generalizing l done with
  | nil => simpa using h
  | cons s slices ih => simpa using ih (h.step now ttl s)

end Lookup

/-! ### Caches -/

/-- Entries, waiting batches and late answers of the cache come from lists for which `P` holds. -/
structure Faithful (P : List Anomaly → Prop) (c : SliceCache) : Prop where
  entries : c.entries.Faithful P
  queue : ∀ b ∈ c.queue, b.Faithful P
  late : ∀ slices answers, (slices, .ok answers) ∈ c.late → CompleteAnswers P slices answers

variable {c : SliceCache}

theorem faithful_new (settings : Settings) (mode : Mode) : (new settings mode).Faithful P :=
  ⟨nofun, nofun, nofun⟩

theorem Faithful.mono (hPQ : ∀ m, P m → Q m) (h : c.Faithful P) : c.Faithful Q where
  entries := h.entries.mono hPQ
  queue b hb := (h.queue b hb).mono hPQ
  late slices answers ha := (h.late slices answers ha).mono hPQ

theorem Faithful.keep (h : c.Faithful P) {s : Slice} {l : List Anomaly} (hl : s.SelectsFrom P l)
    (now : Nat) : (c.keep now s l).Faithful P :=
  { h with entries := h.entries.push hl }

theorem Faithful.foldl_keep (h : c.Faithful P) {l : Answers} (hl : ∀ q ∈ l, q.1.SelectsFrom P q.2)
    (now : Nat) : (l.foldl (fun c p => c.keep now p.1 p.2) c).Faithful P := by
  induction l generalizing c with
  | nil => exact h
  | cons q l ih =>
    have hq := hl q (List.mem_cons_self ..)
    exact ih (h.keep hq now) fun p hp => hl p (List.mem_cons_of_mem _ hp)

theorem Faithful.lookUp (h : c.Faithful P) (now : Nat) (slices : List Slice) :
    (c.lookUp now slices).2.Faithful P ∧
      (∀ q ∈ (c.lookUp now slices).1, q.1.SelectsFrom P q.2) ∧
      ((c.lookUp now slices).1.map Prod.fst).Nodup ∧
      ∀ s ∈ (c.lookUp now slices).1.map Prod.fst, s ∈ slices := by
  have hstart : Lookup.Faithful P [] { entries := c.entries, stats := c.stats } :=
    ⟨h.entries, nofun, nofun, List.nodup_nil, nofun⟩
  have hl := hstart.foldl now c.settings.idleTtl slices
  rw [List.nil_append] at hl
  refine ⟨Faithful.foldl_keep ?_ hl.derived now, hl.answers, hl.nodup, hl.keys⟩
  exact ⟨hl.entries, h.queue, h.late⟩

theorem Faithful.cleanUp (h : c.Faithful P) (now : Nat) : (c.cleanUp now).2.Faithful P := by
  obtain ⟨l, hl, heq⟩ := c.exists_cleanUp now
  rw [heq]
  exact { h with entries := h.entries.sublist hl }

theorem Faithful.clear (h : c.Faithful P) : c.clear.Faithful P :=
  { h with entries := nofun }

end SliceCache

/-! ### What the store answers -/

namespace Backend

variable {b : Backend} {s : Slice} {l : List Anomaly}

/-- From the rows of the memory store a slice selects what it selects from all anomalies. -/
theorem select_of_ask (h : (b.ask s.predicate).1 = .rows l) :
    s.select l = s.select b.memory.anomalies := by
  have hl : b.memory.anomalies.filter s.predicate.holds = l := by
    unfold ask MemoryStore.find at h
    by_cases h0 : s.predicate.conjuncts = 0
    · simp [h0] at h
    · simpa [h0] using h
  rw [← hl, Slice.select_filter_holds]

/-- So it does from the rows of any call, also of one that returns everything. -/
theorem select_of_call {isOpen : Bool} (h : (b.call s.predicate isOpen).1 = .rows l) :
    s.select l = s.select b.memory.anomalies := by
  unfold call at h
  split at h
  · exact select_of_ask (b := { b with asked := b.asked ++ [s.predicate] }) h
  · cases h
  · cases h
  · cases h
    rfl
  · split at h
    · exact select_of_ask (b := { b with asked := b.asked ++ [s.predicate] }) h
    · cases h

end Backend

namespace Access

variable {x : Access}

/-! ### Fetching -/

theorem faithful_settle (h : x.cache.Faithful P) (s : Slice) (o : Outcome)
    (ho : ∀ l, o = .rows l → s.SelectsFrom P (s.select l)) :
    (x.settle s o).2.cache.Faithful P ∧ ∀ l, (x.settle s o).1 = .rows l → s.SelectsFrom P l := by
  cases o with
  | rows l =>
    have hl := ho l rfl
    refine ⟨?_, fun l' h' => ?_⟩
    · simp only [settle]
      split
      · exact h.keep hl _
      · exact h
    · cases h'
      exact hl
  | failed e => exact ⟨h, fun l hl => by simp [settle] at hl⟩
  | crashed => exact ⟨h, fun l hl => by simp [settle] at hl⟩
  | hanging => exact ⟨⟨h.entries, h.queue, h.late⟩, fun l hl => by simp [settle] at hl⟩

theorem faithful_fetch (h : x.cache.Faithful P) (hm : P x.backend.memory.anomalies)
    (isOpen : Bool) (s : Slice) :
    (x.fetch isOpen s).2.cache.Faithful P ∧
      ∀ l, (x.fetch isOpen s).1 = .rows l → s.SelectsFrom P l := by
  unfold fetch
  refine faithful_settle (x := { x with backend := (x.backend.call s.predicate isOpen).2 }) h s _ ?_
  intro l hl
  exact ⟨_, hm, Backend.select_of_call hl⟩

/-- If the present content counts or nothing is fetched, fetching keeps a cache faithful, and the
rows come from lists that count. -/
theorem faithful_fetchAll (h : x.cache.Faithful P) (isOpen : Bool) (slices : List Slice)
    (hm : (x.fetchAll isOpen slices).1 ≠ [] → P x.backend.memory.anomalies) :
    (x.fetchAll isOpen slices).2.2.cache.Faithful P ∧
      ∀ s l, (s, .rows l) ∈ (x.fetchAll isOpen slices).1 → s.SelectsFrom P l := by
  induction slices generalizing x with
  | nil => exact ⟨h, fun _ _ hs => absurd hs List.not_mem_nil⟩
  | cons s rest ih =>
    unfold fetchAll at hm ⊢
    split at hm
    next hfree =>
      rw [if_pos hfree]
      exact ⟨h, fun _ _ hs => absurd hs List.not_mem_nil⟩
    next hfree =>
      rw [if_neg hfree]
      have hmem := hm (List.cons_ne_nil _ _)
      obtain ⟨hfetch, hrows⟩ := faithful_fetch h hmem isOpen s
      obtain ⟨hrest, hmore⟩ := ih hfetch fun _ =>
        (x.follows_fetch isOpen s).anomalies.symm ▸ hmem
      refine ⟨hrest, fun t l ht => ?_⟩
      rcases List.mem_cons.1 ht with ht | ht
      · obtain ⟨rfl, hl⟩ := Prod.mk.inj ht
        exact hrows l hl.symm
      · exact hmore t l ht

/-! ### Answering -/

theorem faithful_enqueue (h : x.cache.Faithful P) {b : Batch} (hb : b.Faithful P) :
    (x.enqueue b).cache.Faithful P := by
  unfold enqueue
  split
  · exact h
  · refine ⟨h.entries, fun c hc => ?_, h.late⟩
    rcases List.mem_append.1 hc with hc | hc
    · exact h.queue c hc
    · exact List.mem_singleton.1 hc ▸ hb

theorem faithful_conclude (h : x.cache.Faithful P) (r : Except CacheError Answers) :
    (x.conclude r).cache.Faithful P := by
  cases r with
  | ok a => exact h
  | error e => exact ⟨h.entries, h.queue, h.late⟩

theorem faithful_lookUp (h : x.cache.Faithful P) (slices : List Slice) :
    (x.lookUp slices).2.cache.Faithful P ∧
      (∀ q ∈ (x.lookUp slices).1, q.1.SelectsFrom P q.2) ∧
      ((x.lookUp slices).1.map Prod.fst).Nodup ∧
      ∀ s ∈ (x.lookUp slices).1.map Prod.fst, s ∈ slices := by
  unfold lookUp
  split
  · exact h.lookUp x.backend.clock slices
  · exact ⟨h, nofun, List.nodup_nil, nofun⟩

theorem mem_pending {slices : List Slice} {answers : Answers} {s : Slice} :
    s ∈ pending slices answers ↔ s ∈ slices ∧ s ∉ answers.map Prod.fst := by
  rw [pending, List.mem_eraseDups, List.mem_filter, Option.isNone_iff_eq_none,
    lookup_eq_none_iff_not_mem]

theorem faithful_start (h : x.cache.Faithful P) {slices : List Slice}
    (hv : ∀ s ∈ slices, s.fault? = none)
    (hm : (x.start slices).1.fetched ≠ [] → P x.backend.memory.anomalies) :
    (x.start slices).1.Faithful P ∧ (x.start slices).2.cache.Faithful P := by
  obtain ⟨hlook, hrows, hnodup, hkeys⟩ := faithful_lookUp h slices
  let missing := pending slices (x.lookUp slices).1
  let y := (x.lookUp slices).2.countMisses missing.length
  have hy : y.cache.Faithful P := ⟨hlook.entries, hlook.queue, hlook.late⟩
  have hxy : x.Follows y := (x.follows_lookUp slices).trans (follows_countMisses _ _)
  obtain ⟨hfetched, hmore⟩ := faithful_fetchAll hy false missing fun hne => hxy.anomalies ▸ hm hne
  have hall : (x.start slices).1.fetched.map Prod.fst ++ (x.start slices).1.waiting = missing :=
    y.keys_fetchAll false missing
  refine ⟨⟨hv, hrows, hmore, ?_, fun s => ?_⟩, hfetched⟩
  · rw [hall]
    refine List.nodup_append.2 ⟨hnodup, nodup_eraseDups _, fun s hs t ht e => ?_⟩
    exact (mem_pending.1 ht).2 (e ▸ hs)
  · rw [hall, List.mem_append]
    constructor
    · rintro (hs | hs)
      · exact hkeys s hs
      · exact (mem_pending.1 hs).1
    · intro hs
      by_cases hin : s ∈ (x.lookUp slices).1.map Prod.fst
      · exact .inl hin
      · exact .inr (mem_pending.2 ⟨hs, hin⟩)

/-- A batch keeps the cache faithful if the present content counts or nothing is asked; its answers
are complete then. -/
theorem faithful_getAll (h : x.cache.Faithful P) {slices : List Slice}
    (hm : (x.getAll slices).2.backend.asked ≠ x.backend.asked → P x.backend.memory.anomalies) :
    (x.getAll slices).2.cache.Faithful P ∧
      ∀ answers, (x.getAll slices).1 = some (.ok answers) →
        CompleteAnswers P slices answers := by
  cases hfault : slices.findSome? Slice.fault? with
  | some f =>
    unfold getAll
    rw [hfault]
    exact ⟨h, nofun⟩
  | none =>
    rw [asked_getAll x slices hfault] at hm
    have hasked : (x.start slices).1.fetched ≠ [] → P x.backend.memory.anomalies := by
      intro hne
      apply hm
      rw [asked_start]
      simpa using hne
    obtain ⟨hb, hcache⟩ := faithful_start h (List.findSome?_eq_none_iff.1 hfault) hasked
    unfold getAll
    rw [hfault]
    dsimp only
    split
    next => exact ⟨faithful_enqueue hcache hb, nofun⟩
    next r hr =>
      have hmarked : Batch.Faithful P { (x.start slices).1 with answered := true } :=
        ⟨hb.valid, hb.answers, hb.fetched, hb.nodup, hb.keys⟩
      refine ⟨faithful_conclude (faithful_enqueue hcache hmarked) r, fun answers ha => ?_⟩
      obtain rfl : r = .ok answers := Option.some.inj ha
      exact hb.complete hr

/-- The answer to a single slice is that of a batch. -/
theorem exists_getAll_of_get {s : Slice} {l : List Anomaly} (h : (x.get s).1 = some (.ok l)) :
    ∃ answers, (x.getAll [s]).1 = some (.ok answers) ∧ l = (answers.lookup s).getD [] := by
  obtain ⟨r, hr, he⟩ := Option.map_eq_some_iff.1 h
  cases r with
  | error e => cases he
  | ok answers =>
    refine ⟨answers, hr, ?_⟩
    simpa [Except.map] using he.symm

theorem faithful_get (h : x.cache.Faithful P) {s : Slice}
    (hm : (x.get s).2.backend.asked ≠ x.backend.asked → P x.backend.memory.anomalies) :
    (x.get s).2.cache.Faithful P ∧
      ∀ l, (x.get s).1 = some (.ok l) → s.fault? = none ∧ s.SelectsFrom P l := by
  obtain ⟨hcache, hanswers⟩ := faithful_getAll h hm
  refine ⟨hcache, fun l hl => ?_⟩
  obtain ⟨answers, hr, rfl⟩ := exists_getAll_of_get hl
  have hc := hanswers answers hr
  have hs : s ∈ [s] := List.mem_singleton_self s
  obtain ⟨m, hm, hlook⟩ := hc.exists_lookup hs
  exact ⟨hc.valid s hs, m, hm, by rw [hlook]; rfl⟩

/-! ### Waiting -/

theorem faithful_serve (h : x.cache.Faithful P) (hm : P x.backend.memory.anomalies)
    (isOpen : Bool) {queue : List Batch} (hq : ∀ b ∈ queue, b.Faithful P) :
    (x.serve isOpen queue).2.cache.Faithful P ∧
      ∀ b ∈ (x.serve isOpen queue).1, b.Faithful P := by
  induction queue generalizing x with
  | nil => exact ⟨h, nofun⟩
  | cons b rest ih =>
    obtain ⟨hfetched, hrows⟩ := faithful_fetchAll h isOpen b.waiting fun _ => hm
    have hmem := (x.follows_fetchAll isOpen b.waiting).anomalies.symm ▸ hm
    obtain ⟨hrest, hbatches⟩ := ih hfetched hmem fun c hc => hq c (List.mem_cons_of_mem _ hc)
    refine ⟨hrest, fun c hc => ?_⟩
    rcases List.mem_cons.1 hc with rfl | hc
    · have hb := hq b (List.mem_cons_self ..)
      have hkeys := x.keys_fetchAll isOpen b.waiting
      refine ⟨hb.valid, hb.answers, fun s l hs => ?_, ?_, ?_⟩
      · rcases List.mem_append.1 hs with hs | hs
        · exact hb.fetched s l hs
        · exact hrows s l hs
      · simpa only [List.map_append, List.append_assoc, hkeys] using hb.nodup
      · simpa only [List.map_append, List.append_assoc, hkeys] using hb.keys
    · exact hbatches c hc

theorem faithful_report (h : x.cache.Faithful P) {slices : List Slice}
    {r : Except CacheError Answers}
    (hr : ∀ answers, r = .ok answers → CompleteAnswers P slices answers) :
    (x.report slices r).cache.Faithful P := by
  refine ⟨h.entries, h.queue, fun slices' answers ha => ?_⟩
  rcases List.mem_append.1 ha with ha | ha
  · exact h.late slices' answers ha
  · obtain ⟨rfl, he⟩ := Prod.mk.inj (List.mem_singleton.1 ha)
    exact hr answers he.symm

theorem faithful_answer (h : x.cache.Faithful P) {b : Batch} (hb : b.Faithful P) :
    (x.answer b).cache.Faithful P := by
  unfold answer
  split
  · exact faithful_enqueue h hb
  · split
    · exact faithful_enqueue h hb
    next r hr =>
      have hmarked : Batch.Faithful P { b with answered := true } :=
        ⟨hb.valid, hb.answers, hb.fetched, hb.nodup, hb.keys⟩
      refine faithful_conclude (faithful_report (faithful_enqueue h hmarked) ?_) r
      rintro answers rfl
      exact hb.complete hr

theorem faithful_serveQueue (h : x.cache.Faithful P) (hm : P x.backend.memory.anomalies)
    (isOpen : Bool) : (x.serveQueue isOpen).cache.Faithful P := by
  obtain ⟨hcache, hqueue⟩ := faithful_serve h hm isOpen h.queue
  have hfold : ∀ (queue : List Batch) (y : Access), y.cache.Faithful P →
      (∀ b ∈ queue, b.Faithful P) → (queue.foldl answer y).cache.Faithful P := by
    intro queue
    induction queue with
    | nil => exact fun y hy _ => hy
    | cons b rest ih =>
      intro y hy hq
      exact ih _ (faithful_answer hy (hq b (List.mem_cons_self ..))) fun c hc =>
        hq c (List.mem_cons_of_mem _ hc)
  exact hfold _ _ ⟨hcache.entries, nofun, hcache.late⟩ hqueue

theorem faithful_finish (h : x.cache.Faithful P) (hm : P x.backend.memory.anomalies)
    (place : Nat) : (x.finish place).cache.Faithful P := by
  unfold finish
  split
  · exact h
  next s _ =>
    refine (faithful_settle (x := { x with
      cache.free := x.cache.free + 1
      cache.hanging := x.cache.hanging.eraseIdx place
      backend := (x.backend.ask s.predicate).2 }) ⟨h.entries, h.queue, h.late⟩ s _ ?_).1
    intro l hl
    exact ⟨_, hm, Backend.select_of_ask hl⟩

/-- The landing of a call keeps the cache faithful if the present content counts. -/
theorem faithful_land (h : x.cache.Faithful P) {place : Nat}
    (hm : place < x.cache.hanging.length → P x.backend.memory.anomalies) :
    (x.land place).cache.Faithful P := by
  unfold land
  split
  next hlt =>
    have hmem := (x.follows_finish place).anomalies.symm ▸ hm hlt
    exact faithful_serveQueue (faithful_finish h (hm hlt) place) hmem false
  · exact h

theorem faithful_release (h : x.cache.Faithful P)
    (hm : x.cache.hanging ≠ [] ∨ x.cache.queue ≠ [] → P x.backend.memory.anomalies) :
    x.release.cache.Faithful P := by
  by_cases hidle : x.cache.hanging = [] ∧ x.cache.queue = []
  · rw [x.release_of_idle hidle.1 hidle.2]
    exact h
  · have hmem := hm (by
      by_cases hh : x.cache.hanging = []
      · exact .inr fun hq => hidle ⟨hh, hq⟩
      · exact .inl hh)
    have hfold : ∀ (l : List Slice) (y : Access), y.cache.Faithful P →
        P y.backend.memory.anomalies →
        (l.foldl (fun x _ => x.finish 0) y).cache.Faithful P := by
      intro l
      induction l with
      | nil => exact fun y hy _ => hy
      | cons s rest ih =>
        intro y hy hym
        exact ih _ (faithful_finish hy hym 0) ((y.follows_finish 0).anomalies.symm ▸ hym)
    refine faithful_serveQueue (hfold _ _ h hmem) ?_ true
    rw [(Follows.foldl (fun x _ => x.follows_finish 0) _ x).anomalies]
    exact hmem

end Access
end Outlier
