import Outlier.Proofs.Cache.Agreement
import Outlier.Proofs.Session.Snapshot

/-! # Slices with a resident container

While a fresh entry of a containing slice is there, a slice is answered without the store. The entry
that answers is the slice's own, if it is fresh, and else the most recently used one
(`Recency.source?`), so the answer is what the slice selects from that entry, and not from another
that may be newer or older (`Session.stale_source`). All of them hold what their slices select from
contents that the store had one after the other, so their answers differ at most in anomalies at the
end (`Session.contained_run`). -/

namespace Outlier

variable {P : List Anomaly → Prop} {s outer : Slice} {now ttl : Nat}

namespace Recency

/-- The entry that answers a slice: its own if that is fresh, otherwise the most recently used fresh
one of a containing slice. -/
def source? (r : Recency) (s : Slice) (now ttl : Nat) : Option (Slice × Entry) :=
  match (r.get? s).filter (·.isFresh now ttl) with
  | some e => some (s, e)
  | none => (r.erase s).container? s now ttl

variable {r : Recency} {e : Entry} {q : Slice × Entry}

theorem of_source?_eq_some (h : r.source? s now ttl = some q) :
    q ∈ r.entries ∧ q.2.isFresh now ttl ∧ (q.1 = s ∨ q.1.contains s) := by
  unfold source? at h
  split at h
  next e he =>
    obtain ⟨hget, hfresh⟩ := Option.filter_eq_some_iff.1 he
    obtain rfl := Option.some.inj h
    exact ⟨r.mem_of_get? hget, hfresh, .inl rfl⟩
  next =>
    obtain ⟨hmem, hfresh, hcontains⟩ := (r.erase s).of_container?_eq_some h
    exact ⟨r.mem_of_mem_erase hmem, hfresh, .inr hcontains⟩

theorem exists_source? (hn : (r.entries.map Prod.fst).Nodup) (he : (outer, e) ∈ r.entries)
    (hfresh : e.isFresh now ttl) (hs : outer = s ∨ outer.contains s) :
    ∃ q, r.source? s now ttl = some q := by
  unfold source?
  split
  next e _ => exact ⟨(s, e), rfl⟩
  next hnone =>
    have hne : outer ≠ s := by
      rintro rfl
      rw [get?_of_mem hn he] at hnone
      simp [hfresh] at hnone
    have hmem : (outer, e) ∈ (r.erase s).entries := List.mem_filter.2 ⟨he, by simpa using hne⟩
    rw [← Option.isSome_iff_exists, container?, List.find?_isSome]
    exact ⟨_, hmem, by simp [hfresh, hs.resolve_left hne]⟩

theorem erase_of_get?_eq_none (h : r.get? s = none) : r.erase s = r := by
  have hne : ∀ p ∈ r.entries, decide (p.1 ≠ s) = true := by
    intro p hp
    have hp := List.lookup_eq_none_iff.1 h p hp
    exact decide_eq_true fun heq => bne_iff_ne.1 hp heq.symm
  rw [erase, List.filter_eq_self.2 hne]

end Recency

namespace SliceCache

theorem answers_of_source {l : Lookup} (hf : l.entries.Faithful P)
    (hnone : l.answers.lookup s = none) {q : Slice × Entry}
    (h : l.entries.source? s now ttl = some q) :
    (l.step now ttl s).answers = l.answers ++ [(s, s.select q.2.anomalies)] := by
  have hderive {l : Lookup} (hc : l.entries.container? s now ttl = some q) :
      (l.derive now ttl s).answers = l.answers ++ [(s, s.select q.2.anomalies)] := by
    simp only [Lookup.derive, hc]
  unfold Recency.source? at h
  unfold Lookup.step
  rw [if_neg (by simp [hnone])]
  cases hget : l.entries.get? s with
  | none =>
    rw [hget, Recency.erase_of_get?_eq_none hget] at h
    exact hderive h
  | some e =>
    rw [hget] at h
    by_cases hfresh : e.isFresh now ttl = true
    · simp only [Option.filter_some, hfresh, if_true] at h ⊢
      obtain rfl := Option.some.inj h
      rw [(hf _ (l.entries.mem_of_get? hget)).select_eq]
    · simp only [Option.filter_some, hfresh] at h ⊢
      exact hderive (l := { l with entries := l.entries.erase s }) h

end SliceCache

namespace Access

variable {x : Access} {q : Slice × Entry}

/-- A slice that an entry can answer is answered from it, and the store is left alone. -/
theorem get_of_source (hmode : x.cache.mode = .enabled) (hv : s.fault? = none)
    (hf : x.cache.entries.Faithful P)
    (h : x.cache.entries.source? s x.backend.clock x.cache.settings.idleTtl = some q) :
    (x.get s).1 = some (.ok (s.select q.2.anomalies)) ∧ (x.get s).2.backend = x.backend := by
  have hanswers : (x.lookUp [s]).1 = [(s, s.select q.2.anomalies)] := by
    rw [lookUp_of_enabled hmode]
    exact SliceCache.answers_of_source (l := { entries := x.cache.entries, stats := x.cache.stats })
      hf rfl h
  have hpending : pending [s] (x.lookUp [s]).1 = [] := by
    rw [hanswers]
    simp [pending]
  have hstart : x.start [s] =
      ({ slices := [s], answers := [(s, s.select q.2.anomalies)], fetched := [], waiting := [] },
        x.lookedUp [s]) := by
    rw [start_eq, hpending, hanswers]
    rfl
  have hgetAll : x.getAll [s] = (some (.ok [(s, s.select q.2.anomalies)]), x.lookedUp [s]) := by
    have hfault : [s].findSome? Slice.fault? = none := by simp [hv]
    rw [getAll, hfault]
    simp only [hstart]
    rfl
  obtain ⟨stats, hlooked, -⟩ := x.lookedUp_eq [s]
  rw [get, hgetAll, hlooked]
  refine ⟨?_, rfl⟩
  simp [Except.map]

end Access

namespace Session

/-- How a slice `inner` is answered from the entry `q`, while a containing slice has the entry
`e`. -/
structure Serves (s : Session) (i : Nat) (requests : List Request) (c : SliceCache)
    (outer inner : Slice) (e : Entry) (q : Slice × Entry) : Prop where
  source : c.entries.source? inner (s.run requests).backend.clock c.settings.idleTtl = some q
  /-- The store is left alone. -/
  silent : ((s.run requests).step (.get i inner)).2.backend = (s.run requests).backend
  reply : ((s.run requests).step (.get i inner)).1 =
    .anomalies (.ok (inner.select q.2.anomalies))
  /-- The answer is what the container would give, if no entry of the slice itself or of another
  container is fresh. -/
  sole : (∀ p ∈ c.entries.entries,
      p.2.isFresh (s.run requests).backend.clock c.settings.idleTtl →
        p.1 = inner ∨ p.1.contains inner → p.1 = outer) →
    q = (outer, e)
  /-- Otherwise both come from contents that the store had at calls of this cache, and one begins
  with the other. -/
  recorded : ∃ m m', s.AtCall i requests m ∧ s.AtCall i requests m' ∧
    inner.select e.anomalies = inner.select m ∧ inner.select q.2.anomalies = inner.select m' ∧
    (inner.select m <+: inner.select m' ∨ inner.select m' <+: inner.select m)
  /-- They are the same if no anomaly of the slice came in since the cache was made. -/
  unchanged : inner.select (s.run requests).backend.memory.anomalies =
      inner.select s.backend.memory.anomalies →
    inner.select q.2.anomalies = inner.select e.anomalies

/-- **Contained slices.** After any requests since an enabled cache was made, a slice with a fresh
container is answered from the entry that comes first, without the store. -/
theorem contained_run (s : Session) (i : Nat) (settings : Settings)
    (h : s.caches[i]? = some (SliceCache.new settings .enabled)) (requests : List Request) :
    ∃ c, (s.run requests).caches[i]? = some c ∧ c.settings = settings ∧
      ∀ (outer inner : Slice) (e : Entry), inner.fault? = none → outer.contains inner →
        (outer, e) ∈ c.entries.entries →
        e.isFresh (s.run requests).backend.clock settings.idleTtl →
        ∃ q, s.Serves i requests c outer inner e q := by
  obtain ⟨c, hc, hfaithful⟩ := faithful_run h requests
  obtain ⟨-, c', hc', hmade⟩ := kept_run (kept_made settings .enabled) (fun _ _ _ _ => trivial)
    (fun _ _ _ _ => trivial) h trivial (made_new settings .enabled)
  obtain rfl : c = c' := Option.some.inj (hc.symm.trans hc')
  refine ⟨c, hc, hmade.settings, fun outer inner e hv hcontains he hfresh => ?_⟩
  rw [← hmade.settings] at hfresh
  obtain ⟨q, hq⟩ := Recency.exists_source? hmade.nodup he hfresh (.inr hcontains)
  obtain ⟨hmem, hqfresh, hqs⟩ := Recency.of_source?_eq_some hq
  obtain ⟨hreply, hsilent⟩ := Access.get_of_source (x := ⟨c, (s.run requests).backend⟩) hmade.mode
    hv hfaithful.entries hq
  have hrecorded {p : Slice × Entry} (hp : p ∈ c.entries.entries)
      (hps : p.1 = inner ∨ p.1.contains inner) :
      ∃ m, s.AtCall i requests m ∧ inner.select p.2.anomalies = inner.select m := by
    obtain ⟨m, hm, hsel⟩ := hfaithful.entries p hp
    exact ⟨m, hm, by rw [hsel, Recency.select_select_of_contained hps]⟩
  obtain ⟨m, hm, hsel⟩ := hrecorded he (.inr hcontains)
  obtain ⟨m', hm', hsel'⟩ := hrecorded hmem hqs
  refine ⟨q, ?_⟩
  constructor
  case source => exact hq
  case silent =>
    rw [step, visit_of_some _ hc]
    exact hsilent
  case reply =>
    rw [step, visit_of_some _ hc]
    exact congrArg (Option.elim · Reply.waiting Reply.anomalies) hreply
  case sole =>
    intro hsole
    have hkey : q.1 = outer := hsole q hmem hqfresh hqs
    exact List.inj_on_of_nodup_map hmade.nodup hmem he hkey
  case recorded =>
    refine ⟨m, m', hm, hm', hsel, hsel', ?_⟩
    exact (hm.comparable hm').imp (fun hp => hp.filter _) fun hp => hp.filter _
  case unchanged =>
    intro hsame
    rw [hsel, hsel', hm.select_eq hsame, hm'.select_eq hsame]

/-- A store that holds one anomaly. -/
def oneStored : Session where
  backend := { memory := { anomalies := [.stored 1 1 0 100] } }
  caches := [.new ⟨9, 600000, 60000, 1⟩ .enabled]

/-- The slice of a detector from the time zero on is asked for before another anomaly comes in, and
that of the detector afterwards. -/
def narrowThenWide : List Request :=
  [.get 0 { detector := some 1, start := some 0 }, .extend [.stored 2 1 200 300],
    .get 0 { detector := some 1 }]

/-- The narrow slice is answered from its own entry, though the other has more by now. -/
theorem contained_narrowThenWide :
    oneStored.caches[0]? = some (SliceCache.new ⟨9, 600000, 60000, 1⟩ .enabled) ∧
      ∃ c e q, oneStored.Serves 0 narrowThenWide c { detector := some 1 }
          { detector := some 1, start := some 0 } e q ∧
        e.anomalies = [.stored 1 1 0 100, .stored 2 1 200 300] ∧
        q.2.anomalies = [.stored 1 1 0 100] := by
  obtain ⟨c, hc, -, hserves⟩ :=
    contained_run oneStored 0 ⟨9, 600000, 60000, 1⟩ rfl narrowThenWide
  obtain rfl : _ = c := Option.some.inj hc
  obtain ⟨q, hq⟩ := hserves { detector := some 1 } { detector := some 1, start := some 0 }
    ⟨[.stored 1 1 0 100, .stored 2 1 200 300], 0⟩ rfl rfl (List.mem_cons_self ..) rfl
  obtain rfl : _ = q := Option.some.inj hq.source
  exact ⟨rfl, _, _, _, hq, rfl, rfl⟩

/-- A contained slice is not always answered with what the entry of its container has for it. -/
theorem stale_source : ¬ ∀ (s : Session) (i : Nat) (settings : Settings) (requests : List Request)
    (c : SliceCache) (outer inner : Slice) (e : Entry),
    s.caches[i]? = some (SliceCache.new settings .enabled) → s.backend.Plain →
    (∀ r ∈ requests, ∀ f, r ≠ .setScript f) → (s.run requests).caches[i]? = some c →
    outer.fault? = none → inner.fault? = none → outer.contains inner →
    (outer, e) ∈ c.entries.entries →
    e.isFresh (s.run requests).backend.clock settings.idleTtl →
      ((s.run requests).step (.get i inner)).1 = .anomalies (.ok (inner.select e.anomalies)) := by
  intro h
  have hreply := h oneStored 0 ⟨9, 600000, 60000, 1⟩ narrowThenWide _ { detector := some 1 }
    { detector := some 1, start := some 0 } ⟨[.stored 1 1 0 100, .stored 2 1 200 300], 0⟩ rfl
    (fun _ _ => rfl) (by simp [narrowThenWide]) rfl rfl rfl rfl (List.mem_cons_self ..) rfl
  have hsame : Reply.anomalies (.ok [.stored 1 1 0 100]) =
      .anomalies (.ok [.stored 1 1 0 100, .stored 2 1 200 300]) := hreply
  cases hsame

end Session
end Outlier
