import Outlier.Proofs.Cache.Agreement
import Outlier.Proofs.Session.Snapshot

/-! # Repeated batches

Over a plain store a batch can be repeated at once, and each slice whose entry the first batch left
gets the same answer (`Access.lookup_eq_of_resident`). These are all slices if the cache has room
for the batch. Without room, a slice that was answered from an older entry may be asked for again,
and then newer anomalies show (`Session.repeats_differ`). -/

namespace Outlier

/-- No entry that is fresh now expires until then. -/
def Recency.Lasts (r : Recency) (now later ttl : Nat) : Prop :=
  ∀ p ∈ r.entries, p.2.isFresh now ttl → p.2.isFresh later ttl

theorem CompleteAnswers.lookup_eq {P Q : List Anomaly → Prop} {slices : List Slice}
    {first second : Answers} {t : Slice} (h : CompleteAnswers P slices first)
    (h' : CompleteAnswers Q slices second)
    (heq : t ∈ slices → first.lookup t = second.lookup t) : first.lookup t = second.lookup t := by
  by_cases ht : t ∈ slices
  · exact heq ht
  · have hnone : first.lookup t = none :=
      lookup_eq_none_iff_not_mem.2 fun hin => ht ((h.keys t).1 hin)
    have hnone' : second.lookup t = none :=
      lookup_eq_none_iff_not_mem.2 fun hin => ht ((h'.keys t).1 hin)
    rw [hnone, hnone']

namespace SliceCache

variable {c : SliceCache} {now : Nat} {slices : List Slice}

theorem lookUp_of_idleTtl_eq_zero (h : c.settings.idleTtl = 0) : (c.lookUp now slices).1 = [] := by
  have hstale (e : Entry) : e.isFresh now 0 = false := by simp [Entry.isFresh]
  have hderive (l : Lookup) (s : Slice) : l.derive now 0 s = l := by
    have hnone : l.entries.container? s now 0 = none := by
      simp [Recency.container?, hstale]
    simp only [Lookup.derive, hnone]
  have hfold (l : Lookup) (hl : l.answers = []) :
      (slices.foldl (Lookup.step now 0) l).answers = [] := by
    induction slices generalizing l with
    | nil => exact hl
    | cons s rest ih =>
      refine ih _ ?_
      unfold Lookup.step
      rw [hl]
      simp only [List.lookup_nil, Option.isSome_none, Bool.false_eq_true, if_false, hderive, hstale]
      split
      · exact hl
      · rfl
  rw [lookUp, h]
  exact hfold _ rfl

end SliceCache

namespace Access

variable {x : Access} {slices : List Slice} {first second : Answers} {t : Slice} {e : Entry}

theorem current_getAll (h : x.Ready) (hv : ∀ s ∈ slices, s.fault? = none)
    (hfirst : (x.getAll slices).1 = some (.ok first)) (hnodup : (first.map Prod.fst).Nodup) :
    (x.getAll slices).2.cache.entries.Current x.backend.clock first := by
  obtain ⟨-, landed, hperm, hentries⟩ :=
    getAll_of_ready h hv
  obtain rfl := eq_of_getAll h hv hfirst
  have hfound : (x.lookUp slices).2.cache.entries.Current x.backend.clock (x.lookUp slices).1 := by
    rw [List.map_append] at hnodup
    have hleft := (List.nodup_append.1 hnodup).1
    simp only [lookUp_of_enabled h.mode] at hleft ⊢
    exact SliceCache.current_lookUp hleft
  rw [hentries]
  have hall := hfound.pushAll hnodup (fun q hq => List.mem_append_left _ hq)
    fun q hq => List.mem_append_right _ (hperm.subset hq)
  intro q hq
  refine hall q ?_
  rcases List.mem_append.1 hq with hq | hq
  · exact List.mem_append_left _ hq
  · exact List.mem_append_right _ (hperm.symm.subset hq)

/-- A slice whose entry is still there gets the same answer once more. -/
theorem lookup_eq_of_resident (h : x.Ready) (hv : ∀ s ∈ slices, s.fault? = none)
    (hfirst : (x.getAll slices).1 = some (.ok first)) (hnodup : (first.map Prod.fst).Nodup)
    (ht : t ∈ slices) (hin : t ∈ first.map Prod.fst) {millis : Nat}
    (hlasts : (x.getAll slices).2.cache.entries.Lasts x.backend.clock (x.backend.clock + millis)
      x.cache.settings.idleTtl)
    (he : (x.getAll slices).2.cache.entries.get? t = some e)
    (hsecond : (getAll ⟨(x.getAll slices).2.cache, (x.getAll slices).2.backend.advance millis⟩
      slices).1 = some (.ok second)) : first.lookup t = second.lookup t := by
  have hcurrent := current_getAll h hv hfirst hnodup
  have hsettings := (x.follows_getAll slices).settings
  have hclock := clock_getAll hfirst
  have hanomalies := (x.follows_getAll slices).anomalies
  obtain ⟨rows, hrows⟩ := Option.ne_none_iff_exists'.1 fun hnone =>
    lookup_eq_none_iff_not_mem.1 hnone hin
  have hentry := hcurrent (t, rows) (mem_of_lookup hrows) e he
  have hnext := h.getAll slices millis
  rw [eq_of_getAll hnext hv hsecond]
  by_cases httl : x.cache.settings.idleTtl = 0
  · -- nothing is ever fresh, so the store is asked for everything both times
    have hthen : (x.getAll slices).2.cache.settings.idleTtl = 0 := hsettings ▸ httl
    rw [eq_of_getAll h hv hfirst, asksFor, asksFor, lookUp_of_enabled h.mode,
      lookUp_of_enabled hnext.mode,
      SliceCache.lookUp_of_idleTtl_eq_zero httl, SliceCache.lookUp_of_idleTtl_eq_zero hthen]
    simp only [Backend.advance, hanomalies]
  · have hfresh : e.isFresh x.backend.clock x.cache.settings.idleTtl := by
      rw [hentry]
      simpa [Entry.isFresh] using Nat.pos_of_ne_zero httl
    have hthen := hlasts (t, e) (Recency.mem_of_get? _ he) hfresh
    rw [← hsettings, ← hclock] at hthen
    have hfound := SliceCache.lookup_lookUp_of_fresh he hthen ht
    rw [List.lookup_append, lookUp_of_enabled hnext.mode, hrows]
    exact (congrArg (Option.or · _) (hfound.trans (by rw [hentry]))).symm

/-- With room for two entries a slice, less one, all entries of a batch stay. -/
theorem resident_of_room (h : x.Ready) (hv : ∀ s ∈ slices, s.fault? = none)
    (hfirst : (x.getAll slices).1 = some (.ok first))
    (hroom : 2 * first.length ≤ x.cache.entries.capacity + 1) (hin : t ∈ first.map Prod.fst) :
    ∃ e, (x.getAll slices).2.cache.entries.get? t = some e := by
  obtain ⟨-, landed, hperm, hentries⟩ :=
    getAll_of_ready h hv
  obtain rfl := eq_of_getAll h hv hfirst
  have hlength := hperm.length_eq
  have hcapacity := (x.follows_lookUp slices).recency.capacity
  rw [List.length_append] at hroom
  rw [hentries]
  obtain ⟨q, hq, rfl⟩ := List.mem_map.1 hin
  rcases List.mem_append.1 hq with hq | hq
  · have hpos : 0 < (x.lookUp slices).1.length := List.length_pos_of_mem hq
    have hfound : (x.lookUp slices).2.cache.entries.Within
        (2 * (x.lookUp slices).1.length - 1) q.1 := by
      simp only [lookUp_of_enabled h.mode] at hq hpos hroom ⊢
      exact SliceCache.within_lookUp (by omega) (by omega) q hq
    exact (hfound.pushAll x.backend.clock (l := landed) (by omega)).exists_get?
  · have hkey : q.1 ∈ landed.map Prod.fst := List.mem_map_of_mem (hperm.symm.subset hq)
    exact (Recency.within_pushAll _ hkey (by omega)).exists_get?

/-- A slice about which the entries agree with the store gets the same answer once more. -/
theorem eq_of_agrees {P Q : List Anomaly → Prop} (h : x.Ready)
    (hv : ∀ s ∈ slices, s.fault? = none) (hn : (x.cache.entries.entries.map Prod.fst).Nodup)
    (hf : x.cache.entries.Faithful P)
    (hf' : (x.getAll slices).2.cache.entries.Faithful Q)
    (hagrees : x.cache.entries.Agrees x.backend.clock x.cache.settings.idleTtl
      x.backend.memory.anomalies t)
    (hfirst : (x.getAll slices).1 = some (.ok first)) {millis : Nat}
    (hsecond : (getAll ⟨(x.getAll slices).2.cache, (x.getAll slices).2.backend.advance millis⟩
      slices).1 = some (.ok second)) {rows rows' : List Anomaly} (hrows : (t, rows) ∈ first)
    (hrows' : (t, rows') ∈ second) : rows = rows' := by
  have hfollows := x.follows_getAll slices
  obtain ⟨hstill, hthis⟩ := agrees_getAll h hv hn hf hagrees hfirst
  rw [← hfollows.settings, ← hfollows.anomalies] at hstill
  have hlater := hstill.later (Nat.le_trans hfollows.clock (Nat.le_add_right _ millis))
  obtain ⟨-, hnext⟩ :=
    agrees_getAll (h.getAll slices millis) hv (hfollows.recency.nodup hn) hf' hlater hsecond
  calc
    rows = t.select x.backend.memory.anomalies := hthis (t, rows) hrows rfl
    _ = t.select (x.getAll slices).2.backend.memory.anomalies := by rw [hfollows.anomalies]
    _ = rows' := (hnext (t, rows') hrows' rfl).symm

end Access

/-! ### After any run -/

namespace Session

/-- What a batch is answered with over a plain store, and with what when it comes once more after
some time in which nothing else happens; `c` is the cache before the first batch, and `c'` after it.
-/
structure Repeats (s : Session) (i : Nat) (requests : List Request) (slices : List Slice)
    (millis : Nat) (c c' : SliceCache) (first second : Answers) : Prop where
  before : (s.run requests).caches[i]? = some c
  after : (s.run (requests ++ [.getAll i slices])).caches[i]? = some c'
  /-- Both batches are answered, for all of their slices and no other. -/
  answered : ((s.run requests).step (.getAll i slices)).1 = .batch (.ok first)
  repeated : ((s.run (requests ++ [.getAll i slices, .sleep millis])).step (.getAll i slices)).1 =
    .batch (.ok second)
  keys : ∀ t, ((first.lookup t).isSome ↔ t ∈ slices) ∧ ((second.lookup t).isSome ↔ t ∈ slices)
  /-- Unless something expires, a slice whose entry is still there has the same answer in both. -/
  resident : c'.entries.Lasts (s.run requests).backend.clock
      ((s.run requests).backend.clock + millis) c.settings.idleTtl →
    ∀ t, (c'.entries.get? t).isSome → first.lookup t = second.lookup t
  /-- These are all slices if the cache has room for two entries a slice, less one. -/
  room : 2 * slices.eraseDups.length ≤ c.settings.capacity + 1 →
    ∀ t ∈ slices, (c'.entries.get? t).isSome
  /-- Also without its entry a slice has the same answer in both, unless a fresh entry had something
  else for it than the store. -/
  agreeing : ∀ t,
    c.entries.Agrees (s.run requests).backend.clock c.settings.idleTtl
        (s.run requests).backend.memory.anomalies t →
      first.lookup t = second.lookup t
  /-- In any case both answers come from contents that the store had at calls of this cache, and
  one of them begins with the other. -/
  recorded : ∀ t ∈ slices, ∃ m m',
    s.AtCall i (requests ++ [.getAll i slices, .sleep millis, .getAll i slices]) m ∧
    s.AtCall i (requests ++ [.getAll i slices, .sleep millis, .getAll i slices]) m' ∧
    first.lookup t = some (t.select m) ∧ second.lookup t = some (t.select m') ∧
    (t.select m <+: t.select m' ∨ t.select m' <+: t.select m)

theorem ready_run {s : Session} {i : Nat} {settings : Settings}
    (h : s.caches[i]? = some (SliceCache.new settings .enabled)) (hplain : s.backend.Plain)
    {requests : List Request} (hscript : ∀ r ∈ requests, ∀ f, r ≠ .setScript f) :
    ∃ c, (s.run requests).caches[i]? = some c ∧ Made settings .enabled c ∧
      Access.Ready ⟨c, (s.run requests).backend⟩ := by
  have hkept := kept_idle.and ((kept_made settings .enabled).mono fun _ _ => trivial)
  have hstep (s : Session) (r : Request) (hr : r ∈ requests) (hb : s.backend.Plain) :
      (s.step r).2.backend.Plain := fun n p =>
    (congrFun (congrFun (script_step s (hscript r hr)) n) p).trans (hb n p)
  obtain ⟨hb, c, hc, ⟨hpermitted, hhanging⟩, hmade⟩ := kept_run hkept
    (fun _ _ hf hb => hb.follows hf) hstep h hplain
    ⟨⟨SliceCache.permitted_new settings .enabled, rfl⟩, made_new settings .enabled⟩
  exact ⟨c, hc, hmade, hb, hpermitted, hhanging, hmade.mode⟩

theorem step_getAll {s : Session} {i : Nat} {c : SliceCache} {slices : List Slice}
    {answers : Answers} (hc : s.caches[i]? = some c)
    (h : (Access.getAll ⟨c, s.backend⟩ slices).1 = some (.ok answers)) :
    (s.step (.getAll i slices)).1 = .batch (.ok answers) := by
  rw [step, visit_of_some s hc]
  exact congrArg (Option.elim · Reply.waiting Reply.batch) h

section

variable {s : Session} {i : Nat} {requests : List Request} {slices : List Slice} {c : SliceCache}
variable {first second : Answers} {t : Slice}

theorem run_getAll_sleep (hc : (s.run requests).caches[i]? = some c) (slices : List Slice)
    (millis : Nat) :
    let y : Access := (Access.getAll ⟨c, (s.run requests).backend⟩ slices).2
    (s.run (requests ++ [.getAll i slices])).caches[i]? = some y.cache ∧
      (s.run (requests ++ [.getAll i slices, .sleep millis])).caches[i]? = some y.cache ∧
      (s.run (requests ++ [.getAll i slices, .sleep millis])).backend =
        y.backend.advance millis := by
  intro y
  have hcache : ((s.run requests).step (.getAll i slices)).2.caches[i]? = some y.cache :=
    caches_visit_self _ hc _
  have hbackend : ((s.run requests).step (.getAll i slices)).2.backend = y.backend := by
    rw [step, visit_of_some _ hc]
  rw [run_append, run_append]
  exact ⟨hcache, hcache, congrArg (·.advance millis) hbackend⟩

theorem complete_twice {settings : Settings} {mode : Mode}
    (h : s.caches[i]? = some (SliceCache.new settings mode)) {millis : Nat}
    (hfirst : ((s.run requests).step (.getAll i slices)).1 = .batch (.ok first))
    (hsecond : ((s.run (requests ++ [.getAll i slices, .sleep millis])).step
      (.getAll i slices)).1 = .batch (.ok second)) :
    let all := requests ++ [.getAll i slices, .sleep millis, .getAll i slices]
    CompleteAnswers (s.AtCall i all) slices first ∧
      CompleteAnswers (s.AtCall i all) slices second := by
  have hbefore := (complete_run h hfirst).mono fun m hm =>
    hm.append [.sleep millis, .getAll i slices]
  have hafter := complete_run h hsecond
  rw [List.append_assoc] at hbefore hafter
  exact ⟨hbefore, hafter⟩

theorem exists_lookups (h : CompleteAnswers (s.AtCall i requests) slices first)
    (h' : CompleteAnswers (s.AtCall i requests) slices second) (ht : t ∈ slices) :
    ∃ m m', s.AtCall i requests m ∧ s.AtCall i requests m' ∧
      first.lookup t = some (t.select m) ∧ second.lookup t = some (t.select m') ∧
      (t.select m <+: t.select m' ∨ t.select m' <+: t.select m) := by
  obtain ⟨m, hm, hfirst⟩ := h.exists_lookup ht
  obtain ⟨m', hm', hsecond⟩ := h'.exists_lookup ht
  refine ⟨m, m', hm, hm', hfirst, hsecond, ?_⟩
  rcases hm.comparable hm' with hgrown | hgrown
  · exact .inl (hgrown.filter _)
  · exact .inr (hgrown.filter _)

end

/-- **Repeated batches.** Over a plain store an enabled cache answers a batch whenever it comes, and
again when it comes once more. The two answers agree on the slices whose entries are still there and
on those for which no fresh entry was older than the store; `Repeats` says all of it. -/
theorem repeats_run (s : Session) (i : Nat) (settings : Settings)
    (h : s.caches[i]? = some (SliceCache.new settings .enabled)) (hplain : s.backend.Plain)
    (requests : List Request) (hscript : ∀ r ∈ requests, ∀ f, r ≠ .setScript f)
    (slices : List Slice) (hv : ∀ t ∈ slices, t.fault? = none) (millis : Nat) :
    ∃ c c' first second, c.settings = settings ∧
      s.Repeats i requests slices millis c c' first second := by
  obtain ⟨c, hc, hmade, hready⟩ := ready_run h hplain hscript
  let x : Access := ⟨c, (s.run requests).backend⟩
  let y : Access := ⟨(x.getAll slices).2.cache, (x.getAll slices).2.backend.advance millis⟩
  obtain ⟨first, hfirst⟩ : ∃ first, (x.getAll slices).1 = some (.ok first) :=
    hready.exists_answers hv
  obtain ⟨second, hsecond⟩ : ∃ second, (y.getAll slices).1 = some (.ok second) :=
    (hready.getAll slices millis).exists_answers hv
  obtain ⟨hcache, hcache', hbackend⟩ := run_getAll_sleep hc slices millis
  have hanswered := step_getAll hc hfirst
  have hrepeated : ((s.run (requests ++ [.getAll i slices, .sleep millis])).step
      (.getAll i slices)).1 = .batch (.ok second) := step_getAll hcache' (hbackend ▸ hsecond)
  obtain ⟨hcomplete, hcomplete'⟩ := complete_twice h hanswered hrepeated
  refine ⟨c, y.cache, first, second, hmade.settings, ?_⟩
  constructor
  case before => exact hc
  case after => exact hcache
  case answered => exact hanswered
  case repeated => exact hrepeated
  case keys => exact fun t => ⟨hcomplete.isSome_lookup, hcomplete'.isSome_lookup⟩
  case resident =>
    intro hlasts t hres
    obtain ⟨e, he⟩ := Option.isSome_iff_exists.1 hres
    refine hcomplete.lookup_eq hcomplete' fun ht => ?_
    exact Access.lookup_eq_of_resident hready hv hfirst hcomplete.nodup ht
      ((hcomplete.keys t).2 ht) hlasts he hsecond
  case room =>
    intro hroom t ht
    rw [hmade.settings, ← hmade.capacity, ← hcomplete.length_eq] at hroom
    rw [Option.isSome_iff_exists]
    exact Access.resident_of_room hready hv hfirst hroom ((hcomplete.keys t).2 ht)
  case agreeing =>
    intro t hagrees
    obtain ⟨d, hd, hfaithful⟩ := faithful_run h requests
    obtain rfl : c = d := Option.some.inj (hc.symm.trans hd)
    obtain ⟨d', hd', hfaithful'⟩ := faithful_run h (requests ++ [.getAll i slices])
    obtain rfl : y.cache = d' := Option.some.inj (hcache.symm.trans hd')
    refine hcomplete.lookup_eq hcomplete' fun ht => ?_
    obtain ⟨m, -, hthis⟩ := hcomplete.exists_lookup ht
    obtain ⟨m', -, hnext⟩ := hcomplete'.exists_lookup ht
    rw [hthis, hnext]
    exact congrArg some (Access.eq_of_agrees hready hv hmade.nodup hfaithful.entries
      hfaithful'.entries hagrees hfirst hsecond (mem_of_lookup hthis) (mem_of_lookup hnext))
  case recorded => exact fun t => exists_lookups hcomplete hcomplete'

/-- A cache with room for so many entries, over a store with two anomalies. -/
def roomFor (entries : Nat) : Session where
  backend := { memory := { anomalies := [.stored 1 1 0 100, .stored 3 2 0 100] } }
  caches := [.new ⟨entries, 600000, 60000, 1⟩ .enabled]

/-- A detector is asked for, and then another anomaly of it comes in. -/
def askedAndGrown : List Request :=
  [.get 0 { detector := some 1 }, .extend [.stored 2 1 200 300]]

/-- A slice of that detector, and another detector. -/
def narrowAndOther : List Slice := [{ detector := some 1, start := some 0 }, { detector := some 2 }]

/-- With room for three entries the old answer to the first slice stays. -/
theorem repeats_roomForThree :
    (roomFor 3).caches[0]? = some (SliceCache.new ⟨3, 600000, 60000, 1⟩ .enabled) ∧
      (roomFor 3).backend.Plain ∧ (∀ r ∈ askedAndGrown, ∀ f, r ≠ .setScript f) ∧
      (∀ t ∈ narrowAndOther, t.fault? = none) ∧
      ∃ c c' first second,
        (roomFor 3).Repeats 0 askedAndGrown narrowAndOther 1000 c c' first second ∧
        second = [({ detector := some 1, start := some 0 }, [.stored 1 1 0 100]),
          ({ detector := some 2 }, [.stored 3 2 0 100])] := by
  have hscript : ∀ r ∈ askedAndGrown, ∀ f, r ≠ .setScript f := by simp [askedAndGrown]
  have hv : ∀ t ∈ narrowAndOther, t.fault? = none := by decide
  obtain ⟨c, c', first, second, -, hrepeats⟩ :=
    repeats_run (roomFor 3) 0 ⟨3, 600000, 60000, 1⟩ rfl (fun _ _ => rfl) askedAndGrown hscript
      narrowAndOther hv 1000
  refine ⟨rfl, fun _ _ => rfl, hscript, hv, c, c', first, second, hrepeats, ?_⟩
  have hreply : Reply.batch (.ok second) = Reply.batch (.ok _) := hrepeats.repeated.symm.trans rfl
  injection hreply with hreply
  injection hreply

/-- A repeated batch does not always have the same answers: with room for one entry, the other
detector pushes out what was derived from the old entry. -/
theorem repeats_differ : ¬ ∀ (s : Session) (i : Nat) (settings : Settings)
    (requests : List Request) (slices : List Slice) (first second : Answers),
    s.caches[i]? = some (SliceCache.new settings .enabled) → s.backend.Plain →
    (∀ r ∈ requests, ∀ f, r ≠ .setScript f) → (∀ t ∈ slices, t.fault? = none) →
    ((s.run requests).step (.getAll i slices)).1 = .batch (.ok first) →
    ((s.run (requests ++ [.getAll i slices])).step (.getAll i slices)).1 = .batch (.ok second) →
      ∀ t, first.lookup t = second.lookup t := by
  intro h
  have hsame := h (roomFor 1) 0 ⟨1, 600000, 60000, 1⟩ askedAndGrown narrowAndOther _ _ rfl
    (fun _ _ => rfl) (by simp [askedAndGrown]) (by decide) rfl rfl
    { detector := some 1, start := some 0 }
  have hlengths : some [Anomaly.stored 1 1 0 100] =
      some [.stored 1 1 0 100, .stored 2 1 200 300] := hsame
  cases hlengths

end Session
end Outlier
