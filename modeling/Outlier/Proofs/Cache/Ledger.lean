import Outlier.Proofs.Cache.Coverage

/-! # Every fetch is made once

Each slice that a batch has to fetch is counted as a miss, and from then on it waits for a permit
until the store is called for it, once (`Access.Accounted`). The calls in progress are those that
hang, and each of them goes on until it is brought to its end: none is forgotten when its batch
fails, and none that has returned is kept (`Backend.hung`). -/

namespace Outlier

namespace Backend

variable {b b' : Backend} {isOpen : Bool} {sent more : List Slice}

/-- Of slices for which the store is called in turn, those whose calls hang. With the gate open none
does. -/
def hung (b : Backend) (isOpen : Bool) (sent : List Slice) : List Slice :=
  if isOpen then [] else ((b.plan b.asked.length sent).filter (·.2.hangs)).map Prod.fst

@[simp] theorem hung_nil (b : Backend) (isOpen : Bool) : b.hung isOpen [] = [] := by
  cases isOpen <;> rfl

theorem plan_append (b : Backend) (n : Nat) (sent more : List Slice) :
    b.plan n (sent ++ more) = b.plan n sent ++ b.plan (n + sent.length) more := by
  induction sent generalizing n with
  | nil => rfl
  | cons s rest ih =>
    rw [List.cons_append, plan, plan, ih, List.length_cons, Nat.add_assoc, Nat.add_comm 1]
    rfl

theorem hung_append (hscript : b'.script = b.script)
    (hasked : b'.asked = b.asked ++ sent.map Slice.predicate) :
    b.hung isOpen (sent ++ more) = b.hung isOpen sent ++ b'.hung isOpen more := by
  cases isOpen with
  | true => rfl
  | false =>
    simp only [hung, Bool.false_eq_true, if_false]
    rw [plan_append, plan_congr hscript, hasked, List.length_append, List.length_map,
      List.filter_append, List.map_append]

theorem ask_ne_hanging (b : Backend) (p : Predicate) : (b.ask p).1 ≠ .hanging := by
  unfold ask
  split <;> nofun

/-- A call hangs if the script says so and the gate is closed. -/
theorem call_hangs (b : Backend) (s : Slice) (isOpen : Bool) :
    (b.call s.predicate isOpen).1 = .hanging ∧ b.hung isOpen [s] = [s] ∨
      (b.call s.predicate isOpen).1 ≠ .hanging ∧ b.hung isOpen [s] = [] := by
  unfold call
  cases hscript : b.script b.asked.length s.predicate with
  | obey =>
    refine .inr ⟨ask_ne_hanging _ _, ?_⟩
    cases isOpen <;> simp [hung, plan, hscript, Behaviour.hangs]
  | fail e =>
    refine .inr ⟨by simp, ?_⟩
    cases isOpen <;> simp [hung, plan, hscript, Behaviour.hangs]
  | crash =>
    refine .inr ⟨by simp, ?_⟩
    cases isOpen <;> simp [hung, plan, hscript, Behaviour.hangs]
  | everything =>
    refine .inr ⟨by simp, ?_⟩
    cases isOpen <;> simp [hung, plan, hscript, Behaviour.hangs]
  | hang =>
    cases isOpen with
    | true => exact .inr ⟨ask_ne_hanging _ _, rfl⟩
    | false => exact .inl ⟨rfl, by simp [hung, plan, hscript, Behaviour.hangs]⟩

end Backend

namespace Access

variable {x y z : Access} {isOpen : Bool} {sent sent' : List Slice}

/-! ### Calls -/

/-- The store is called for the slices in turn, and nothing else is done to the queue and to the
counters. -/
structure Sends (isOpen : Bool) (sent : List Slice) (x y : Access) : Prop where
  asked : y.backend.asked = x.backend.asked ++ sent.map Slice.predicate
  script : y.backend.script = x.backend.script
  hanging : y.cache.hanging = x.cache.hanging ++ x.backend.hung isOpen sent
  queue : y.cache.queue = x.cache.queue
  stats : y.cache.stats = x.cache.stats

namespace Sends

theorem refl (isOpen : Bool) (x : Access) : x.Sends isOpen [] x :=
  ⟨by simp, rfl, by simp, rfl, rfl⟩

theorem trans (h : x.Sends isOpen sent y) (k : y.Sends isOpen sent' z) :
    x.Sends isOpen (sent ++ sent') z where
  asked := by rw [k.asked, h.asked, List.map_append, List.append_assoc]
  script := k.script.trans h.script
  hanging := by
    rw [k.hanging, h.hanging, Backend.hung_append h.script h.asked, List.append_assoc]
  queue := k.queue.trans h.queue
  stats := k.stats.trans h.stats

end Sends

theorem hanging_settle_of_ne (x : Access) (s : Slice) {o : Outcome} (ho : o ≠ .hanging) :
    (x.settle s o).2.cache.hanging = x.cache.hanging := by
  cases o with
  | rows l =>
    simp only [settle]
    split <;> rfl
  | failed e => rfl
  | crashed => rfl
  | hanging => exact absurd rfl ho

theorem sends_fetch (x : Access) (isOpen : Bool) (s : Slice) :
    x.Sends isOpen [s] (x.fetch isOpen s).2 := by
  let called : Access := { x with backend := (x.backend.call s.predicate isOpen).2 }
  obtain ⟨_, _, _, hcache⟩ := cache_settle called s (x.backend.call s.predicate isOpen).1
  refine ⟨?_, (x.follows_fetch isOpen s).script, ?_, ?_, ?_⟩
  · rw [backend_fetch, Backend.asked_call]
    rfl
  · show (called.settle s (x.backend.call s.predicate isOpen).1).2.cache.hanging = _
    rcases x.backend.call_hangs s isOpen with ⟨ho, hhung⟩ | ⟨ho, hhung⟩
    · rw [ho, hhung]
      rfl
    · rw [hanging_settle_of_ne called s ho, hhung, List.append_nil]
  · show (called.settle s (x.backend.call s.predicate isOpen).1).2.cache.queue = _
    rw [hcache]
  · show (called.settle s (x.backend.call s.predicate isOpen).1).2.cache.stats = _
    rw [hcache]

theorem sends_fetchAll (x : Access) (isOpen : Bool) (slices : List Slice) :
    x.Sends isOpen ((x.fetchAll isOpen slices).1.map Prod.fst) (x.fetchAll isOpen slices).2.2 := by
  induction slices generalizing x with
  | nil => exact .refl isOpen x
  | cons s rest ih =>
    unfold fetchAll
    split
    · exact .refl isOpen x
    · exact (x.sends_fetch isOpen s).trans (ih _)

/-- Serving a queue calls the store for some of the slices that waited; the others still do. -/
theorem sends_serve (x : Access) (isOpen : Bool) (queue : List Batch) :
    ∃ sent, x.Sends isOpen sent (x.serve isOpen queue).2 ∧
      (sent ++ (x.serve isOpen queue).1.flatMap (·.waiting)).Perm (queue.flatMap (·.waiting)) := by
  induction queue generalizing x with
  | nil => exact ⟨[], .refl isOpen x, .refl _⟩
  | cons b rest ih =>
    obtain ⟨sent, hsends, hperm⟩ := ih (x.fetchAll isOpen b.waiting).2.2
    refine ⟨_, (x.sends_fetchAll isOpen b.waiting).trans hsends, ?_⟩
    have hkeys := x.keys_fetchAll isOpen b.waiting
    simp only [serve, List.flatMap_cons]
    have hswap : (sent ++ ((x.fetchAll isOpen b.waiting).2.1 ++
        (serve (x.fetchAll isOpen b.waiting).2.2 isOpen rest).1.flatMap (·.waiting))).Perm
        ((x.fetchAll isOpen b.waiting).2.1 ++ rest.flatMap (·.waiting)) := by
      refine (List.perm_append_comm_assoc ..).trans ?_
      exact hperm.append_left _
    rw [List.append_assoc]
    refine (hswap.append_left _).trans ?_
    rw [← List.append_assoc, hkeys]

/-! ### The queue -/

theorem queues_answer (x : Access) (b : Batch) : x.Queues b.waiting (x.answer b) := by
  unfold answer
  split
  · exact x.queues_enqueue b
  · split
    · exact x.queues_enqueue b
    next r _ =>
      have hreport : Queues [] (x.enqueue { b with answered := true })
          ((x.enqueue { b with answered := true }).report b.slices r) :=
        ⟨rfl, rfl, (List.append_nil _).symm, rfl⟩
      have hall := (x.queues_enqueue { b with answered := true }).trans
        (hreport.trans (queues_conclude _ r))
      rwa [List.append_nil, List.append_nil] at hall

theorem queues_foldl_answer (x : Access) (queue : List Batch) :
    x.Queues (queue.flatMap (·.waiting)) (queue.foldl answer x) := by
  induction queue generalizing x with
  | nil => exact .refl x
  | cons b rest ih => exact (x.queues_answer b).trans (ih _)

/-! ### Operations -/

/-- Of the calls that hung, those for `kept` still do, and the store is called for `sent`. The
slices `missed` are counted as misses; of these and of those that waited, each was sent or waits. -/
structure Accounted (isOpen : Bool) (kept sent missed : List Slice) (x y : Access) : Prop where
  asked : y.backend.asked = x.backend.asked ++ sent.map Slice.predicate
  hanging : y.cache.hanging = kept ++ x.backend.hung isOpen sent
  waiting : (sent ++ y.cache.waiting).Perm (x.cache.waiting ++ missed)
  misses : y.cache.stats.misses = x.cache.stats.misses + missed.length

theorem Accounted.idle (isOpen : Bool) (hasked : y.backend.asked = x.backend.asked)
    (hhanging : y.cache.hanging = x.cache.hanging) (hqueue : y.cache.queue = x.cache.queue)
    (hmisses : y.cache.stats.misses = x.cache.stats.misses) :
    x.Accounted isOpen x.cache.hanging [] [] y where
  asked := by simp [hasked]
  hanging := by simp [hhanging]
  waiting := by simp [SliceCache.waiting, hqueue]
  misses := hmisses

theorem accounted_serveQueue (x : Access) (isOpen : Bool) :
    ∃ sent, x.Accounted isOpen x.cache.hanging sent [] (x.serveQueue isOpen) := by
  obtain ⟨sent, hsends, hperm⟩ := x.sends_serve isOpen x.cache.queue
  let served : Access := { (x.serve isOpen x.cache.queue).2 with cache.queue := [] }
  have hqueues := served.queues_foldl_answer (x.serve isOpen x.cache.queue).1
  refine ⟨sent, hqueues.asked.trans hsends.asked, hqueues.hanging.trans hsends.hanging, ?_, ?_⟩
  · have hwaiting : (x.serveQueue isOpen).cache.waiting =
        (x.serve isOpen x.cache.queue).1.flatMap (·.waiting) := hqueues.waiting
    rw [hwaiting, List.append_nil]
    exact hperm
  · exact hqueues.misses.trans (congrArg Stats.misses hsends.stats)

/-- Without faults, the distinct slices that the entries do not answer. -/
def missed (x : Access) (slices : List Slice) : List Slice :=
  match slices.findSome? Slice.fault? with
  | some _ => []
  | none => pending slices (x.lookUp slices).1

end Access

/-- The second counters have `n` more answers from entries, and nothing else. -/
structure Stats.Hits (n : Nat) (a b : Stats) : Prop where
  hits : b.hits + b.derivedHits = a.hits + a.derivedHits + n
  misses : b.misses = a.misses
  evictions : b.evictions = a.evictions

namespace SliceCache

/-! ### Looking up -/

namespace Lookup

variable {a : Stats} {l : Lookup}

theorem hits_derive (h : a.Hits l.answers.length l.stats) (now ttl : Nat) (s : Slice) :
    a.Hits (l.derive now ttl s).answers.length (l.derive now ttl s).stats := by
  unfold Lookup.derive
  split
  · exact h
  · refine ⟨?_, h.misses, h.evictions⟩
    have hhits := h.hits
    simp only [List.length_append, List.length_singleton]
    omega

theorem hits_step (h : a.Hits l.answers.length l.stats) (now ttl : Nat) (s : Slice) :
    a.Hits (l.step now ttl s).answers.length (l.step now ttl s).stats := by
  unfold Lookup.step
  split
  · exact h
  · split
    · exact hits_derive h now ttl s
    · split
      · refine ⟨?_, h.misses, h.evictions⟩
        have hhits := h.hits
        simp only [List.length_append, List.length_singleton]
        omega
      · exact hits_derive (l := { l with entries := l.entries.erase s }) h now ttl s

theorem hits_foldl (h : a.Hits l.answers.length l.stats) (now ttl : Nat) (slices : List Slice) :
    a.Hits (slices.foldl (Lookup.step now ttl) l).answers.length
      (slices.foldl (Lookup.step now ttl) l).stats := by
  induction slices generalizing l with
  | nil => exact h
  | cons s rest ih => exact ih (hits_step h now ttl s)

end Lookup

theorem hits_lookUp (c : SliceCache) (now : Nat) (slices : List Slice) :
    c.stats.Hits (c.lookUp now slices).1.length (c.lookUp now slices).2.stats := by
  let found := slices.foldl (Lookup.step now c.settings.idleTtl)
    { entries := c.entries, stats := c.stats }
  have hfound : c.stats.Hits found.answers.length found.stats :=
    Lookup.hits_foldl ⟨rfl, rfl, rfl⟩ now c.settings.idleTtl slices
  obtain ⟨entries, hkept, -⟩ := foldl_keep now found.derived (c.during found)
  have hstats : (c.lookUp now slices).2.stats = found.stats := congrArg (·.stats) hkept
  rw [hstats]
  exact hfound

end SliceCache

namespace Access

variable {x y z : Access} {slices sent : List Slice} {isOpen : Bool}

theorem hits_lookUp (x : Access) (slices : List Slice) :
    x.cache.stats.Hits (x.lookUp slices).1.length (x.lookUp slices).2.cache.stats := by
  unfold lookUp
  split
  · exact x.cache.hits_lookUp x.backend.clock slices
  · exact ⟨rfl, rfl, rfl⟩

theorem misses_lookedUp (x : Access) (slices : List Slice) :
    (x.lookedUp slices).cache.stats.misses =
      x.cache.stats.misses + (pending slices (x.lookUp slices).1).length :=
  congrArg (· + (pending slices (x.lookUp slices).1).length) (x.hits_lookUp slices).misses

/-- A batch counts what it has to fetch, and calls the store for it or queues it. -/
theorem accounted_getAll (x : Access) (slices : List Slice) :
    ∃ sent, x.Accounted false x.cache.hanging sent (x.missed slices) (x.getAll slices).2 := by
  unfold missed
  cases hfault : slices.findSome? Slice.fault? with
  | some f =>
    refine ⟨[], ?_⟩
    unfold getAll
    rw [hfault]
    exact .idle false rfl rfl rfl rfl
  | none =>
    have hv := List.findSome?_eq_none_iff.1 hfault
    have hqueues := queues_getAll (x := x) hv
    obtain ⟨_, hlooked, -⟩ := x.lookedUp_eq slices
    have hsends : (x.lookedUp slices).Sends false (x.called slices) (x.start slices).2 :=
      sends_fetchAll _ false (pending slices (x.lookUp slices).1)
    refine ⟨x.called slices, asked_getAll_of_valid hv, ?_, ?_, ?_⟩
    · rw [hqueues.hanging, hsends.hanging, hlooked]
    · rw [waiting_getAll hv]
      refine (List.perm_append_comm_assoc ..).trans ?_
      rw [called_append_postponed]
    · rw [hqueues.misses, hsends.stats, misses_lookedUp]

theorem asked_getAll_of_full (hfree : x.cache.free = 0) (slices : List Slice) :
    (x.getAll slices).2.backend.asked = x.backend.asked := by
  cases hfault : slices.findSome? Slice.fault? with
  | some f =>
    unfold getAll
    rw [hfault]
  | none =>
    obtain ⟨_, hlooked, -⟩ := x.lookedUp_eq slices
    have hfull : (x.lookedUp slices).cache.free = 0 := by rw [hlooked]; exact hfree
    have hcalled : x.called slices = [] := by
      rw [called, start_eq, fetchAll_of_free_eq_zero hfull]
      rfl
    rw [asked_getAll_of_valid (List.findSome?_eq_none_iff.1 hfault), hcalled, List.map_nil,
      List.append_nil]

/-! ### Calls that end -/

theorem asked_finish (x : Access) (place : Nat) :
    (x.finish place).backend.asked = x.backend.asked := by
  unfold finish
  split
  · rfl
  next s _ =>
    show (settle _ s _).2.backend.asked = _
    rw [backend_settle]
    exact x.backend.asked_ask s.predicate

theorem hanging_finish (x : Access) (place : Nat) :
    (x.finish place).cache.hanging = x.cache.hanging.eraseIdx place := by
  unfold finish
  split
  next hnone => rw [List.eraseIdx_of_length_le (List.getElem?_eq_none_iff.1 hnone)]
  next s _ =>
    exact hanging_settle_of_ne { x with
      cache.free := x.cache.free + 1
      cache.hanging := x.cache.hanging.eraseIdx place
      backend := (x.backend.ask s.predicate).2 } s (Backend.ask_ne_hanging _ _)

/-- What is accounted for after calls have ended is accounted for together with them. -/
theorem Accounted.of_ended {kept : List Slice} (h : y.Accounted isOpen kept sent [] z)
    (hasked : y.backend.asked = x.backend.asked) (hscript : y.backend.script = x.backend.script)
    (hqueue : y.cache.queue = x.cache.queue) (hstats : y.cache.stats = x.cache.stats) :
    x.Accounted isOpen kept sent [] z where
  asked := by rw [h.asked, hasked]
  hanging := by
    have hhung : y.backend.hung isOpen sent = x.backend.hung isOpen sent := by
      simp only [Backend.hung, hasked, Backend.plan_congr hscript]
    rw [h.hanging, hhung]
  waiting := by
    have hwaiting : y.cache.waiting = x.cache.waiting := congrArg (·.flatMap (·.waiting)) hqueue
    exact hwaiting ▸ h.waiting
  misses := by rw [h.misses, hstats]

theorem accounted_land (x : Access) (place : Nat) :
    ∃ sent, x.Accounted false (x.cache.hanging.eraseIdx place) sent [] (x.land place) := by
  unfold land
  split
  · obtain ⟨sent, h⟩ := (x.finish place).accounted_serveQueue false
    obtain ⟨_, _, _, hcache⟩ := x.cache_finish place
    rw [hanging_finish] at h
    refine ⟨sent, h.of_ended (x.asked_finish place) (x.follows_finish place).script ?_ ?_⟩ <;>
    rw [hcache]
  next hplace =>
    rw [List.eraseIdx_of_length_le (Nat.not_lt.1 hplace)]
    exact ⟨[], .idle false rfl rfl rfl rfl⟩

theorem foldl_finish (x : Access) (l : List Slice) :
    (l.foldl (fun x _ => x.finish 0) x).backend.asked = x.backend.asked ∧
      (l.foldl (fun x _ => x.finish 0) x).cache.hanging = x.cache.hanging.drop l.length ∧
      (l.foldl (fun x _ => x.finish 0) x).cache.queue = x.cache.queue ∧
      (l.foldl (fun x _ => x.finish 0) x).cache.stats = x.cache.stats := by
  induction l generalizing x with
  | nil => exact ⟨rfl, rfl, rfl, rfl⟩
  | cons s rest ih =>
    obtain ⟨hasked, hhanging, hqueue, hstats⟩ := ih (x.finish 0)
    obtain ⟨_, _, _, hcache⟩ := x.cache_finish 0
    refine ⟨hasked.trans (x.asked_finish 0), hhanging.trans ?_, hqueue.trans ?_, hstats.trans ?_⟩
    · rw [hanging_finish, List.eraseIdx_zero, ← List.drop_one, List.drop_drop, List.length_cons,
        Nat.add_comm 1]
    · rw [hcache]
    · rw [hcache]

theorem accounted_release (x : Access) : ∃ sent, x.Accounted true [] sent [] x.release := by
  let ended := x.cache.hanging.foldl (fun x _ => x.finish 0) x
  obtain ⟨hasked, hhanging, hqueue, hstats⟩ := x.foldl_finish x.cache.hanging
  obtain ⟨sent, h⟩ := ended.accounted_serveQueue true
  have hnone : ended.cache.hanging = [] := by rw [hhanging, List.drop_length]
  rw [hnone] at h
  have hscript := (Follows.foldl (fun x _ => x.follows_finish 0) x.cache.hanging x).script
  exact ⟨sent, h.of_ended hasked hscript hqueue hstats⟩

end Access
end Outlier
