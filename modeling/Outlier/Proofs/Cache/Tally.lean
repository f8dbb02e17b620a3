import Outlier.Proofs.Cache.Ledger
import Outlier.Proofs.Cache.Origin

/-! # What the counters add up to

Each distinct slice of a batch is counted once, as a hit or as a miss (`Access.served_lookedUp`). A
batch that fails is counted when its caller gets the error: at once, or later if it has to wait.
The accounts of a cache therefore balance over every operation (`SliceCache.Tallied`). -/

namespace Outlier

/-- The slices that were counted, with and without an answer from the entries. -/
def Stats.served (a : Stats) : Nat := a.hits + a.derivedHits + a.misses

namespace Access

variable {x : Access} {slices : List Slice} {P : List Anomaly → Prop}

/-- With an answer or without, each distinct slice is there once. -/
theorem length_pending {answers : Answers} (hn : (answers.map Prod.fst).Nodup)
    (hk : ∀ t ∈ answers.map Prod.fst, t ∈ slices) :
    answers.length + (pending slices answers).length = slices.eraseDups.length := by
  have hparts := List.length_eq_length_filter_add (l := slices.eraseDups)
    fun t => (answers.lookup t).isNone
  have hpending : slices.eraseDups.filter (fun t => (answers.lookup t).isNone) =
      pending slices answers := filter_eraseDups ..
  have hanswered : (slices.eraseDups.filter fun t => !(answers.lookup t).isNone).Perm
      (answers.map Prod.fst) := by
    refine (List.perm_ext_iff_of_nodup ((nodup_eraseDups slices).filter _) hn).2 fun t => ?_
    rw [List.mem_filter, List.mem_eraseDups, Bool.not_eq_true', ← Bool.not_eq_true,
      Option.isNone_iff_eq_none, lookup_eq_none_iff_not_mem, not_not]
    exact and_iff_right_of_imp (hk t)
  have hlength := hanswered.length_eq
  rw [List.length_map] at hlength
  rw [hpending] at hparts
  omega

theorem served_lookedUp (h : x.cache.Faithful P) (slices : List Slice) :
    (x.lookedUp slices).cache.stats.served = x.cache.stats.served + slices.eraseDups.length ∧
      (x.lookedUp slices).cache.stats.evictions = x.cache.stats.evictions := by
  obtain ⟨-, -, hn, hk⟩ := faithful_lookUp h slices
  have hhits := x.hits_lookUp slices
  have hcount := hhits.hits
  have hmisses := x.misses_lookedUp slices
  have hpending := length_pending hn hk
  refine ⟨?_, hhits.evictions⟩
  show (x.lookUp slices).2.cache.stats.hits + (x.lookUp slices).2.cache.stats.derivedHits +
    (x.lookedUp slices).cache.stats.misses = _
  rw [hmisses, Stats.served]
  omega

end Access

/-! ### Callers that wait -/

/-- No fetch among those that the batch made is one that still has to wait. -/
def Batch.Definite (b : Batch) : Prop := ∀ f ∈ b.fetched, f.2 ≠ .queued

namespace Batch

/-- Only a fetch that waits keeps a batch without an answer. -/
theorem exists_queued_of_outcome {timeout : Nat} {fs : List (Slice × Fetch)}
    (h : outcome timeout fs = none) : ∃ f ∈ fs, f.2 = .queued := by
  induction fs with
  | nil => cases h
  | cons f fs ih =>
    obtain ⟨s, f⟩ := f
    cases f with
    | rows l =>
      obtain ⟨g, hg, hq⟩ := ih (Option.map_eq_none_iff.1 h)
      exact ⟨g, List.mem_cons_of_mem _ hg, hq⟩
    | failed e => cases h
    | hanging => cases h
    | queued => exact ⟨(s, .queued), List.mem_cons_self, rfl⟩

theorem Definite.waiting_ne_nil {b : Batch} (h : b.Definite) {timeout : Nat}
    (hv : b.verdict timeout = none) : b.waiting ≠ [] := by
  intro hnil
  obtain ⟨f, hf, hq⟩ := exists_queued_of_outcome (Option.map_eq_none_iff.1 hv)
  rw [hnil, List.map_nil, List.append_nil] at hf
  exact h f hf hq

/-- The slices of the batches whose callers have no answer yet. -/
def unanswered (queue : List Batch) : List (List Slice) :=
  (queue.filter (!·.answered)).map (·.slices)

@[simp] theorem unanswered_append (queue more : List Batch) :
    unanswered (queue ++ more) = unanswered queue ++ unanswered more := by
  rw [unanswered, List.filter_append, List.map_append]
  rfl

theorem unanswered_of_answered {b : Batch} (h : b.answered = true) : unanswered [b] = [] := by
  simp [unanswered, h]

theorem unanswered_of_not {b : Batch} (h : b.answered = false) : unanswered [b] = [b.slices] := by
  simp [unanswered, h]

end Batch

namespace SliceCache

/-- So it is with all batches in the queue. -/
def Definite (c : SliceCache) : Prop := ∀ b ∈ c.queue, b.Definite

/-- How many of the batches that had to wait failed. -/
def lateFailures (c : SliceCache) : Nat := c.late.countP fun a => !a.2.isOk

/-- The batches that had to wait, with a late answer or with none yet. -/
def waiters (c : SliceCache) : List (List Slice) :=
  c.late.map Prod.fst ++ Batch.unanswered c.queue

/-- From the one state of a cache to the other, callers asked for `served` distinct slices in all,
`dropped` entries were dropped, `failed` callers got an error at once, and the callers `asked` had
to wait. -/
structure Tallied (served dropped failed : Nat) (asked : List (List Slice)) (c c' : SliceCache) :
    Prop where
  served : c'.stats.served = c.stats.served + served
  evictions : c'.stats.evictions = c.stats.evictions + dropped
  /-- The other failures that were counted are late answers. -/
  failed : c'.stats.failedBatches + c.lateFailures =
    c.stats.failedBatches + failed + c'.lateFailures
  /-- Those who had to wait got one answer, or wait still. -/
  waiters : c'.waiters.Perm (c.waiters ++ asked)
  definite : c.Definite → c'.Definite

namespace Tallied

variable {c c' c'' : SliceCache} {served served' dropped dropped' failed failed' : Nat}
  {asked asked' : List (List Slice)}

theorem of_same (hstats : c'.stats = c.stats) (hqueue : c'.queue = c.queue)
    (hlate : c'.late = c.late) : Tallied 0 0 0 [] c c' where
  served := congrArg Stats.served hstats
  evictions := congrArg Stats.evictions hstats
  failed := by rw [hstats, lateFailures, lateFailures, hlate, Nat.add_zero]
  waiters := by rw [SliceCache.waiters, SliceCache.waiters, hqueue, hlate, List.append_nil]
  definite h b hb := h b (hqueue ▸ hb)

theorem refl (c : SliceCache) : Tallied 0 0 0 [] c c := of_same rfl rfl rfl

theorem trans (h : Tallied served dropped failed asked c c')
    (k : Tallied served' dropped' failed' asked' c' c'') :
    Tallied (served + served') (dropped + dropped') (failed + failed') (asked ++ asked') c c'' where
  served := by rw [k.served, h.served, Nat.add_assoc]
  evictions := by rw [k.evictions, h.evictions, Nat.add_assoc]
  failed := by
    have hfailed := h.failed
    have kfailed := k.failed
    omega
  waiters := by
    rw [← List.append_assoc]
    exact k.waiters.trans (h.waiters.append_right _)
  definite := k.definite ∘ h.definite

theorem cleanUp (c : SliceCache) (now : Nat) :
    Tallied 0 (c.cleanUp now).1 0 [] c (c.cleanUp now).2 := by
  obtain ⟨l, -, heq⟩ := c.exists_cleanUp now
  rw [heq]
  exact ⟨rfl, rfl, rfl, by simp [SliceCache.waiters], id⟩

theorem clear (c : SliceCache) : Tallied 0 c.size 0 [] c c.clear :=
  ⟨rfl, rfl, rfl, by simp [SliceCache.waiters, SliceCache.clear], id⟩

end Tallied

end SliceCache

namespace Access

variable {x y : Access} {b : Batch} {slices : List Slice} {P : List Anomaly → Prop}

open SliceCache (Tallied)

/-- 1 if the caller gets an error now. -/
def failsNow {α : Type} : Option (Except CacheError α) → Nat
  | some (.error _) => 1
  | _ => 0

/-- The slices of the caller, if there is no answer yet. -/
def waitsNow {α : Type} (slices : List Slice) : Option (Except CacheError α) → List (List Slice)
  | none => [slices]
  | some _ => []

/-! ### One batch -/

theorem definite_fetchAll (x : Access) (isOpen : Bool) (slices : List Slice) :
    ∀ f ∈ (x.fetchAll isOpen slices).1, f.2 ≠ .queued := by
  induction slices generalizing x with
  | nil => exact List.forall_mem_nil _
  | cons s rest ih =>
    unfold fetchAll
    split
    · exact List.forall_mem_nil _
    · refine List.forall_mem_cons.2 ⟨?_, ih _⟩
      show (settle _ s (x.backend.call s.predicate isOpen).1).1 ≠ .queued
      intro h
      cases houtcome : (x.backend.call s.predicate isOpen).1 <;>
      · rw [houtcome] at h
        cases h

theorem tallied_enqueue_answered (hb : b.Definite) (h : b.answered = true) (x : Access) :
    Tallied 0 0 0 [] x.cache (x.enqueue b).cache := by
  by_cases hw : b.waiting = []
  · rw [x.enqueue_of_nil hw]
    exact .refl _
  · rw [x.enqueue_of_ne_nil hw]
    refine ⟨rfl, rfl, rfl, ?_, fun hx => ?_⟩
    · simp [SliceCache.waiters, Batch.unanswered_of_answered h]
    · exact List.forall_mem_append.2 ⟨hx, List.forall_mem_singleton.2 hb⟩

theorem tallied_enqueue (hb : b.Definite) (h : b.answered = false) (hw : b.waiting ≠ [])
    (x : Access) : Tallied 0 0 0 [b.slices] x.cache (x.enqueue b).cache := by
  rw [x.enqueue_of_ne_nil hw]
  refine ⟨rfl, rfl, rfl, ?_, fun hx => ?_⟩
  · simp [SliceCache.waiters, Batch.unanswered_of_not h]
  · exact List.forall_mem_append.2 ⟨hx, List.forall_mem_singleton.2 hb⟩

theorem tallied_conclude (x : Access) (r : Except CacheError Answers) :
    Tallied 0 0 (failsNow (some r)) [] x.cache (x.conclude r).cache := by
  cases r with
  | ok answers => exact .refl _
  | error e =>
    refine ⟨rfl, rfl, rfl, ?_, id⟩
    simp [SliceCache.waiters, conclude, failBatch]

/-- A failure that is reported late is counted with the late answers. -/
theorem tallied_report (x : Access) (slices : List Slice) (r : Except CacheError Answers) :
    Tallied 0 0 0 [slices] x.cache ((x.report slices r).conclude r).cache := by
  have hwaiters : ((x.report slices r).conclude r).cache.waiters =
      x.cache.late.map Prod.fst ++ ([slices] ++ Batch.unanswered x.cache.queue) := by
    cases r <;> simp [SliceCache.waiters, report, conclude, failBatch]
  have hperm : ((x.report slices r).conclude r).cache.waiters.Perm
      (x.cache.waiters ++ [slices]) := by
    rw [hwaiters, SliceCache.waiters, List.append_assoc]
    exact List.perm_append_comm.append_left _
  cases r with
  | ok answers =>
    have hlast : [(slices, (.ok answers : Except CacheError Answers))].countP
        (fun a => !a.2.isOk) = 0 := rfl
    refine ⟨rfl, rfl, ?_, hperm, id⟩
    simp only [SliceCache.lateFailures, conclude, report, List.countP_append, hlast]
    omega
  | error e =>
    have hlast : [(slices, (.error e : Except CacheError Answers))].countP
        (fun a => !a.2.isOk) = 1 := rfl
    refine ⟨rfl, rfl, ?_, hperm, id⟩
    simp only [SliceCache.lateFailures, conclude, failBatch, report, List.countP_append, hlast]
    omega

/-- A batch of valid slices counts each distinct one; its caller gets rows or an error, or has to
wait. -/
theorem tallied_getAll (h : x.cache.Faithful P) (hv : ∀ t ∈ slices, t.fault? = none) :
    Tallied slices.eraseDups.length 0 (failsNow (x.getAll slices).1)
      (waitsNow slices (x.getAll slices).1) x.cache (x.getAll slices).2.cache := by
  have hb : (x.start slices).1.Definite := definite_fetchAll _ _ _
  obtain ⟨hserved, hevictions⟩ := x.served_lookedUp h slices
  obtain ⟨stats, hlooked, hfailed⟩ := x.lookedUp_eq slices
  obtain ⟨_, _, _, hcache⟩ :=
    (x.lookedUp slices).cache_fetchAll false (pending slices (x.lookUp slices).1)
  have hstart : Tallied slices.eraseDups.length 0 0 [] x.cache (x.start slices).2.cache := by
    rw [start_eq, hcache]
    refine ⟨hserved, hevictions, ?_, ?_, ?_⟩
    · rw [hlooked, hfailed]
      rfl
    · rw [hlooked, List.append_nil]
      exact .refl _
    · rw [hlooked]
      exact id
  unfold getAll
  rw [List.findSome?_eq_none_iff.2 hv]
  dsimp only
  cases hverdict : (x.start slices).1.verdict (x.start slices).2.cache.settings.shownTimeout with
  | none => exact hstart.trans (tallied_enqueue hb rfl (hb.waiting_ne_nil hverdict) _)
  | some r =>
    have hmarked := tallied_enqueue_answered (b := { (x.start slices).1 with answered := true }) hb
      rfl (x.start slices).2
    have hall := (hstart.trans hmarked).trans (tallied_conclude _ r)
    rw [Nat.zero_add (failsNow _)] at hall
    exact hall

/-! ### The queue -/

theorem tallied_answer (hb : b.Definite) (x : Access) :
    Tallied 0 0 0 (Batch.unanswered [b]) x.cache (x.answer b).cache := by
  unfold answer
  cases ha : b.answered with
  | true =>
    rw [if_pos rfl, Batch.unanswered_of_answered ha]
    exact tallied_enqueue_answered hb ha x
  | false =>
    rw [if_neg Bool.false_ne_true, Batch.unanswered_of_not ha]
    split
    next hverdict => exact tallied_enqueue hb ha (hb.waiting_ne_nil hverdict) x
    next r _ =>
      have hmarked := tallied_enqueue_answered (b := { b with answered := true }) hb rfl x
      exact hmarked.trans (tallied_report _ b.slices r)

theorem tallied_foldl_answer {queue : List Batch} (hq : ∀ b ∈ queue, b.Definite) (x : Access) :
    Tallied 0 0 0 (Batch.unanswered queue) x.cache (queue.foldl answer x).cache := by
  induction queue generalizing x with
  | nil => exact .refl _
  | cons b rest ih =>
    obtain ⟨hb, hrest⟩ := List.forall_mem_cons.1 hq
    have hall := (tallied_answer hb x).trans (ih hrest (x.answer b))
    rwa [← Batch.unanswered_append] at hall

/-- Fetching for the batches of a queue answers none of their callers. -/
theorem batches_serve (x : Access) (isOpen : Bool) {queue : List Batch}
    (hq : ∀ b ∈ queue, b.Definite) :
    (∀ b ∈ (x.serve isOpen queue).1, b.Definite) ∧
      Batch.unanswered (x.serve isOpen queue).1 = Batch.unanswered queue := by
  induction queue generalizing x with
  | nil => exact ⟨nofun, rfl⟩
  | cons b rest ih =>
    obtain ⟨hb, hrest⟩ := List.forall_mem_cons.1 hq
    obtain ⟨hdefinite, hsame⟩ := ih (x.fetchAll isOpen b.waiting).2.2 hrest
    refine ⟨List.forall_mem_cons.2 ⟨?_, hdefinite⟩, ?_⟩
    · exact List.forall_mem_append.2 ⟨hb, x.definite_fetchAll isOpen b.waiting⟩
    · have hhead : Batch.unanswered [{ b with
          fetched := b.fetched ++ (x.fetchAll isOpen b.waiting).1
          waiting := (x.fetchAll isOpen b.waiting).2.1 }] = Batch.unanswered [b] := by
        cases ha : b.answered <;> simp [Batch.unanswered, ha]
      have hall := congr (congrArg (· ++ ·) hhead) hsame
      rwa [← Batch.unanswered_append, ← Batch.unanswered_append] at hall

theorem tallied_serveQueue (h : x.cache.Definite) (isOpen : Bool) :
    Tallied 0 0 0 [] x.cache (x.serveQueue isOpen).cache := by
  obtain ⟨hdefinite, hsame⟩ := x.batches_serve isOpen h
  obtain ⟨_, _, _, hcache⟩ := x.cache_serve isOpen x.cache.queue
  let served : Access := { (x.serve isOpen x.cache.queue).2 with cache.queue := [] }
  have hall := tallied_foldl_answer hdefinite served
  have hstats : served.cache.stats = x.cache.stats := congrArg (·.stats) hcache
  have hlate : served.cache.late = x.cache.late := congrArg (·.late) hcache
  have hback : served.cache.waiters ++ Batch.unanswered (x.serve isOpen x.cache.queue).1 =
      x.cache.waiters ++ [] := by
    rw [hsame, List.append_nil, SliceCache.waiters, SliceCache.waiters, hlate]
    simp [served, Batch.unanswered]
  refine ⟨?_, ?_, ?_, ?_, fun _ => ?_⟩
  · exact hall.served.trans (congrArg Stats.served hstats)
  · exact hall.evictions.trans (congrArg Stats.evictions hstats)
  · have hfailed := hall.failed
    rw [hstats, SliceCache.lateFailures, hlate] at hfailed
    exact hfailed
  · rw [← hback]
    exact hall.waiters
  · exact hall.definite fun _ hb => absurd hb List.not_mem_nil

/-! ### Calls that end -/

theorem cache_foldl_finish (x : Access) (l : List Slice) : ∃ entries free hanging,
    (l.foldl (fun x _ => x.finish 0) x).cache = { x.cache with entries, free, hanging } := by
  induction l generalizing x with
  | nil => exact ⟨_, _, _, rfl⟩
  | cons s rest ih =>
    obtain ⟨entries, free, hanging, h⟩ := ih (x.finish 0)
    obtain ⟨_, _, _, hfinished⟩ := x.cache_finish 0
    refine ⟨entries, free, hanging, h.trans ?_⟩
    exact congrArg (fun c : SliceCache => { c with entries, free, hanging }) hfinished

/-- The permits that calls gave back go to the queue. -/
theorem tallied_serveQueue_of_ended
    (hended : ∃ entries free hanging, y.cache = { x.cache with entries, free, hanging })
    (h : x.cache.Definite) (isOpen : Bool) :
    Tallied 0 0 0 [] x.cache (y.serveQueue isOpen).cache := by
  obtain ⟨_, _, _, hcache⟩ := hended
  have hsame : Tallied 0 0 0 [] x.cache y.cache := by
    rw [hcache]
    exact .of_same rfl rfl rfl
  exact hsame.trans (tallied_serveQueue (hsame.definite h) isOpen)

theorem tallied_land (h : x.cache.Definite) (place : Nat) :
    Tallied 0 0 0 [] x.cache (x.land place).cache := by
  unfold land
  split
  · exact tallied_serveQueue_of_ended (x.cache_finish place) h false
  · exact .refl _

theorem tallied_release (h : x.cache.Definite) : Tallied 0 0 0 [] x.cache x.release.cache :=
  tallied_serveQueue_of_ended (x.cache_foldl_finish x.cache.hanging) h true

end Access
end Outlier
