import Mathlib.Algebra.Ring.Nat
import Outlier.Proofs.Cache.Tally
import Outlier.Proofs.Session.Snapshot

/-! # Counters over a whole run

The counters of a cache are the totals of what its callers asked for and got, request by request
(`Session.tally_run`). A request that is refused for an invalid slice counts for nothing, and it
changes nothing at all (`step_getAll_of_fault`). -/

namespace Outlier

namespace Reply

def isError : Reply → Bool
  | .anomalies (.error _) | .batch (.error _) => true
  | _ => false

def isWaiting : Reply → Bool
  | .waiting => true
  | _ => false

end Reply

namespace Session

open SliceCache (Tallied)

variable {s : Session} {i : Nat} {r : Request} {c c' : SliceCache} {slices : List Slice}
  {P : List Anomaly → Prop}

/-! ### What a request counts for -/

/-- The slices for which a request asks cache `i`, unless one of them is invalid. -/
def accepted? (i : Nat) (r : Request) : Option (List Slice) :=
  (slicesOf? i r).filter fun slices => slices.all (·.fault?.isNone)

/-- How many distinct slices cache `i` is asked for. -/
def distinct (i : Nat) (_ : Session) (r : Request) : Nat :=
  (accepted? i r).elim 0 (·.eraseDups.length)

/-- 1 if the caller of cache `i` gets an error at once, and not for an invalid slice. -/
def fails (i : Nat) (s : Session) (r : Request) : Nat :=
  (accepted? i r).elim 0 fun _ => if (s.step r).1.isError then 1 else 0

/-- The slices for which a caller of cache `i` has to wait. -/
def waits (i : Nat) (s : Session) (r : Request) : List (List Slice) :=
  (accepted? i r).elim [] fun slices => if (s.step r).1.isWaiting then [slices] else []

/-! ### Requests that are refused -/

theorem findSome?_of_fault {before after : List Slice} {t : Slice} {f : SliceFault}
    (hbefore : ∀ u ∈ before, u.fault? = none) (ht : t.fault? = some f) :
    (before ++ t :: after).findSome? Slice.fault? = some f := by
  rw [List.findSome?_append, List.findSome?_eq_none_iff.2 hbefore, List.findSome?_cons, ht]
  rfl

theorem visit_of_same (hc : s.caches[i]? = some c) {act : Access → Reply × Access} {reply : Reply}
    (hact : act ⟨c, s.backend⟩ = (reply, ⟨c, s.backend⟩)) : s.visit i act = (reply, s) := by
  obtain ⟨hi, hget⟩ := List.getElem?_eq_some_iff.1 hc
  rw [visit_of_some s hc, hact]
  subst hget
  simp only [List.set_getElem_self]

theorem step_getAll_of_fault (hc : s.caches[i]? = some c) {f : SliceFault}
    (h : slices.findSome? Slice.fault? = some f) :
    s.step (.getAll i slices) = (.batch (.error (.invalidQuery f.message)), s) := by
  have hact : (⟨c, s.backend⟩ : Access).getAll slices =
      (some (.error (.invalidQuery f.message)), ⟨c, s.backend⟩) := by
    simp only [Access.getAll, h]
  simp only [step]
  exact visit_of_same hc (by rw [hact]; rfl)

theorem step_get_of_fault (hc : s.caches[i]? = some c) {t : Slice} {f : SliceFault}
    (h : t.fault? = some f) :
    s.step (.get i t) = (.anomalies (.error (.invalidQuery f.message)), s) := by
  have hall : [t].findSome? Slice.fault? = some f := by
    rw [List.findSome?_cons, h]
  have hact : (⟨c, s.backend⟩ : Access).get t =
      (some (.error (.invalidQuery f.message)), ⟨c, s.backend⟩) := by
    simp only [Access.get, Access.getAll, hall]
    rfl
  simp only [step]
  exact visit_of_same hc (by rw [hact]; rfl)

/-! ### One request -/

theorem tallied_of_refused (h : accepted? i r = none)
    (htallied : Tallied 0 (dropped i s r) 0 [] c c') :
    Tallied (distinct i s r) (dropped i s r) (fails i s r) (waits i s r) c c' := by
  simpa only [distinct, fails, waits, h, Option.elim] using htallied

theorem accepted?_of_spares (h : Spares i r) : accepted? i r = none := by
  rw [accepted?, h.slices, Option.filter_none]

theorem accepted?_of_valid (hr : slicesOf? i r = some slices)
    (hv : ∀ t ∈ slices, t.fault? = none) : accepted? i r = some slices := by
  rw [accepted?, hr, Option.filter_some, if_pos]
  exact List.all_eq_true.2 fun t ht => Option.isNone_iff_eq_none.2 (hv t ht)

theorem accepted?_of_fault (hr : slicesOf? i r = some slices) {f : SliceFault}
    (hf : slices.findSome? Slice.fault? = some f) : accepted? i r = none := by
  rw [accepted?, hr, Option.filter_some, if_neg]
  intro hall
  obtain ⟨t, ht, htf⟩ := List.exists_of_findSome?_eq_some hf
  rw [Option.isNone_iff_eq_none.1 (List.all_eq_true.1 hall t ht)] at htf
  cases htf

/-- A request for slices is a batch of them, and its reply says what the batch came to. -/
theorem tallied_of_asked (hc : s.caches[i]? = some c) (hf : c.Faithful P)
    (hr : slicesOf? i r = some slices) :
    Tallied (distinct i s r) (dropped i s r) (fails i s r) (waits i s r) c
      (Access.getAll ⟨c, s.backend⟩ slices).2.cache := by
  have hdropped : dropped i s r = 0 := by
    cases r with
    | get | getAll => rfl
    | _ => cases hr
  cases hfault : slices.findSome? Slice.fault? with
  | some f =>
    refine tallied_of_refused (accepted?_of_fault hr hfault) ?_
    rw [hdropped]
    simp only [Access.getAll, hfault]
    exact .refl c
  | none =>
    have hv := List.findSome?_eq_none_iff.1 hfault
    have hbatch := Access.tallied_getAll (x := ⟨c, s.backend⟩) hf hv
    have hreply := reply_of_slicesOf? s hc hr
    simp only [distinct, fails, waits, accepted?_of_valid hr hv, Option.elim, hdropped]
    revert hreply hbatch
    rcases (Access.getAll ⟨c, s.backend⟩ slices).1 with _ | e | answers
    · intro hbatch hreply
      rw [hreply]
      exact hbatch
    · rintro hbatch (hreply | hreply) <;>
      · rw [hreply]
        exact hbatch
    · rintro hbatch (⟨rows, hreply⟩ | hreply) <;>
      · rw [hreply]
        exact hbatch

/-- **What a request counts for** is what the counters of the cache count. -/
theorem tallied_step (hc : s.caches[i]? = some c) (hf : c.Faithful P) (hd : c.Definite)
    (r : Request) :
    ∃ c', (s.step r).2.caches[i]? = some c' ∧
      Tallied (distinct i s r) (dropped i s r) (fails i s r) (waits i s r) c c' := by
  obtain ⟨b, y, hturn⟩ := s.exists_turn hc r
  refine ⟨y.cache, hturn.after, ?_⟩
  cases hturn.does with
  | rest hspares hdropped =>
    exact tallied_of_refused (accepted?_of_spares hspares) (hdropped ▸ .refl c)
  | @asked _ slices hslices =>
    have hsame : b = s.backend := hturn.direct fun hr => by simp [hr, slicesOf?] at hslices
    subst hsame
    exact tallied_of_asked hc hf hslices
  | cleaned hspares hdropped =>
    exact tallied_of_refused (accepted?_of_spares hspares) (hdropped ▸ .cleanUp c b.clock)
  | cleared hdropped => exact tallied_of_refused rfl (hdropped ▸ .clear c)
  | landed place => exact tallied_of_refused rfl (Access.tallied_land (x := ⟨c, b⟩) hd place)
  | released => exact tallied_of_refused rfl (Access.tallied_release (x := ⟨c, b⟩) hd)

/-! ### Runs -/

/-- The requests of a run, each with the session to which it comes. -/
def moments : Session → List Request → List (Session × Request)
  | _, [] => []
  | s, r :: rest => (s, r) :: moments (s.step r).2 rest

theorem moments_append (s : Session) (before after : List Request) :
    s.moments (before ++ after) = s.moments before ++ (s.run before).moments after := by
  induction before generalizing s with
  | nil => rfl
  | cons r rest ih => exact congrArg ((s, r) :: ·) (ih _)

/-- What the requests of a run count for together. -/
def total (count : Session → Request → Nat) (s : Session) (requests : List Request) : Nat :=
  ((s.moments requests).map fun m => count m.1 m.2).sum

theorem total_concat (count : Session → Request → Nat) (s : Session) (requests : List Request)
    (r : Request) :
    s.total count (requests ++ [r]) = s.total count requests + count (s.run requests) r := by
  rw [total, moments_append, List.map_append, List.sum_append]
  exact congrArg (s.total count requests + ·) (Nat.add_zero _)

/-- The callers of cache `i` that had to wait in a run. -/
def waitsOver (i : Nat) (s : Session) (requests : List Request) : List (List Slice) :=
  (s.moments requests).flatMap fun m => waits i m.1 m.2

theorem waitsOver_concat (i : Nat) (s : Session) (requests : List Request) (r : Request) :
    s.waitsOver i (requests ++ [r]) = s.waitsOver i requests ++ (s.run requests).waits i r := by
  rw [waitsOver, moments_append, List.flatMap_append]
  exact congrArg (s.waitsOver i requests ++ ·) (List.append_nil _)

theorem tallied_run {settings : Settings} {mode : Mode}
    (h : s.caches[i]? = some (SliceCache.new settings mode)) (requests : List Request) :
    ∃ c, (s.run requests).caches[i]? = some c ∧
      Tallied (s.total (distinct i) requests) (s.total (dropped i) requests)
        (s.total (fails i) requests) (s.waitsOver i requests) (SliceCache.new settings mode) c := by
  induction requests using List.reverseRecOn with
  | nil => exact ⟨_, h, .refl _⟩
  | append_singleton requests r ih =>
    obtain ⟨c, hc, htallied⟩ := ih
    obtain ⟨d, hd, hfaithful⟩ := faithful_run h requests
    obtain rfl : c = d := Option.some.inj (hc.symm.trans hd)
    have hdefinite : c.Definite := htallied.definite fun _ hb => absurd hb List.not_mem_nil
    obtain ⟨c', hc', hstep⟩ := tallied_step hc hfaithful hdefinite r
    refine ⟨c', ?_, ?_⟩
    · rw [run_append]
      exact hc'
    · simp only [total_concat, waitsOver_concat]
      exact htallied.trans hstep

/-- The counters of cache `i` after the requests. -/
structure Tally (s : Session) (i : Nat) (requests : List Request) (c : SliceCache) : Prop where
  cache : (s.run requests).caches[i]? = some c
  /-- Each distinct slice of each request that was not refused is a hit, a derived hit or a miss. -/
  served : c.stats.hits + c.stats.derivedHits + c.stats.misses = s.total (distinct i) requests
  /-- The batches that failed are those whose callers got an error, at once or late. -/
  failed : c.stats.failedBatches = s.total (fails i) requests + c.late.countP fun a => !a.2.isOk
  /-- Late answers went to the callers that had to wait, one to each; the others wait still. -/
  waiters : (c.late.map Prod.fst ++ Batch.unanswered c.queue).Perm (s.waitsOver i requests)
  /-- What was dropped are the results of all clean-ups and the entries found by requests to clear.
  -/
  evictions : c.stats.evictions = s.total (dropped i) requests
  /-- A batch is refused for the first of its slices that is invalid, and nothing changes. -/
  refused : ∀ (before : List Slice) (t : Slice) (after : List Slice) (f : SliceFault),
    (∀ u ∈ before, u.fault? = none) → t.fault? = some f →
      (s.run requests).step (.getAll i (before ++ t :: after)) =
        (.batch (.error (.invalidQuery f.message)), s.run requests)
  refused_get : ∀ (t : Slice) (f : SliceFault), t.fault? = some f →
    (s.run requests).step (.get i t) =
      (.anomalies (.error (.invalidQuery f.message)), s.run requests)

/-- **Counters balance.** After any requests since a cache was made, its hits, derived hits and
misses are the distinct slices it was asked for, its failed batches the calls that came to an error,
and its evictions what clean-ups and clearing dropped. A batch with an invalid slice leaves no
trace. -/
theorem tally_run (s : Session) (i : Nat) (settings : Settings) (mode : Mode)
    (h : s.caches[i]? = some (SliceCache.new settings mode)) (requests : List Request) :
    ∃ c, s.Tally i requests c := by
  obtain ⟨c, hc, htallied⟩ := tallied_run h requests
  refine ⟨c, ?_⟩
  constructor
  case cache => exact hc
  case served => exact htallied.served.trans (Nat.zero_add _)
  case failed =>
    have hfailed := htallied.failed
    have hnone : (SliceCache.new settings mode).stats.failedBatches = 0 := rfl
    have hlate : (SliceCache.new settings mode).lateFailures = 0 := rfl
    rw [hnone, hlate] at hfailed
    simp only [SliceCache.lateFailures] at hfailed
    omega
  case waiters => exact htallied.waiters
  case evictions => exact htallied.evictions.trans (Nat.zero_add _)
  case refused =>
    intro before t after f hbefore ht
    exact step_getAll_of_fault hc (findSome?_of_fault hbefore ht)
  case refused_get =>
    intro t f ht
    exact step_get_of_fault hc ht

/-- One permit; the second call hangs, and the third fails. -/
def failingThird : Session where
  backend := {
    memory := { anomalies := [.stored 1 1 0 100, .stored 2 1 200 300, .stored 3 2 200 300] }
    script := fun n _ => if n = 1 then .hang else if n = 2 then .fail (.other "down") else .obey }
  caches := [.new ⟨9, 100, 50, 1⟩ .enabled]

/-- Detector 1 is fetched, and then answers for itself and for its later part. A batch with an
unbounded slice is refused. The call for detector 2 hangs and its caller gets an error; detector 3
has to wait for the permit, and fails late. A clean-up then finds three entries expired. -/
theorem tally_failingThird :
    let requests : List Request :=
      [.get 0 { detector := some 1 },
        .getAll 0 [{ detector := some 1 }, { detector := some 1, start := some 150 },
          { detector := some 1 }],
        .getAll 0 [{ detector := some 4 }, {}], .get 0 { detector := some 2 },
        .get 0 { detector := some 3 }, .land 0 0, .sleep 200, .cleanUp 0]
    failingThird.caches[0]? = some (SliceCache.new ⟨9, 100, 50, 1⟩ .enabled) ∧
      (∃ c, failingThird.Tally 0 requests c) ∧
      (failingThird.run requests).caches.map SliceCache.stats =
        [{ hits := 1, derivedHits := 1, misses := 3, evictions := 3, failedBatches := 2 }] ∧
      failingThird.total (distinct 0) requests = 5 ∧ failingThird.total (fails 0) requests = 1 ∧
      failingThird.total (dropped 0) requests = 3 := by
  intro requests
  have hlast := cleanUp_of_some (failingThird.run requests.dropLast) (i := 0) rfl
  have hrun : failingThird.run requests =
      ((failingThird.run requests.dropLast).step (.cleanUp 0)).2 := rfl
  have hdropped : failingThird.total (dropped 0) requests =
      ((failingThird.run requests.dropLast).step (.cleanUp 0)).1.counted :=
    (total_concat (dropped 0) failingThird requests.dropLast (.cleanUp 0)).trans (Nat.zero_add _)
  have hdistinct : failingThird.total (distinct 0) requests =
      (requests.map fun r => (accepted? 0 r).elim 0 (·.eraseDups.length)).sum := rfl
  rw [SliceCache.cleanUp_eq] at hlast
  refine ⟨rfl, tally_run failingThird 0 ⟨9, 100, 50, 1⟩ .enabled rfl _, ?_, ?_, rfl, ?_⟩
  · rw [hrun, hlast]
    rfl
  · rw [hdistinct]
    decide
  · rw [hdropped, hlast]
    rfl

end Session
end Outlier
