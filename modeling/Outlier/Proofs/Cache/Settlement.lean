import Outlier.Proofs.Cache.Landing

/-! # What becomes of a batch

A batch of valid slices that finds a permit free is answered at once, and its plan alone, which says
how the calls for its pending slices go (`Access.plan`), decides the answer: rows for every slice,
or the error of the first fetch that does not bring rows in time. The cache gets what any fetch
brings, before and after one that failed, also when it comes only after its time was over
(`Access.settles`). -/

namespace Outlier

namespace Access

variable {x : Access} {slices : List Slice}

/-! ### The answer -/

/-- The slices of a batch that have to be fetched, with the ways their calls go. -/
def plan (x : Access) (slices : List Slice) : List (Slice × Behaviour) :=
  x.backend.plan x.backend.asked.length (pending slices (x.lookUp slices).1)

theorem keys_plan (x : Access) (slices : List Slice) :
    (x.plan slices).map Prod.fst = pending slices (x.lookUp slices).1 :=
  Backend.map_fst_plan ..

theorem fault?_of_mem_plan (hv : ∀ s ∈ slices, s.fault? = none) :
    ∀ f ∈ x.plan slices, f.1.fault? = none := by
  intro f hf
  have hmem : f.1 ∈ pending slices (x.lookUp slices).1 :=
    x.keys_plan slices ▸ List.mem_map_of_mem hf
  exact hv f.1 (mem_pending.1 hmem).1

/-- The entries were looked through and the slices to be fetched counted. -/
def lookedUp (x : Access) (slices : List Slice) : Access :=
  (x.lookUp slices).2.countMisses (pending slices (x.lookUp slices).1).length

theorem lookedUp_eq (x : Access) (slices : List Slice) : ∃ stats,
    x.lookedUp slices = { x with
      cache.entries := (x.lookUp slices).2.cache.entries
      cache.stats := stats } ∧
    stats.failedBatches = x.cache.stats.failedBatches := by
  obtain ⟨entries, stats, h, -, hfailed⟩ := x.lookUp_eq slices
  let misses := stats.misses + (pending slices (x.lookUp slices).1).length
  refine ⟨{ stats with misses }, ?_, hfailed⟩
  rw [lookedUp, h]
  rfl

theorem start_eq (x : Access) (slices : List Slice) :
    x.start slices =
      ({ slices
         answers := (x.lookUp slices).1
         fetched := ((x.lookedUp slices).fetchAll false (pending slices (x.lookUp slices).1)).1
         waiting := ((x.lookedUp slices).fetchAll false (pending slices (x.lookUp slices).1)).2.1 },
        ((x.lookedUp slices).fetchAll false (pending slices (x.lookUp slices).1)).2.2) := rfl

theorem start_of_valid (hv : ∀ s ∈ slices, s.fault? = none) :
    ∃ made left landed, x.plan slices = made ++ left ∧
      (x.start slices).1 = {
        slices
        answers := (x.lookUp slices).1
        fetched := Batch.fetchedBy x.backend.memory.anomalies made
        waiting := left.map Prod.fst } ∧
      (x.lookedUp slices).Progress (x.plan slices) landed
        ((made.filter (·.2.hangs)).map Prod.fst) left (x.start slices).2 := by
  have hbackend : (x.lookedUp slices).backend = x.backend := by
    obtain ⟨stats, h, -⟩ := x.lookedUp_eq slices
    rw [h]
  have hstart : (x.lookedUp slices).Progress (x.plan slices) [] [] (x.plan slices)
      (x.lookedUp slices) := .start (by rw [hbackend]; rfl)
  obtain ⟨made, left, landed, hsplit, -, hmade, hleft, hall⟩ :=
    hstart.fetchAll (fault?_of_mem_plan hv)
  rw [keys_plan, hbackend] at hmade
  rw [keys_plan] at hleft hall
  refine ⟨made, left, landed, hsplit, ?_, hall⟩
  rw [start_eq, hmade, hleft]

/-- The answer to a batch that finds a permit free is decided by its plan, and its fetches are
underway when its caller gets it. -/
theorem getAll_of_free (hv : ∀ s ∈ slices, s.fault? = none) (hq : x.cache.queue = [])
    (hfree : 0 < x.cache.free) {r : Except CacheError Answers}
    (hr : Batch.outcome x.cache.settings.shownTimeout
      (Batch.fetchedBy x.backend.memory.anomalies (x.plan slices)) = some r) :
    (x.getAll slices).1 = some (r.map ((x.lookUp slices).1 ++ ·)) ∧
      ∃ y, (x.lookedUp slices).Underway (x.plan slices) (x.lookedUp slices).cache.stats 0 y ∧
        (x.getAll slices).2 = y.conclude (r.map ((x.lookUp slices).1 ++ ·)) := by
  obtain ⟨stats, hlooked, -⟩ := x.lookedUp_eq slices
  obtain ⟨made, left, landed, hsplit, hbatch, hall⟩ := start_of_valid (x := x) hv
  have hzero : left ≠ [] → (x.start slices).2.cache.free = 0 := by
    intro hne
    have hwaiting : (x.start slices).1.waiting ≠ [] := by
      rw [hbatch]
      exact fun hnil => hne (List.map_eq_nil_iff.1 hnil)
    exact free_of_waiting hwaiting
  have hhangs : left ≠ [] → ∃ f ∈ made, f.2.hangs := by
    intro hne
    have hheld := hall.free
    rw [hzero hne, hlooked, List.length_map] at hheld
    have hpos : 0 < (made.filter (·.2.hangs)).length := by
      have hx : _ = x.cache.free := hheld
      omega
    obtain ⟨f, hf⟩ := List.exists_mem_of_length_pos hpos
    exact ⟨f, List.mem_filter.1 hf⟩
  have hverdict : (x.start slices).1.verdict (x.start slices).2.cache.settings.shownTimeout =
      some (r.map ((x.lookUp slices).1 ++ ·)) := by
    rw [hsplit] at hr
    rw [Batch.verdict, (x.follows_start slices).settings, hbatch]
    dsimp only
    rw [Batch.outcome_waiting hhangs, hr]
    rfl
  have hanswer : x.getAll slices = (some (r.map ((x.lookUp slices).1 ++ ·)),
      ((x.start slices).2.enqueue { (x.start slices).1 with answered := true }).conclude
        (r.map ((x.lookUp slices).1 ++ ·))) := by
    rw [getAll, List.findSome?_eq_none_iff.2 hv]
    simp only [hverdict]
  refine ⟨congrArg Prod.fst hanswer, _, ?_, congrArg Prod.snd hanswer⟩
  obtain ⟨_, _, _, hcache⟩ :=
    (x.lookedUp slices).cache_fetchAll false (pending slices (x.lookUp slices).1)
  have hbegun : (x.start slices).2.cache = _ := hcache
  refine hall.underway ?_ (Nat.zero_le _) ?_ hzero rfl (by rw [hbatch])
  · rw [hbegun]
  · rw [hbegun, hlooked]
    exact hq

/-! ### The failing slice -/

/-- A plan brings rows for every slice in time, or has a first slice for which it does not. -/
theorem prompt_or_split (plan : List (Slice × Behaviour)) :
    (∀ f ∈ plan, f.2.isPrompt) ∨ ∃ before s b after, plan = before ++ (s, b) :: after ∧
      (∀ f ∈ before, f.2.isPrompt) ∧ b.isPrompt = false := by
  induction plan with
  | nil => exact .inl nofun
  | cons f rest ih =>
    obtain ⟨s, b⟩ := f
    cases hb : b.isPrompt with
    | false => exact .inr ⟨[], s, b, rest, rfl, nofun, hb⟩
    | true =>
      rcases ih with hall | ⟨before, t, b', after, rfl, hbefore, hb'⟩
      · exact .inl (List.forall_mem_cons.2 ⟨hb, hall⟩)
      · exact .inr ⟨(s, b) :: before, t, b', after, rfl, List.forall_mem_cons.2 ⟨hb, hbefore⟩, hb'⟩

/-- What becomes of a batch: the answer of its caller, and what its fetches leave once they have
run. -/
structure Settles (x : Access) (slices : List Slice) : Prop where
  /-- There are answers if and only if every pending fetch brings rows in time. -/
  ok_iff : (∃ answers, (x.getAll slices).1 = some (.ok answers)) ↔
    ∀ f ∈ x.plan slices, f.2.isPrompt
  /-- Otherwise there is an error, that of the first pending slice whose fetch does not. -/
  error : ¬ (∀ f ∈ x.plan slices, f.2.isPrompt) →
    ∃ before s b after e, x.plan slices = before ++ (s, b) :: after ∧
      (∀ f ∈ before, f.2.isPrompt) ∧
      b.failure? s (after.length + 1) x.cache.settings.shownTimeout = some e ∧
      (x.getAll slices).1 = some (.error e)
  /-- The failure is counted. -/
  failedBatches : (x.getAll slices).2.cache.stats.failedBatches =
    x.cache.stats.failedBatches + if ∀ f ∈ x.plan slices, f.2.isPrompt then 0 else 1
  /-- The fetches can run to their ends. -/
  completes : ∃ y, (x.getAll slices).2.Elapses x.cache.hanging.length y ∧ x.Settled y
  /-- When they have, each slice for which rows came was put in, when they came, and nothing more
  was counted. -/
  lands : ∀ y, (x.getAll slices).2.Elapses x.cache.hanging.length y → x.Settled y →
    y.cache.stats = (x.getAll slices).2.cache.stats ∧
    ∃ landed : List (Slice × Nat),
      (y.cache.entries = match x.cache.mode with
        | .enabled => (x.lookUp slices).2.cache.entries.insertAll x.backend.memory.anomalies landed
        | .disabled => x.cache.entries) ∧
      (∀ q ∈ landed, x.backend.clock ≤ q.2 ∧ q.2 ≤ y.backend.clock) ∧
      (landed.map Prod.fst).Perm (bringing (x.plan slices)) ∧
      (x.cache.settings.permits = 1 → landed.map Prod.fst = bringing (x.plan slices))

/-- What a plan comes to: rows, if every fetch brings them in time, or the error of the first that
does not. -/
theorem outcome_of_plan (m : List Anomaly) (timeout : Nat) (plan : List (Slice × Behaviour)) :
    ∃ r, Batch.outcome timeout (Batch.fetchedBy m plan) = some r ∧
      ((∃ rows, r = .ok rows) ∧ (∀ f ∈ plan, f.2.isPrompt) ∨
        ¬ (∀ f ∈ plan, f.2.isPrompt) ∧ ∃ before s b after e, plan = before ++ (s, b) :: after ∧
          (∀ f ∈ before, f.2.isPrompt) ∧ b.failure? s (after.length + 1) timeout = some e ∧
          r = .error e) := by
  rcases prompt_or_split plan with hall | ⟨before, s, b, after, rfl, hbefore, hb⟩
  · exact ⟨_, Batch.outcome_eq_ok hall, .inl ⟨⟨_, rfl⟩, hall⟩⟩
  · obtain ⟨e, he⟩ := b.failure?_of_not_isPrompt hb s (after.length + 1) timeout
    refine ⟨_, Batch.outcome_eq_error hbefore he, .inr ⟨fun hall => ?_, ?_⟩⟩
    · have hprompt := hall (s, b) (List.mem_append_right _ List.mem_cons_self)
      exact Bool.false_ne_true (hb.symm.trans hprompt)
    · exact ⟨before, s, b, after, e, rfl, hbefore, he, rfl⟩

theorem settles (h : x.cache.Permitted) (hfree : 0 < x.cache.free)
    (hv : ∀ s ∈ slices, s.fault? = none) : x.Settles slices := by
  have hq : x.cache.queue = [] := by
    by_contra hne
    have hzero := h.waiting hne
    omega
  obtain ⟨stats, hlooked, hfailed⟩ := x.lookedUp_eq slices
  obtain ⟨r, hr, hcases⟩ := outcome_of_plan x.backend.memory.anomalies
    x.cache.settings.shownTimeout (x.plan slices)
  obtain ⟨hanswer, y, hy, hafter⟩ := getAll_of_free hv hq hfree hr
  have hunderway := hy.conclude (r.map ((x.lookUp slices).1 ++ ·))
  rw [← hafter] at hunderway
  have hplan := fault?_of_mem_plan (x := x) hv
  have hhanging : (x.lookedUp slices).cache.hanging = x.cache.hanging := by rw [hlooked]
  have hpermits : (x.lookedUp slices).cache.free = x.cache.free := by rw [hlooked]
  have hlooked_free : 0 < (x.lookedUp slices).cache.free := hpermits ▸ hfree
  constructor
  case ok_iff =>
    rw [hanswer]
    rcases hcases with ⟨⟨rows, rfl⟩, hall⟩ | ⟨hnot, _, _, _, _, e, -, -, -, rfl⟩
    · exact ⟨fun _ => hall, fun _ => ⟨_, rfl⟩⟩
    · refine ⟨fun ⟨answers, he⟩ => ?_, fun hall => absurd hall hnot⟩
      cases Option.some.inj he
  case error =>
    intro hnot
    rcases hcases with ⟨-, hall⟩ | ⟨-, before, s, b, after, e, hsplit, hbefore, he, rfl⟩
    · exact absurd hall hnot
    · exact ⟨before, s, b, after, e, hsplit, hbefore, he, hanswer⟩
  case failedBatches =>
    obtain ⟨_, _, _, -, hstats, -⟩ := hy
    rw [hafter]
    rcases hcases with ⟨⟨rows, rfl⟩, hall⟩ | ⟨hnot, _, _, _, _, e, -, -, -, rfl⟩
    · rw [if_pos hall]
      show y.cache.stats.failedBatches = _
      rw [hstats, hlooked]
      exact hfailed
    · rw [if_neg hnot]
      show y.cache.stats.failedBatches + 1 = _
      rw [hstats, hlooked]
      exact congrArg (· + 1) hfailed
  case completes =>
    obtain ⟨z, hz, hsettled⟩ := hunderway.exists_settled hplan hlooked_free
    rw [hhanging] at hz
    exact ⟨z, hz, hsettled.hanging.trans hhanging, hsettled.queue⟩
  case lands =>
    intro z hz hsettled
    rw [← hhanging] at hz
    obtain ⟨hstats, landed, hentries, htimes, hperm, horder⟩ :=
      (hunderway.elapses hplan hz).of_settled
        ⟨hsettled.hanging.trans hhanging.symm, hsettled.queue⟩ hlooked_free
    refine ⟨hstats, landed, ?_, ?_, hperm, fun hone => horder ?_⟩
    · rw [hentries, SliceCache.entriesWith, hlooked]
      dsimp only
      cases hm : x.cache.mode with
      | enabled => rfl
      | disabled => simp only [lookUp, hm]
    · rw [hlooked] at htimes
      exact htimes
    · have hheld := h.held
      rw [SliceCache.held, hone] at hheld
      omega

end Access

end Outlier
