import Mathlib.Data.List.Perm.Basic
import Outlier.Proofs.Cache.Outcome
import Outlier.Proofs.Cache.Permits

/-! # Fetches run to their ends

The fetches of a batch run to their ends whatever its caller was told. `Access.Progress` says how
far they have come: the slices for which rows came, with the times, the slices whose calls hang, and
the part of the plan that waits for a permit. Together these stay all slices that bring rows, and
with a single permit they stay in the order of the request. Fetching keeps this
(`Progress.fetchAll`), and so does a call that lands (`Progress.land`). -/

namespace Outlier

/-! ### Entries that came in -/

/-- The entries after rows came for slices, each at its time, from a store that holds `m`. -/
def Recency.insertAll (r : Recency) (m : List Anomaly) (landed : List (Slice × Nat)) : Recency :=
  landed.foldl (fun r q => r.push q.1 { anomalies := q.1.select m, lastAccess := q.2 }) r

/-- The same for a cache, which may keep nothing. -/
def SliceCache.entriesWith (c : SliceCache) (m : List Anomaly) (landed : List (Slice × Nat)) :
    Recency :=
  match c.mode with
  | .enabled => c.entries.insertAll m landed
  | .disabled => c.entries

theorem SliceCache.entriesWith_concat {c c' : SliceCache} (hmode : c'.mode = c.mode)
    {m : List Anomaly} {landed : List (Slice × Nat)} (h : c'.entries = c.entriesWith m landed)
    (now : Nat) (s : Slice) :
    (c'.receive now s (s.select m)).entries = c.entriesWith m (landed ++ [(s, now)]) := by
  unfold SliceCache.entriesWith at h ⊢
  unfold SliceCache.receive
  rw [hmode]
  cases hm : c.mode with
  | enabled =>
    rw [hm] at h
    simp only [SliceCache.keep, h, Recency.insertAll, List.foldl_append, List.foldl_cons,
      List.foldl_nil]
  | disabled =>
    rw [hm] at h
    exact h

namespace Access

/-- The slices of a plan for which rows come, in order. -/
def bringing (plan : List (Slice × Behaviour)) : List Slice :=
  (plan.filter (·.2.brings)).map Prod.fst

theorem bringing_cons_of_brings {f : Slice × Behaviour} (h : f.2.brings)
    (rest : List (Slice × Behaviour)) : bringing (f :: rest) = f.1 :: bringing rest := by
  simp [bringing, h]

theorem bringing_cons_of_not_brings {f : Slice × Behaviour} (h : f.2.brings = false)
    (rest : List (Slice × Behaviour)) : bringing (f :: rest) = bringing rest := by
  simp [bringing, h]

/-- How far the fetches of a plan have come since `x`: rows came for the slices `landed`, the calls
for `hung` hang, and those of `rest` were not made yet. -/
structure Progress (x : Access) (plan : List (Slice × Behaviour)) (landed : List (Slice × Nat))
    (hung : List Slice) (rest : List (Slice × Behaviour)) (y : Access) : Prop
    extends Follows x y where
  entries : y.cache.entries = x.cache.entriesWith x.backend.memory.anomalies landed
  times : ∀ q ∈ landed, x.backend.clock ≤ q.2 ∧ q.2 ≤ y.backend.clock
  hanging : y.cache.hanging = x.cache.hanging ++ hung
  free : y.cache.free + hung.length = x.cache.free
  /-- The calls to come go as planned. -/
  upcoming : y.backend.plan y.backend.asked.length (rest.map Prod.fst) = rest
  planned : ∀ f ∈ rest, f ∈ plan
  perm : (landed.map Prod.fst ++ (hung ++ bringing rest)).Perm (bringing plan)
  order : x.cache.free = 1 → landed.map Prod.fst ++ (hung ++ bringing rest) = bringing plan

namespace Progress

variable {x y : Access} {plan rest : List (Slice × Behaviour)} {landed : List (Slice × Nat)}
variable {hung : List Slice}

theorem start {slices : List Slice} (h : plan = x.backend.plan x.backend.asked.length slices) :
    x.Progress plan [] [] plan x where
  toFollows := .refl x
  entries := by
    unfold SliceCache.entriesWith
    split <;> rfl
  times := nofun
  hanging := (List.append_nil _).symm
  free := rfl
  upcoming := by rw [h, Backend.map_fst_plan]
  planned _ hf := hf
  perm := .refl _
  order _ := rfl

/-- With a single permit, no call hangs while the permit is free. -/
theorem hung_eq_nil (h : x.Progress plan landed hung rest y) (hone : x.cache.free = 1)
    (hfree : y.cache.free ≠ 0) : hung = [] := by
  have hheld := h.free
  exact List.length_eq_zero_iff.1 (by omega)

theorem receive (h : x.Progress plan landed hung rest y) {z : Access} (hf : y.Follows z) {s : Slice}
    {hung' : List Slice} {rest' : List (Slice × Behaviour)}
    (hentries : z.cache.entries =
      (y.cache.receive y.backend.clock s (s.select x.backend.memory.anomalies)).entries)
    (hhanging : z.cache.hanging = x.cache.hanging ++ hung')
    (hfree : z.cache.free + hung'.length = x.cache.free)
    (hupcoming : z.backend.plan z.backend.asked.length (rest'.map Prod.fst) = rest')
    (hrest : ∀ f ∈ rest', f ∈ rest)
    (hperm : (s :: (hung' ++ bringing rest')).Perm (hung ++ bringing rest))
    (horder : x.cache.free = 1 → s :: (hung' ++ bringing rest') = hung ++ bringing rest) :
    x.Progress plan (landed ++ [(s, y.backend.clock)]) hung' rest' z where
  toFollows := h.toFollows.trans hf
  entries := hentries.trans (SliceCache.entriesWith_concat h.mode h.entries _ s)
  times q hq := by
    rcases List.mem_append.1 hq with hq | hq
    · exact (h.times q hq).imp_right fun hle => Nat.le_trans hle hf.clock
    · obtain rfl := List.mem_singleton.1 hq
      exact ⟨h.clock, hf.clock⟩
  hanging := hhanging
  free := hfree
  upcoming := hupcoming
  planned f hf := h.planned f (hrest f hf)
  perm := by
    rw [List.map_append, List.append_assoc]
    exact (hperm.append_left _).trans h.perm
  order hone := by
    rw [List.map_append, List.append_assoc, ← h.order hone, ← horder hone]
    rfl

theorem pass (h : x.Progress plan landed hung rest y) {z : Access} (hf : y.Follows z)
    {hung' : List Slice} {rest' : List (Slice × Behaviour)}
    (hentries : z.cache.entries = y.cache.entries)
    (hhanging : z.cache.hanging = x.cache.hanging ++ hung')
    (hfree : z.cache.free + hung'.length = x.cache.free)
    (hupcoming : z.backend.plan z.backend.asked.length (rest'.map Prod.fst) = rest')
    (hrest : ∀ f ∈ rest', f ∈ rest)
    (heq : hung' ++ bringing rest' = hung ++ bringing rest) :
    x.Progress plan landed hung' rest' z where
  toFollows := h.toFollows.trans hf
  entries := hentries.trans h.entries
  times q hq := (h.times q hq).imp_right fun hle => Nat.le_trans hle hf.clock
  hanging := hhanging
  free := hfree
  upcoming := hupcoming
  planned f hf := h.planned f (hrest f hf)
  perm := heq ▸ h.perm
  order hone := heq ▸ h.order hone

/-! ### Fetching -/

theorem fetch {f : Slice × Behaviour} (h : x.Progress plan landed hung (f :: rest) y)
    (hv : f.1.fault? = none) (hfree : y.cache.free ≠ 0) :
    (y.fetch false f.1).1 = f.2.fetched x.backend.memory.anomalies f.1 ∧
      ∃ landed', landed.length ≤ landed'.length ∧
        x.Progress plan landed' (hung ++ ([f].filter (·.2.hangs)).map Prod.fst) rest
          (y.fetch false f.1).2 := by
  obtain ⟨s, b⟩ := f
  obtain ⟨hcall, hupcoming⟩ := List.cons.inj h.upcoming
  have hb : y.backend.script y.backend.asked.length s.predicate = b := (Prod.mk.inj hcall).2
  have hfollows := y.follows_fetch false s
  have hfetch := fetch_of_valid hv y
  rw [hb, h.anomalies] at hfetch
  have hcache : (y.fetch false s).2.cache =
      y.cache.after y.backend.clock x.backend.memory.anomalies s b := by
    rw [hfetch]
  have hnext : (y.fetch false s).2.backend.plan (y.fetch false s).2.backend.asked.length
      (rest.map Prod.fst) = rest := by
    rw [backend_fetch, Backend.asked_call, List.length_append, List.length_singleton,
      Backend.plan_congr (y.backend.script_call _ _)]
    exact hupcoming
  have hrest : ∀ g ∈ rest, g ∈ (s, b) :: rest := fun g hg => List.mem_cons_of_mem _ hg
  refine ⟨congrArg Prod.fst hfetch, ?_⟩
  cases b with
  | obey | everything =>
    refine ⟨_, List.length_append ▸ Nat.le_add_right .., h.receive hfollows
      (congrArg SliceCache.entries hcache) ?_ ?_ hnext hrest ?_ ?_⟩
    · rw [hcache]
      simpa [SliceCache.after, Behaviour.hangs] using h.hanging
    · rw [hcache]
      simpa [SliceCache.after, Behaviour.hangs] using h.free
    · rw [bringing_cons_of_brings rfl]
      simpa [Behaviour.hangs] using List.perm_middle.symm
    · intro hone
      rw [bringing_cons_of_brings rfl, h.hung_eq_nil hone hfree]
      rfl
  | fail _ | crash =>
    refine ⟨_, Nat.le_refl _, h.pass hfollows
      (congrArg SliceCache.entries hcache) ?_ ?_ hnext hrest ?_⟩
    · rw [hcache]
      simpa [SliceCache.after, Behaviour.hangs] using h.hanging
    · rw [hcache]
      simpa [SliceCache.after, Behaviour.hangs] using h.free
    · rw [bringing_cons_of_not_brings rfl]
      simp [Behaviour.hangs]
  | hang =>
    refine ⟨_, Nat.le_refl _, h.pass hfollows ?_ ?_ ?_ hnext hrest ?_⟩
    · rw [hcache]
      rfl
    · rw [hcache]
      simp [SliceCache.after, Behaviour.hangs, h.hanging]
    · have hheld := h.free
      rw [hcache]
      simp only [SliceCache.after, Behaviour.hangs, List.filter_cons_of_pos, List.filter_nil,
        List.map_cons, List.map_nil, List.length_append, List.length_singleton]
      omega
    · rw [bringing_cons_of_brings rfl]
      simp [Behaviour.hangs]

/-- Calls are made as long as permits last, and go as planned. -/
theorem fetchAll (h : x.Progress plan landed hung rest y) (hv : ∀ f ∈ rest, f.1.fault? = none) :
    ∃ made left landed', rest = made ++ left ∧ landed.length ≤ landed'.length ∧
      (y.fetchAll false (rest.map Prod.fst)).1 = Batch.fetchedBy x.backend.memory.anomalies made ∧
      (y.fetchAll false (rest.map Prod.fst)).2.1 = left.map Prod.fst ∧
      x.Progress plan landed' (hung ++ (made.filter (·.2.hangs)).map Prod.fst) left
        (y.fetchAll false (rest.map Prod.fst)).2.2 := by
  induction rest generalizing y landed hung with
  | nil =>
    exact ⟨[], [], landed, rfl, Nat.le_refl _, rfl, rfl, by simpa [Access.fetchAll] using h⟩
  | cons f rest ih =>
    rw [List.map_cons, Access.fetchAll]
    split
    next hfree => exact ⟨[], f :: rest, landed, rfl, Nat.le_refl _, rfl, rfl, by simpa using h⟩
    next hfree =>
      obtain ⟨hrows, landed₁, hgrown, hone⟩ := h.fetch (hv f List.mem_cons_self) hfree
      obtain ⟨made, left, landed', hsplit, hmore, hmade, hleft, hall⟩ :=
        ih hone fun g hg => hv g (List.mem_cons_of_mem _ hg)
      refine ⟨f :: made, left, landed', ?_, Nat.le_trans hgrown hmore, ?_, hleft, ?_⟩
      · rw [hsplit, List.cons_append]
      · rw [Batch.fetchedBy, List.map_cons, ← Batch.fetchedBy, ← hmade, ← hrows]
      · rw [List.append_assoc, ← List.map_append, ← List.filter_append] at hall
        exact hall

/-! ### Landing -/

theorem mem_plan_of_mem_hung (h : x.Progress plan landed hung rest y) {s : Slice}
    (hs : s ∈ hung) : ∃ f ∈ plan, f.1 = s := by
  have hmem : s ∈ bringing plan :=
    h.perm.subset (List.mem_append_right _ (List.mem_append_left _ hs))
  obtain ⟨f, hf, rfl⟩ := List.mem_map.1 hmem
  exact ⟨f, (List.mem_filter.1 hf).1, rfl⟩

theorem finish (h : x.Progress plan landed hung rest y) (hv : ∀ f ∈ plan, f.1.fault? = none)
    {n : Nat} (hn : n < hung.length) :
    x.Progress plan (landed ++ [(hung[n], y.backend.clock)]) (hung.eraseIdx n) rest
      (y.finish (x.cache.hanging.length + n)) := by
  have hs : y.cache.hanging[x.cache.hanging.length + n]? = some hung[n] := by
    rw [h.hanging, List.getElem?_append_right (Nat.le_add_right ..), Nat.add_sub_cancel_left,
      List.getElem?_eq_getElem hn]
  obtain ⟨f, hf, hfs⟩ := h.mem_plan_of_mem_hung (List.getElem_mem hn)
  have hfault : hung[n].fault? = none := hfs ▸ hv f hf
  obtain ⟨l, hl, hsel⟩ := Backend.ask_of_valid hfault y.backend
  have hfinish : y.finish (x.cache.hanging.length + n) =
      { cache := SliceCache.receive
          { y.cache with
            free := y.cache.free + 1
            hanging := y.cache.hanging.eraseIdx (x.cache.hanging.length + n) }
          y.backend.clock hung[n] (hung[n].select x.backend.memory.anomalies)
        backend := (y.backend.ask hung[n].predicate).2 } := by
    simp only [Access.finish, hs, hl, settle_rows, hsel, h.anomalies, Backend.clock_ask]
  refine h.receive (y.follows_finish _) ?_ ?_ ?_ ?_ (fun f hf => hf) ?_ fun hone => ?_
  · rw [hfinish]
    simp only [SliceCache.receive, SliceCache.keep]
    cases y.cache.mode <;> rfl
  · rw [hfinish, SliceCache.hanging_receive, h.hanging,
      List.eraseIdx_append_of_length_le (Nat.le_add_right ..), Nat.add_sub_cancel_left]
  · have hheld := h.free
    rw [hfinish, SliceCache.free_receive, List.length_eraseIdx_of_lt hn]
    show y.cache.free + 1 + (hung.length - 1) = x.cache.free
    omega
  · rw [hfinish, Backend.asked_ask, Backend.plan_congr (y.backend.script_ask _)]
    exact h.upcoming
  · exact (List.getElem_cons_eraseIdx_perm hn).append_right _
  · have hheld := h.free
    obtain ⟨s, rfl⟩ := List.length_eq_one_iff.1 (by omega : hung.length = 1)
    obtain rfl : n = 0 := by simpa using hn
    rfl

/-- Nothing of this depends on the queue or on the counters, and time may pass. -/
theorem setQueue (h : x.Progress plan landed hung rest y) (queue : List Batch) :
    x.Progress plan landed hung rest { y with cache.queue := queue } :=
  ⟨⟨h.toBackend, h.settings, h.mode, h.recency⟩, h.entries, h.times, h.hanging, h.free,
    h.upcoming, h.planned, h.perm, h.order⟩

theorem setStats (h : x.Progress plan landed hung rest y) (stats : Stats) :
    x.Progress plan landed hung rest { y with cache.stats := stats } :=
  ⟨⟨h.toBackend, h.settings, h.mode, h.recency⟩, h.entries, h.times, h.hanging, h.free,
    h.upcoming, h.planned, h.perm, h.order⟩

theorem advance (h : x.Progress plan landed hung rest y) (millis : Nat) :
    x.Progress plan landed hung rest { y with backend := y.backend.advance millis } := by
  have hscript : (y.backend.advance millis).script = y.backend.script := rfl
  exact h.pass (z := { y with backend := y.backend.advance millis })
    ⟨y.backend.follows_advance millis, rfl, rfl, .refl _⟩ rfl h.hanging h.free
    ((Backend.plan_congr hscript _ _).trans h.upcoming) (fun f hf => hf) rfl

end Progress

/-! ### After the answer

A caller that got an answer leaves the fetches of its batch to themselves. -/

/-- The caller of a batch got an answer, and its fetches have come some way since `x`: rows came for
`n` slices at least. The fetches that wait for a permit stand alone in the queue, and nothing is
counted any more. -/
def Underway (x : Access) (plan : List (Slice × Behaviour)) (stats : Stats) (n : Nat)
    (y : Access) : Prop :=
  ∃ landed hung rest, x.Progress plan landed hung rest y ∧ y.cache.stats = stats ∧
    n ≤ landed.length ∧
    (rest = [] ∧ y.cache.queue = [] ∨ y.cache.free = 0 ∧
      ∃ b : Batch, y.cache.queue = [b] ∧ b.answered = true ∧ b.waiting = rest.map Prod.fst)

variable {x y z : Access} {plan rest : List (Slice × Behaviour)} {landed : List (Slice × Nat)}
variable {hung : List Slice} {stats : Stats} {n : Nat}

theorem Progress.underway (h : x.Progress plan landed hung rest y) (hstats : y.cache.stats = stats)
    (hn : n ≤ landed.length) (hq : y.cache.queue = []) (hfree : rest ≠ [] → y.cache.free = 0)
    {b : Batch} (hb : b.answered = true) (hw : b.waiting = rest.map Prod.fst) :
    x.Underway plan stats n (y.enqueue b) := by
  by_cases hrest : rest = []
  · rw [enqueue_of_nil _ (hw.trans (by rw [hrest, List.map_nil]))]
    exact ⟨landed, hung, rest, h, hstats, hn, .inl ⟨hrest, hq⟩⟩
  · rw [enqueue_of_ne_nil _ fun he => hrest (List.map_eq_nil_iff.1 (hw.symm.trans he))]
    refine ⟨landed, hung, rest, h.setQueue _, hstats, hn, .inr ⟨hfree hrest, b, ?_, hb, hw⟩⟩
    show y.cache.queue ++ [b] = [b]
    rw [hq, List.nil_append]

/-- A permit that became free goes to the fetches that wait. -/
theorem Progress.serveQueue (h : x.Progress plan landed hung rest y)
    (hv : ∀ f ∈ rest, f.1.fault? = none) (hstats : y.cache.stats = stats)
    (hn : n ≤ landed.length)
    (hq : rest = [] ∧ y.cache.queue = [] ∨
      ∃ b : Batch, y.cache.queue = [b] ∧ b.answered = true ∧ b.waiting = rest.map Prod.fst) :
    x.Underway plan stats n (y.serveQueue false) := by
  rcases hq with ⟨hrest, hq⟩ | ⟨b, hq, hb, hw⟩
  · have hserve : y.serveQueue false = { y with cache.queue := [] } := by
      rw [Access.serveQueue, hq]
      rfl
    rw [hserve]
    exact ⟨landed, hung, rest, h.setQueue [], hstats, hn, .inl ⟨hrest, rfl⟩⟩
  · obtain ⟨made, left, landed', _, hmore, hmade, hleft, hall⟩ := h.fetchAll hv
    obtain ⟨_, _, _, hcache⟩ := y.cache_fetchAll false (rest.map Prod.fst)
    have hserve : y.serveQueue false =
        Access.enqueue
          { (y.fetchAll false (rest.map Prod.fst)).2.2 with
            cache.queue := [] }
          { b with
            fetched := b.fetched ++ (y.fetchAll false (rest.map Prod.fst)).1
            waiting := left.map Prod.fst } := by
      rw [Access.serveQueue, hq]
      simp only [Access.serve, List.foldl_cons, List.foldl_nil, answer, hb, hw, hleft, if_true]
    rw [hserve]
    refine (hall.setQueue []).underway ?_ (Nat.le_trans hn hmore) rfl (fun hne => ?_) hb rfl
    · show (y.fetchAll false (rest.map Prod.fst)).2.2.cache.stats = stats
      rw [hcache]
      exact hstats
    · show (y.fetchAll false (rest.map Prod.fst)).2.2.cache.free = 0
      refine free_of_waiting ?_
      rw [hleft]
      exact fun he => hne (List.map_eq_nil_iff.1 he)

namespace Underway

/-- A call of the batch that hangs comes to its end, and its permit goes on. -/
theorem land (h : x.Underway plan stats n y) (hv : ∀ f ∈ plan, f.1.fault? = none) {place : Nat}
    (hothers : x.cache.hanging.length ≤ place) (hplace : place < y.cache.hanging.length) :
    x.Underway plan stats (n + 1) (y.land place) := by
  obtain ⟨landed, hung, rest, hp, hstats, hn, hq⟩ := h
  obtain ⟨k, rfl⟩ := Nat.exists_eq_add_of_le hothers
  have hk : k < hung.length := by
    rw [hp.hanging, List.length_append] at hplace
    omega
  obtain ⟨_, _, _, hcache⟩ := y.cache_finish (x.cache.hanging.length + k)
  rw [Access.land, if_pos hplace]
  refine (hp.finish hv hk).serveQueue (fun f hf => hv f (hp.planned f hf)) ?_ ?_ ?_
  · rw [hcache]
    exact hstats
  · rw [List.length_append, List.length_singleton]
    exact Nat.succ_le_succ hn
  · rw [hcache]
    exact hq.imp_right And.right

theorem advance (h : x.Underway plan stats n y) (millis : Nat) :
    x.Underway plan stats n { y with backend := y.backend.advance millis } := by
  obtain ⟨landed, hung, rest, hp, hrest⟩ := h
  exact ⟨landed, hung, rest, hp.advance millis, hrest⟩

theorem conclude (h : x.Underway plan stats n y) (r : Except CacheError Answers) :
    x.Underway plan (y.conclude r).cache.stats n (y.conclude r) := by
  obtain ⟨landed, hung, rest, hp, -, hrest⟩ := h
  cases r with
  | ok answers => exact ⟨landed, hung, rest, hp, rfl, hrest⟩
  | error e => exact ⟨landed, hung, rest, (hp.setStats _).advance _, rfl, hrest⟩

theorem mono (h : x.Underway plan stats n y) {k : Nat} (hk : k ≤ n) :
    x.Underway plan stats k y := by
  obtain ⟨landed, hung, rest, hp, hstats, hn, hq⟩ := h
  exact ⟨landed, hung, rest, hp, hstats, Nat.le_trans hk hn, hq⟩

end Underway

/-! ### To the end -/

/-- What may happen after a batch was answered and before anything else is asked of the cache: calls
that began to hang after the first `others` ones come to their ends, and time passes. -/
inductive Elapses (others : Nat) (x : Access) : Access → Prop where
  | refl : Elapses others x x
  | land {y : Access} (h : Elapses others x y) {place : Nat} (hothers : others ≤ place) :
    Elapses others x (y.land place)
  | sleep {y : Access} (h : Elapses others x y) (millis : Nat) :
    Elapses others x { y with backend := y.backend.advance millis }

theorem Elapses.trans {others : Nat} (h : x.Elapses others y) (k : y.Elapses others z) :
    x.Elapses others z := by
  induction k with
  | refl => exact h
  | land _ hothers ih => exact .land ih hothers
  | sleep _ millis ih => exact .sleep ih millis

/-- All fetches since `x` have run: the calls that hang are those that hung before, and nothing
waits for a permit. -/
structure Settled (x y : Access) : Prop where
  hanging : y.cache.hanging = x.cache.hanging
  queue : y.cache.queue = []

namespace Underway

theorem elapses (h : x.Underway plan stats n y) (hv : ∀ f ∈ plan, f.1.fault? = none)
    (he : y.Elapses x.cache.hanging.length z) : x.Underway plan stats n z := by
  induction he with
  | refl => exact h
  | @land w _ place hothers ih =>
    by_cases hplace : place < w.cache.hanging.length
    · exact (ih.land hv hothers hplace).mono (Nat.le_succ n)
    · rw [Access.land, if_neg hplace]
      exact ih
  | sleep _ millis ih => exact ih.advance millis

/-- When all fetches have run, rows came for exactly the slices whose calls bring them. -/
theorem of_settled (h : x.Underway plan stats n y) (hs : x.Settled y) (hfree : 0 < x.cache.free) :
    y.cache.stats = stats ∧ ∃ landed : List (Slice × Nat),
      y.cache.entries = x.cache.entriesWith x.backend.memory.anomalies landed ∧
      (∀ q ∈ landed, x.backend.clock ≤ q.2 ∧ q.2 ≤ y.backend.clock) ∧
      (landed.map Prod.fst).Perm (bringing plan) ∧
      (x.cache.free = 1 → landed.map Prod.fst = bringing plan) := by
  obtain ⟨landed, hung, rest, hp, hstats, -, hq⟩ := h
  obtain rfl : hung = [] := by
    have hnone := hp.hanging.symm.trans hs.hanging
    exact List.append_right_eq_self.1 hnone
  have hrest : rest = [] := by
    rcases hq with ⟨hrest, -⟩ | ⟨hzero, -⟩
    · exact hrest
    · have hheld := hp.free
      rw [hzero] at hheld
      simp only [List.length_nil] at hheld
      omega
  subst hrest
  refine ⟨hstats, landed, hp.entries, hp.times, ?_, fun hone => ?_⟩
  · simpa [bringing] using hp.perm
  · simpa [bringing] using hp.order hone

/-- The fetches can always run to their ends. -/
theorem exists_settled (h : x.Underway plan stats n y) (hv : ∀ f ∈ plan, f.1.fault? = none)
    (hfree : 0 < x.cache.free) : ∃ z, y.Elapses x.cache.hanging.length z ∧ x.Settled z := by
  induction hm : (bringing plan).length - n using Nat.strongRecOn generalizing y n with
  | ind m ih =>
    obtain ⟨landed, hung, rest, hp, hstats, hn, hq⟩ := id h
    by_cases hhung : hung = []
    · have hqueue : y.cache.queue = [] := by
        rcases hq with ⟨-, hq⟩ | ⟨hzero, -⟩
        · exact hq
        · have hheld := hp.free
          rw [hzero, hhung] at hheld
          simp only [List.length_nil] at hheld
          omega
      exact ⟨y, .refl, by rw [hp.hanging, hhung, List.append_nil], hqueue⟩
    · have hpos := List.length_pos_iff.2 hhung
      have hplace : x.cache.hanging.length < y.cache.hanging.length := by
        rw [hp.hanging, List.length_append]
        omega
      have hcount := hp.perm.length_eq
      simp only [List.length_append, List.length_map] at hcount
      obtain ⟨z, hz, hsettled⟩ := ih ((bringing plan).length - (n + 1)) (by omega)
        (h.land hv (Nat.le_refl _) hplace) rfl
      exact ⟨z, (Elapses.land .refl (Nat.le_refl _)).trans hz, hsettled⟩

end Underway

end Access
end Outlier
