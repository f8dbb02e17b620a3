import Outlier.Proofs.Cache.Snapshot

/-! # How fetches go and what a batch comes to

The fetches of a batch are called in turn, and the script of the store says how each call goes
(`Backend.plan`). What a fetch comes to follows from that alone (`Access.fetch_of_valid`), and so
does what the caller of the batch gets: rows for every slice, or the error of the first fetch that
does not bring rows in time (`Batch.outcome_eq_ok`, `Batch.outcome_eq_error`). -/

namespace Outlier

namespace Behaviour

/-- The call brings rows before its time is over. -/
def isPrompt : Behaviour → Bool
  | obey | everything => true
  | fail _ | crash | hang => false

/-- The call brings rows, though maybe late. -/
def brings : Behaviour → Bool
  | obey | everything | hang => true
  | fail _ | crash => false

/-- The call hangs. -/
def hangs : Behaviour → Bool
  | hang => true
  | _ => false

/-- The error for a slice that waits together with the slices after it. -/
def failure? (s : Slice) (pending timeout : Nat) : Behaviour → Option CacheError
  | obey | everything => none
  | fail e => some (.storeFailed e)
  | crash => some (.aborted s)
  | hang => some (.timedOut pending timeout)

/-- What the fetch of a slice comes to when the store holds `m`. -/
def fetched (m : List Anomaly) (s : Slice) : Behaviour → Fetch
  | obey | everything => .rows (s.select m)
  | fail e => .failed (.storeFailed e)
  | crash => .failed (.aborted s)
  | hang => .hanging

variable {b : Behaviour}

theorem brings_of_isPrompt (h : b.isPrompt) : b.brings := by
  cases b with
  | obey | everything => rfl
  | fail e | crash | hang => exact absurd h Bool.false_ne_true

theorem fetched_of_isPrompt (h : b.isPrompt) (m : List Anomaly) (s : Slice) :
    b.fetched m s = .rows (s.select m) := by
  cases b with
  | obey | everything => rfl
  | fail e | crash | hang => exact absurd h Bool.false_ne_true

theorem failure?_of_not_isPrompt (h : b.isPrompt = false) (s : Slice) (pending timeout : Nat) :
    ∃ e, b.failure? s pending timeout = some e := by
  cases b with
  | obey | everything => exact absurd h.symm Bool.false_ne_true
  | fail e => exact ⟨.storeFailed e, rfl⟩
  | crash => exact ⟨.aborted s, rfl⟩
  | hang => exact ⟨.timedOut pending timeout, rfl⟩

theorem fetched_of_hangs {m : List Anomaly} {s : Slice} (h : b.hangs) :
    b.fetched m s = .hanging := by
  cases b with
  | hang => rfl
  | obey | everything | fail e | crash => exact absurd h Bool.false_ne_true

end Behaviour

namespace Backend

/-- The slices with the ways their calls go, called for in turn after `n` other calls. -/
def plan (b : Backend) (n : Nat) : List Slice → List (Slice × Behaviour)
  | [] => []
  | s :: rest => (s, b.script n s.predicate) :: b.plan (n + 1) rest

variable {b : Backend} {s : Slice}

theorem map_fst_plan (b : Backend) (n : Nat) (slices : List Slice) :
    (b.plan n slices).map Prod.fst = slices := by
  induction slices generalizing n with
  | nil => rfl
  | cons s rest ih => rw [plan, List.map_cons, ih]

/-- The plan depends on the script alone. -/
theorem plan_congr {b' : Backend} (h : b'.script = b.script) (n : Nat) (slices : List Slice) :
    b'.plan n slices = b.plan n slices := by
  induction slices generalizing n with
  | nil => rfl
  | cons s rest ih => rw [plan, plan, h, ih]

theorem ask_of_valid (h : s.fault? = none) (b : Backend) :
    ∃ l, (b.ask s.predicate).1 = .rows l ∧ s.select l = s.select b.memory.anomalies := by
  have hrows : (b.ask s.predicate).1 = .rows (b.memory.anomalies.filter s.predicate.holds) := by
    rw [ask, MemoryStore.find, if_neg (Slice.conjuncts_predicate_ne_zero h)]
  exact ⟨_, hrows, select_of_ask hrows⟩

end Backend

/-! ### The verdict on a batch -/

namespace Batch

variable {m : List Anomaly} {timeout : Nat}

/-- What fetches come to that go as planned. -/
def fetchedBy (m : List Anomaly) (plan : List (Slice × Behaviour)) : List (Slice × Fetch) :=
  plan.map fun f => (f.1, f.2.fetched m f.1)

theorem outcome_eq_ok {plan : List (Slice × Behaviour)} (h : ∀ f ∈ plan, f.2.isPrompt) :
    outcome timeout (fetchedBy m plan) = some (.ok (plan.map fun f => (f.1, f.1.select m))) := by
  induction plan with
  | nil => rfl
  | cons f rest ih =>
    have hf := f.2.fetched_of_isPrompt (h f List.mem_cons_self) m f.1
    have hrest := ih fun g hg => h g (List.mem_cons_of_mem _ hg)
    rw [fetchedBy, List.map_cons, hf, outcome]
    rw [fetchedBy] at hrest
    rw [hrest]
    rfl

/-- The first fetch that does not bring rows in time fails the batch. -/
theorem outcome_eq_error {before after : List (Slice × Behaviour)} {s : Slice} {b : Behaviour}
    (h : ∀ f ∈ before, f.2.isPrompt) {e : CacheError}
    (he : b.failure? s (after.length + 1) timeout = some e) :
    outcome timeout (fetchedBy m (before ++ (s, b) :: after)) = some (.error e) := by
  induction before with
  | nil =>
    cases b with
    | obey | everything => cases he
    | fail _ | crash =>
      cases he
      rfl
    | hang =>
      cases he
      simp [fetchedBy, Behaviour.fetched, outcome]
  | cons f rest ih =>
    have hf := f.2.fetched_of_isPrompt (h f List.mem_cons_self) m f.1
    have hrest := ih fun g hg => h g (List.mem_cons_of_mem _ hg)
    rw [fetchedBy, List.cons_append, List.map_cons, hf, outcome]
    rw [fetchedBy] at hrest
    rw [hrest]
    rfl

/-- A fetch that hangs decides the batch, whatever comes after it. -/
theorem outcome_congr {made : List (Slice × Fetch)} (h : ∃ s, (s, .hanging) ∈ made)
    {later later' : List (Slice × Fetch)} (hlen : later.length = later'.length) :
    outcome timeout (made ++ later) = outcome timeout (made ++ later') := by
  induction made with
  | nil =>
    obtain ⟨s, hs⟩ := h
    exact absurd hs List.not_mem_nil
  | cons f rest ih =>
    obtain ⟨t, f⟩ := f
    cases f with
    | rows l =>
      obtain ⟨s, hs⟩ := h
      have hrest := ih ⟨s, (List.mem_cons.1 hs).resolve_left (by simp)⟩
      simp only [List.cons_append, outcome, hrest]
    | failed e => rfl
    | hanging => simp only [List.cons_append, outcome, List.length_append, hlen]
    | queued => rfl

/-- Fetches that had to wait for a permit held by a call that hangs make no difference. -/
theorem outcome_waiting {made left : List (Slice × Behaviour)}
    (h : left ≠ [] → ∃ f ∈ made, f.2.hangs) :
    outcome timeout (fetchedBy m made ++ (left.map Prod.fst).map (·, .queued)) =
      outcome timeout (fetchedBy m (made ++ left)) := by
  by_cases hleft : left = []
  · rw [hleft, List.append_nil]
    exact congrArg _ (List.append_nil _)
  · obtain ⟨f, hf, hangs⟩ := h hleft
    have hmem : (f.1, .hanging) ∈ fetchedBy m made := by
      rw [← f.2.fetched_of_hangs hangs]
      exact List.mem_map_of_mem hf
    rw [fetchedBy, fetchedBy, List.map_append]
    exact outcome_congr ⟨f.1, hmem⟩ (by simp)

end Batch

/-! ### One fetch -/

namespace SliceCache

/-- Take the rows of a slice, if the cache keeps anything. -/
def receive (c : SliceCache) (now : Nat) (s : Slice) (rows : List Anomaly) : SliceCache :=
  match c.mode with
  | .enabled => c.keep now s rows
  | .disabled => c

@[simp] theorem hanging_receive (c : SliceCache) (now : Nat) (s : Slice) (rows : List Anomaly) :
    (c.receive now s rows).hanging = c.hanging := by
  unfold receive
  split <;> rfl

@[simp] theorem free_receive (c : SliceCache) (now : Nat) (s : Slice) (rows : List Anomaly) :
    (c.receive now s rows).free = c.free := by
  unfold receive
  split <;> rfl

/-- What the cache is after the fetch of a slice from a store that holds `m`. -/
def after (c : SliceCache) (now : Nat) (m : List Anomaly) (s : Slice) : Behaviour → SliceCache
  | .obey | .everything => c.receive now s (s.select m)
  | .fail _ | .crash => c
  | .hang => { c with free := c.free - 1, hanging := c.hanging ++ [s] }

end SliceCache

namespace Access

variable {x : Access} {s : Slice}

theorem settle_rows (x : Access) (s : Slice) (l : List Anomaly) :
    x.settle s (.rows l) = (.rows (s.select l),
      { x with cache := x.cache.receive x.backend.clock s (s.select l) }) := by
  cases hm : x.cache.mode <;> simp only [settle, SliceCache.receive, hm]

theorem fetch_of_valid (h : s.fault? = none) (x : Access) :
    x.fetch false s =
      ((x.backend.script x.backend.asked.length s.predicate).fetched x.backend.memory.anomalies s,
        { cache := x.cache.after x.backend.clock x.backend.memory.anomalies s
            (x.backend.script x.backend.asked.length s.predicate)
          backend := (x.backend.call s.predicate false).2 }) := by
  unfold fetch
  dsimp only
  cases hb : x.backend.script x.backend.asked.length s.predicate with
  | obey =>
    obtain ⟨l, hl, hsel⟩ := Backend.ask_of_valid h
      { x.backend with asked := x.backend.asked ++ [s.predicate] }
    have hcall : (x.backend.call s.predicate false).1 = .rows l := by
      simpa only [Backend.call, hb] using hl
    rw [hcall, settle_rows, hsel, Backend.clock_call]
    rfl
  | fail e => simp only [Backend.call, hb]; rfl
  | crash => simp only [Backend.call, hb]; rfl
  | everything =>
    have hcall : (x.backend.call s.predicate false).1 = .rows x.backend.memory.anomalies := by
      simp only [Backend.call, hb]
    rw [hcall, settle_rows, Backend.clock_call]
    rfl
  | hang => simp only [Backend.call, hb]; rfl

end Access
end Outlier
