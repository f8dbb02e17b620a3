import Outlier.Proofs.Cache.Coverage

/-! # Where the anomalies of an answer come from

Each slice of an answered batch was answered by the look-up with which the batch began, from an
entry that was fresh then, or, if no entry covered it, by the store (`Access.Completes.gives`). A
batch that has to wait keeps what its look-up found, and knows the slices that are still to be
fetched; its calls bring rows for these and for no others (`Batch.CameTo`). So the answer that it
gets later is that of the time when it came, completed by what the store gave since
(`SliceCache.Traced`). -/

namespace Outlier

/-- Answers to slices that came when cache and store were as in `x`: what the look-up found, and
after that, for each slice that it did not find, rows from contents of `P`. -/
def Access.Completes (x : Access) (P : List Anomaly → Prop) (slices : List Slice)
    (answers : Answers) : Prop :=
  ∃ rows : Answers, answers = (x.lookUp slices).1 ++ rows ∧
    rows.map Prod.fst = pending slices (x.lookUp slices).1 ∧ ∀ q ∈ rows, q.1.SelectsFrom P q.2

/-- The batch came when cache and store were as in `x`, and its calls were answered from contents of
`P`. -/
structure Batch.CameTo (x : Access) (P : List Anomaly → Prop) (b : Batch) : Prop where
  answers : b.answers = (x.lookUp b.slices).1
  keys : b.fetched.map Prod.fst ++ b.waiting = Access.pending b.slices (x.lookUp b.slices).1
  rows : ∀ s l, (s, .rows l) ∈ b.fetched → s.SelectsFrom P l

variable {x : Access} {P Q : List Anomaly → Prop} {slices : List Slice} {answers : Answers}

theorem Access.Completes.mono (hPQ : ∀ m, P m → Q m) (h : x.Completes P slices answers) :
    x.Completes Q slices answers := by
  obtain ⟨rows, heq, hkeys, hrows⟩ := h
  exact ⟨rows, heq, hkeys, fun q hq => (hrows q hq).mono hPQ⟩

/-- A slice is answered from an entry that was fresh when the slices came or, if none covered it
then, from contents of `P`. -/
theorem Access.Completes.gives (h : x.Completes P slices answers)
    (hn : (x.cache.entries.entries.map Prod.fst).Nodup)
    (hempty : x.cache.mode = .disabled → x.cache.entries.entries = []) :
    ∀ q ∈ answers, x.Gives q.1 q.2 ∨ ¬ x.Covers q.1 ∧ q.1.SelectsFrom P q.2 := by
  obtain ⟨rows, rfl, hkeys, hrows⟩ := h
  intro q hq
  rcases List.mem_append.1 hq with hq | hq
  · exact .inl (gives_of_lookUp hn q hq)
  · have hpending : q.1 ∈ pending slices (x.lookUp slices).1 :=
      hkeys ▸ List.mem_map_of_mem (f := Prod.fst) hq
    obtain ⟨hin, hunfound⟩ := mem_pending.1 hpending
    refine .inr ⟨fun hcovers => ?_, hrows q hq⟩
    exact hunfound ((keys_lookUp hn hempty q.1).2 ⟨hin, hcovers⟩)

namespace Batch

variable {b : Batch}

theorem CameTo.mono (hPQ : ∀ m, P m → Q m) (h : b.CameTo x P) : b.CameTo x Q :=
  ⟨h.answers, h.keys, fun s l hl => (h.rows s l hl).mono hPQ⟩

theorem CameTo.completes (h : b.CameTo x P) {timeout : Nat}
    (hv : b.verdict timeout = some (.ok answers)) : x.Completes P b.slices answers := by
  obtain ⟨rows, heq, hkeys, hrows⟩ := of_verdict_eq_ok hv
  refine ⟨rows, ?_, ?_, fun q hq => h.rows q.1 q.2 (hrows q hq)⟩
  · rw [heq, h.answers]
  · rw [← hkeys, h.keys]

end Batch

/-! ### Origins

`O slices x P` says that a batch for the slices came when cache and store were as in `x`, and that
the contents at the calls since then are those of `P`. -/

section

variable {O O' : List Slice → Access → (List Anomaly → Prop) → Prop} {b : Batch} {c : SliceCache}

/-- A batch that has no answer yet came at one of the times of `O`. -/
def Batch.Traced (O : List Slice → Access → (List Anomaly → Prop) → Prop) (b : Batch) : Prop :=
  b.answered = false → ∃ x P, O b.slices x P ∧ b.CameTo x P

/-- The batches that wait for an answer, and those that got one after waiting, came at times of
`O`. -/
structure SliceCache.Traced (O : List Slice → Access → (List Anomaly → Prop) → Prop)
    (c : SliceCache) : Prop where
  queue : ∀ b ∈ c.queue, b.Traced O
  late : ∀ slices answers, (slices, .ok answers) ∈ c.late →
    ∃ x P, O slices x P ∧ x.Completes P slices answers

/-- The content is one of those since each time of `O`. -/
def Counts (O : List Slice → Access → (List Anomaly → Prop) → Prop) (m : List Anomaly) : Prop :=
  ∀ slices x P, O slices x P → P m

theorem Batch.Traced.mono
    (hO : ∀ slices x P, O slices x P → ∃ Q, O' slices x Q ∧ ∀ m, P m → Q m) (h : b.Traced O) :
    b.Traced O' := by
  intro hb
  obtain ⟨x, P, hcame, hbatch⟩ := h hb
  obtain ⟨Q, hcame', hPQ⟩ := hO _ _ _ hcame
  exact ⟨x, Q, hcame', hbatch.mono hPQ⟩

theorem SliceCache.Traced.mono
    (hO : ∀ slices x P, O slices x P → ∃ Q, O' slices x Q ∧ ∀ m, P m → Q m) (h : c.Traced O) :
    c.Traced O' := by
  refine ⟨fun b hb => (h.queue b hb).mono hO, fun slices answers ha => ?_⟩
  obtain ⟨x, P, hcame, hcompletes⟩ := h.late slices answers ha
  obtain ⟨Q, hcame', hPQ⟩ := hO _ _ _ hcame
  exact ⟨x, Q, hcame', hcompletes.mono hPQ⟩

theorem Batch.traced_of_answered (hb : b.answered = true) : b.Traced O := by
  intro h
  rw [hb] at h
  cases h

end

namespace Access

variable {O : List Slice → Access → (List Anomaly → Prop) → Prop} {b : Batch}
variable {s : Slice} {isOpen : Bool} {l : List Anomaly}

/-! ### Fetching -/

theorem rows_fetch (h : (x.fetch isOpen s).1 = .rows l) :
    l = s.select x.backend.memory.anomalies := by
  unfold fetch at h
  cases ho : (x.backend.call s.predicate isOpen).1 with
  | rows rows =>
    simp only [ho, settle] at h
    cases h
    exact Backend.select_of_call ho
  | failed e => simp [ho, settle] at h
  | crashed => simp [ho, settle] at h
  | hanging => simp [ho, settle] at h

theorem rows_fetchAll (h : (s, .rows l) ∈ (x.fetchAll isOpen slices).1) :
    l = s.select x.backend.memory.anomalies := by
  induction slices generalizing x with
  | nil => exact absurd h List.not_mem_nil
  | cons t rest ih =>
    unfold fetchAll at h
    split at h
    · exact absurd h List.not_mem_nil
    · rcases List.mem_cons.1 h with h | h
      · obtain ⟨rfl, hl⟩ := Prod.mk.inj h
        exact rows_fetch hl.symm
      · rw [ih h, (x.follows_fetch isOpen t).anomalies]

theorem rows_start (h : (s, .rows l) ∈ (x.start slices).1.fetched) :
    l = s.select x.backend.memory.anomalies := by
  have hfollows : x.Follows (x.lookedUp slices) :=
    (x.follows_lookUp slices).trans (follows_countMisses _ _)
  rw [← hfollows.anomalies]
  exact rows_fetchAll h

/-! ### Answering -/

theorem cameTo_start (x : Access) (slices : List Slice) :
    (x.start slices).1.CameTo x (· = x.backend.memory.anomalies) where
  answers := rfl
  keys := x.called_append_postponed slices
  rows _ _ hl := ⟨_, rfl, rows_start hl⟩

/-- The answer that a batch gets at once is completed by what the store has now. -/
theorem completes_getAll (h : (x.getAll slices).1 = some (.ok answers)) :
    x.Completes (· = x.backend.memory.anomalies) slices answers := by
  unfold getAll at h
  split at h
  · cases h
  · dsimp only at h
    split at h
    · cases h
    next hr => exact (x.cameTo_start slices).completes (hr.trans h)

theorem answered_getAll (hn : (x.cache.entries.entries.map Prod.fst).Nodup)
    (hempty : x.cache.mode = .disabled → x.cache.entries.entries = [])
    (h : (x.getAll slices).1 = some (.ok answers)) :
    ∀ q ∈ answers, x.Gives q.1 q.2 ∨
      ¬ x.Covers q.1 ∧ q.2 = q.1.select x.backend.memory.anomalies := by
  intro q hq
  refine ((completes_getAll h).gives hn hempty q hq).imp_right fun ⟨huncovered, hrows⟩ => ?_
  obtain ⟨m, rfl, hsel⟩ := hrows
  exact ⟨huncovered, hsel⟩

theorem traced_enqueue (h : x.cache.Traced O) (hb : b.Traced O) :
    (x.enqueue b).cache.Traced O := by
  by_cases hw : b.waiting = []
  · rw [x.enqueue_of_nil hw]
    exact h
  · rw [x.enqueue_of_ne_nil hw]
    refine ⟨fun d hd => ?_, h.late⟩
    rcases List.mem_append.1 hd with hd | hd
    · exact h.queue d hd
    · exact List.mem_singleton.1 hd ▸ hb

theorem traced_conclude (h : x.cache.Traced O) (r : Except CacheError Answers) :
    (x.conclude r).cache.Traced O := by
  cases r with
  | ok answers => exact h
  | error e => exact ⟨h.queue, h.late⟩

theorem traced_start (h : x.cache.Traced O) (slices : List Slice) :
    (x.start slices).2.cache.Traced O := by
  obtain ⟨_, _, _, hcache⟩ :=
    (x.lookedUp slices).cache_fetchAll false (pending slices (x.lookUp slices).1)
  obtain ⟨stats, hlooked, -⟩ := x.lookedUp_eq slices
  rw [start_eq, hcache, hlooked]
  exact ⟨h.queue, h.late⟩

/-- If a batch has to wait, the present is the time when it came. -/
theorem traced_getAll (h : x.cache.Traced O)
    (hO : (x.getAll slices).1 = none → ∃ P, O slices x P)
    (hm : (x.getAll slices).2.backend.asked ≠ x.backend.asked →
      Counts O x.backend.memory.anomalies) :
    (x.getAll slices).2.cache.Traced O := by
  have hstart := traced_start h slices
  cases hfault : slices.findSome? Slice.fault? with
  | some f =>
    unfold getAll
    rw [hfault]
    exact h
  | none =>
    rw [asked_getAll_of_valid (List.findSome?_eq_none_iff.1 hfault)] at hm
    unfold getAll at hO ⊢
    rw [hfault] at hO ⊢
    dsimp only at hO ⊢
    split at hO
    next =>
      refine traced_enqueue hstart fun _ => ?_
      obtain ⟨P, hcame⟩ := hO rfl
      have hbatch := x.cameTo_start slices
      refine ⟨x, P, hcame, hbatch.answers, hbatch.keys, fun s l hl => ?_⟩
      have hcalled : s ∈ x.called slices := List.mem_map_of_mem (f := Prod.fst) hl
      have hcounts := hm (by simp [List.ne_nil_of_mem hcalled])
      exact ⟨_, hcounts _ _ _ hcame, rows_start hl⟩
    next r _ => exact traced_conclude (traced_enqueue hstart (Batch.traced_of_answered rfl)) r

/-! ### Waiting -/

theorem traced_serve (hm : Counts O x.backend.memory.anomalies) {queue : List Batch}
    (hq : ∀ b ∈ queue, b.Traced O) : ∀ b ∈ (x.serve isOpen queue).1, b.Traced O := by
  induction queue generalizing x with
  | nil => exact nofun
  | cons b rest ih =>
    intro d hd
    rcases List.mem_cons.1 hd with rfl | hd
    · intro hb
      obtain ⟨y, P, hcame, hbatch⟩ := hq b List.mem_cons_self hb
      refine ⟨y, P, hcame, hbatch.answers, ?_, fun s l hl => ?_⟩
      · rw [← hbatch.keys, List.map_append, List.append_assoc, keys_fetchAll]
      · rcases List.mem_append.1 hl with hl | hl
        · exact hbatch.rows s l hl
        · exact ⟨_, hm _ _ _ hcame, rows_fetchAll hl⟩
    · have hmem := (x.follows_fetchAll isOpen b.waiting).anomalies.symm ▸ hm
      exact ih hmem (fun d hd => hq d (List.mem_cons_of_mem _ hd)) d hd

theorem traced_report (h : x.cache.Traced O) {r : Except CacheError Answers}
    (hr : ∀ answers, r = .ok answers → ∃ y P, O slices y P ∧ y.Completes P slices answers) :
    (x.report slices r).cache.Traced O := by
  refine ⟨h.queue, fun slices' answers ha => ?_⟩
  rcases List.mem_append.1 ha with ha | ha
  · exact h.late slices' answers ha
  · obtain ⟨rfl, he⟩ := Prod.mk.inj (List.mem_singleton.1 ha)
    exact hr answers he.symm

theorem traced_answer (h : x.cache.Traced O) (hb : b.Traced O) :
    (x.answer b).cache.Traced O := by
  unfold answer
  split
  · exact traced_enqueue h hb
  next hopen =>
    split
    · exact traced_enqueue h hb
    next r hr =>
      have hmarked := traced_enqueue (b := { b with answered := true }) h
        (Batch.traced_of_answered rfl)
      refine traced_conclude (traced_report hmarked fun answers ha => ?_) r
      subst ha
      obtain ⟨y, P, hcame, hbatch⟩ := hb (Bool.eq_false_of_not_eq_true hopen)
      exact ⟨y, P, hcame, hbatch.completes hr⟩

theorem traced_foldl_answer (h : x.cache.Traced O) {queue : List Batch}
    (hq : ∀ b ∈ queue, b.Traced O) : (queue.foldl answer x).cache.Traced O := by
  induction queue generalizing x with
  | nil => exact h
  | cons b rest ih =>
    obtain ⟨hb, hrest⟩ := List.forall_mem_cons.1 hq
    exact ih (traced_answer h hb) hrest

theorem cache_serve (x : Access) (isOpen : Bool) (queue : List Batch) : ∃ entries free hanging,
    (x.serve isOpen queue).2.cache = { x.cache with entries, free, hanging } := by
  induction queue generalizing x with
  | nil => exact ⟨_, _, _, rfl⟩
  | cons b rest ih =>
    obtain ⟨entries, free, hanging, h⟩ := ih (x.fetchAll isOpen b.waiting).2.2
    obtain ⟨_, _, _, hfetched⟩ := x.cache_fetchAll isOpen b.waiting
    refine ⟨entries, free, hanging, h.trans ?_⟩
    exact congrArg (fun c : SliceCache => { c with entries, free, hanging }) hfetched

theorem traced_serveQueue (h : x.cache.Traced O) (hm : Counts O x.backend.memory.anomalies)
    (isOpen : Bool) : (x.serveQueue isOpen).cache.Traced O := by
  obtain ⟨_, _, _, hcache⟩ := x.cache_serve isOpen x.cache.queue
  refine traced_foldl_answer ⟨fun b hb => absurd hb List.not_mem_nil, ?_⟩ (traced_serve hm h.queue)
  rw [hcache]
  exact h.late

theorem traced_finish (h : x.cache.Traced O) (place : Nat) : (x.finish place).cache.Traced O := by
  obtain ⟨_, _, _, hcache⟩ := x.cache_finish place
  rw [hcache]
  exact ⟨h.queue, h.late⟩

theorem traced_land (h : x.cache.Traced O) {place : Nat}
    (hm : place < x.cache.hanging.length → Counts O x.backend.memory.anomalies) :
    (x.land place).cache.Traced O := by
  unfold land
  split
  next hlt =>
    have hmem := (x.follows_finish place).anomalies.symm ▸ hm hlt
    exact traced_serveQueue (traced_finish h place) hmem false
  next => exact h

theorem traced_foldl_finish (h : x.cache.Traced O) (l : List Slice) :
    (l.foldl (fun x _ => x.finish 0) x).cache.Traced O := by
  induction l generalizing x with
  | nil => exact h
  | cons s rest ih => exact ih (traced_finish h 0)

theorem traced_release (h : x.cache.Traced O)
    (hm : x.cache.hanging ≠ [] ∨ x.cache.queue ≠ [] → Counts O x.backend.memory.anomalies) :
    x.release.cache.Traced O := by
  by_cases hidle : x.cache.hanging = [] ∧ x.cache.queue = []
  · rw [x.release_of_idle hidle.1 hidle.2]
    exact h
  · have hwork : x.cache.hanging ≠ [] ∨ x.cache.queue ≠ [] := not_and_or.1 hidle
    refine traced_serveQueue (traced_foldl_finish h x.cache.hanging) ?_ true
    rw [(Follows.foldl (fun x _ => x.follows_finish 0) _ x).anomalies]
    exact hm hwork

end Access
end Outlier
