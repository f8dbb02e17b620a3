import Mathlib.Data.List.Induction
import Outlier.Proofs.Cache.Snapshot
import Outlier.Proofs.Session.Steps

/-! # Runs answer from recorded contents of the store

From the moment a cache is made, all that it keeps and answers comes from contents that the store
had, as a whole, when a call of this cache was made or came to its end (`Session.Recorded`).
Whatever requests came in between, however its calls went and in whatever order those that hung
came to their ends: an entry holds what its slice selects from such a content, and an answered
batch has, for each of its slices and for no other, what the slice selects from such a content
(`truthful_run`). In particular, as long as nothing comes into the store, answers are those that
the store would give now. -/

namespace Outlier

/-- The anomalies of the slice that a store finds when it is asked now. -/
def Slice.FreshFrom (m : MemoryStore) (s : Slice) (l : List Anomaly) : Prop :=
  ∃ rows, (m.find s.predicate).1 = .ok rows ∧ l = s.select rows

theorem Slice.freshFrom_select {s : Slice} (h : s.fault? = none) (m : MemoryStore) :
    s.FreshFrom m (s.select m.anomalies) := by
  refine ⟨m.anomalies.filter s.predicate.holds, ?_, (s.select_filter_holds m.anomalies).symm⟩
  rw [MemoryStore.find, if_neg (conjuncts_predicate_ne_zero h)]

namespace Session

variable {s : Session} {i : Nat} {r : Request} {requests : List Request} {c : SliceCache}
variable {P : List Anomaly → Prop}

/-! ### Contents at calls -/

/-- The request makes store calls of the cache, or brings some to their end: a get or a batch that
asks the store for something, the landing of a hanging call, and a release when calls hang or
fetches wait. -/
def Calls (s : Session) (i : Nat) (r : Request) : Prop :=
  ∃ c, s.caches[i]? = some c ∧
    match r with
    | .get j _ | .getAll j _ => j = i ∧ (s.step r).2.backend.asked ≠ s.backend.asked
    | .land j place => j = i ∧ place < c.hanging.length
    | .release => c.hanging ≠ [] ∨ c.queue ≠ []
    | _ => False

/-- The store held exactly these anomalies when one of the requests made or ended a call of the
cache. -/
def AtCall (s : Session) (i : Nat) (requests : List Request) (m : List Anomaly) : Prop :=
  ∃ before r after, requests = before ++ r :: after ∧ (s.run before).Calls i r ∧
    m = (s.run before).backend.memory.anomalies

/-- A content that the store had, as a whole, at a call of the cache, and with which its list still
begins. -/
def Recorded (s : Session) (i : Nat) (requests : List Request) (m : List Anomaly) : Prop :=
  s.AtCall i requests m ∧ m <+: (s.run requests).backend.memory.anomalies

theorem AtCall.append {m : List Anomaly} (h : s.AtCall i requests m) (more : List Request) :
    s.AtCall i (requests ++ more) m := by
  obtain ⟨before, r, after, rfl, hcalls, rfl⟩ := h
  exact ⟨before, r, after ++ more, by simp, hcalls, rfl⟩

theorem atCall_of_calls (h : (s.run requests).Calls i r) :
    s.AtCall i (requests ++ [r]) (s.run requests).backend.memory.anomalies :=
  ⟨requests, r, [], rfl, h, rfl⟩

/-- The store began with a recorded content from the start to this day. -/
theorem AtCall.prefix {m : List Anomaly} (h : s.AtCall i requests m) :
    s.backend.memory.anomalies <+: m ∧ m <+: (s.run requests).backend.memory.anomalies := by
  obtain ⟨before, r, after, rfl, -, rfl⟩ := h
  refine ⟨s.prefix_run before, ?_⟩
  rw [run_append]
  exact prefix_run _ _

theorem AtCall.recorded {m : List Anomaly} (h : s.AtCall i requests m) :
    s.Recorded i requests m := ⟨h, h.prefix.2⟩

/-! ### One request -/

theorem calls_get (hc : s.caches[i]? = some c) (slice : Slice)
    (h : (Access.get ⟨c, s.backend⟩ slice).2.backend.asked ≠ s.backend.asked) :
    s.Calls i (.get i slice) := by
  refine ⟨c, hc, rfl, ?_⟩
  simpa only [step, visit_of_some s hc] using h

theorem calls_getAll (hc : s.caches[i]? = some c) (slices : List Slice)
    (h : (Access.getAll ⟨c, s.backend⟩ slices).2.backend.asked ≠ s.backend.asked) :
    s.Calls i (.getAll i slices) := by
  refine ⟨c, hc, rfl, ?_⟩
  simpa only [step, visit_of_some s hc] using h

theorem calls_of_asks (hc : s.caches[i]? = some c) {slices : List Slice}
    (hr : slicesOf? i r = some slices) (h : s.asks i r ≠ []) : s.Calls i r := by
  refine ⟨c, hc, ?_⟩
  cases r with
  | get j _ | getAll j _ =>
    have hj : j = i := by
      by_contra hne
      simp [slicesOf?, hne] at hr
    exact ⟨hj, asked_ne_of_asks s h nofun⟩
  | _ => cases hr

/-- A request keeps a cache faithful to contents among which is the present one, if the request
calls the store. -/
theorem faithful_step (hc : s.caches[i]? = some c) (h : c.Faithful P)
    (hm : s.Calls i r → P s.backend.memory.anomalies) :
    ∃ c', (s.step r).2.caches[i]? = some c' ∧ c'.Faithful P := by
  obtain ⟨b, y, hturn⟩ := s.exists_turn hc r
  have hb : b.memory.anomalies = s.backend.memory.anomalies := hturn.before.anomalies
  refine ⟨y.cache, hturn.after, ?_⟩
  cases hturn.does with
  | rest => exact h
  | @asked _ slices hslices =>
    refine (Access.faithful_getAll (x := ⟨c, b⟩) h fun hne => ?_).1
    have hasks : s.asks i r ≠ [] := fun hnil => hne (by rw [hturn.asked, hnil, List.append_nil])
    exact hb ▸ hm (calls_of_asks hc hslices hasks)
  | cleaned => exact h.cleanUp b.clock
  | cleared => exact h.clear
  | landed place =>
    exact Access.faithful_land (x := ⟨c, b⟩) h fun hlt => hb ▸ hm ⟨c, hc, rfl, hlt⟩
  | released =>
    exact Access.faithful_release (x := ⟨c, b⟩) h fun hwork => hb ▸ hm ⟨c, hc, hwork⟩

/-! ### Answers -/

theorem getAll_of_step (hc : s.caches[i]? = some c) {slices : List Slice} {answers : Answers}
    (ha : (s.step (.getAll i slices)).1 = .batch (.ok answers)) :
    (Access.getAll ⟨c, s.backend⟩ slices).1 = some (.ok answers) := by
  simp only [step, visit_of_some s hc] at ha
  cases hr : (Access.getAll ⟨c, s.backend⟩ slices).1 with
  | none =>
    rw [hr] at ha
    cases ha
  | some r =>
    rw [hr] at ha
    cases ha
    rfl

theorem get_of_step (hc : s.caches[i]? = some c) {slice : Slice} {rows : List Anomaly}
    (ha : (s.step (.get i slice)).1 = .anomalies (.ok rows)) :
    (Access.get ⟨c, s.backend⟩ slice).1 = some (.ok rows) := by
  simp only [step, visit_of_some s hc] at ha
  cases hr : (Access.get ⟨c, s.backend⟩ slice).1 with
  | none =>
    rw [hr] at ha
    cases ha
  | some r =>
    rw [hr] at ha
    cases ha
    rfl

theorem complete_of_step_getAll (hc : s.caches[i]? = some c) (h : c.Faithful P)
    {slices : List Slice} (hm : s.Calls i (.getAll i slices) → P s.backend.memory.anomalies)
    {answers : Answers} (ha : (s.step (.getAll i slices)).1 = .batch (.ok answers)) :
    CompleteAnswers P slices answers :=
  (Access.faithful_getAll (x := ⟨c, s.backend⟩) h fun hne => hm (calls_getAll hc slices hne)).2
    answers (getAll_of_step hc ha)

theorem selectsFrom_of_step_get (hc : s.caches[i]? = some c) (h : c.Faithful P)
    {slice : Slice} (hm : s.Calls i (.get i slice) → P s.backend.memory.anomalies)
    {rows : List Anomaly} (ha : (s.step (.get i slice)).1 = .anomalies (.ok rows)) :
    slice.fault? = none ∧ slice.SelectsFrom P rows :=
  (Access.faithful_get (x := ⟨c, s.backend⟩) h fun hne => hm (calls_get hc slice hne)).2
    rows (get_of_step hc ha)

/-! ### Answers of a store that stays as it is -/

theorem AtCall.eq_of_unchanged {m : List Anomaly} (h : s.AtCall i requests m)
    (hs : (s.run requests).backend.memory.anomalies = s.backend.memory.anomalies) :
    m = (s.run requests).backend.memory.anomalies := by
  obtain ⟨hbefore, hafter⟩ := h.prefix
  rw [← hs] at hbefore
  exact (hbefore.eq_of_length_le hafter.length_le).symm

theorem freshFrom_of_selectsFrom {m : MemoryStore} {slice : Slice} {rows : List Anomaly}
    (hv : slice.fault? = none) (hP : ∀ l, P l → l = m.anomalies)
    (h : slice.SelectsFrom P rows) : slice.FreshFrom m rows := by
  obtain ⟨l, hl, rfl⟩ := h
  rw [hP l hl]
  exact slice.freshFrom_select hv m

theorem freshFrom_of_complete {m : MemoryStore} {slices : List Slice} {answers : Answers}
    (hP : ∀ l, P l → l = m.anomalies) (h : CompleteAnswers P slices answers) :
    ∀ q ∈ answers, q.1.FreshFrom m q.2 := by
  intro q hq
  have hin : q.1 ∈ slices := (h.keys q.1).1 (List.mem_map_of_mem hq)
  exact freshFrom_of_selectsFrom (h.valid q.1 hin) hP (h.rows q hq)

/-! ### Runs -/

/-- A cache is faithful, after any run since it was made, to the contents at its calls. -/
theorem faithful_run {settings : Settings} {mode : Mode}
    (h : s.caches[i]? = some (SliceCache.new settings mode)) (requests : List Request) :
    ∃ c, (s.run requests).caches[i]? = some c ∧ c.Faithful (s.AtCall i requests) := by
  induction requests using List.reverseRecOn with
  | nil => exact ⟨_, h, SliceCache.faithful_new settings mode⟩
  | append_singleton requests r ih =>
    obtain ⟨c, hc, hfaithful⟩ := ih
    rw [run_append]
    exact faithful_step hc (hfaithful.mono fun m hm => hm.append [r]) atCall_of_calls

theorem complete_run {settings : Settings} {mode : Mode}
    (h : s.caches[i]? = some (SliceCache.new settings mode)) {slices : List Slice}
    {answers : Answers}
    (ha : ((s.run requests).step (.getAll i slices)).1 = .batch (.ok answers)) :
    CompleteAnswers (s.AtCall i (requests ++ [.getAll i slices])) slices answers := by
  obtain ⟨c, hc, hfaithful⟩ := faithful_run h requests
  exact complete_of_step_getAll hc (hfaithful.mono fun m hm => hm.append _) atCall_of_calls ha

/-- Of two contents that were recorded by then, one continues the other. -/
theorem AtCall.comparable {m m' : List Anomaly} (h : s.AtCall i requests m)
    (h' : s.AtCall i requests m') : m <+: m' ∨ m' <+: m :=
  List.prefix_or_prefix_of_prefix h.prefix.2 h'.prefix.2

theorem AtCall.select_eq {m : List Anomaly} (h : s.AtCall i requests m) {t : Slice}
    (ht : t.select (s.run requests).backend.memory.anomalies =
      t.select s.backend.memory.anomalies) : t.select m = t.select s.backend.memory.anomalies := by
  have hbefore : t.select s.backend.memory.anomalies <+: t.select m := h.prefix.1.filter _
  have hafter : t.select m <+: t.select s.backend.memory.anomalies := ht ▸ h.prefix.2.filter _
  exact hafter.eq_of_length_le hbefore.length_le

/-- What cache `i` of the session holds after the requests, and what it answers to the next. -/
structure Truthful (s : Session) (i : Nat) (requests : List Request) (c : SliceCache) : Prop where
  cache : (s.run requests).caches[i]? = some c
  /-- An entry holds what its slice selects from a recorded content. -/
  entries : ∀ q ∈ c.entries.entries, q.1.SelectsFrom (s.Recorded i requests) q.2.anomalies
  /-- A batch that had to wait was answered for exactly its slices, from recorded contents. -/
  late : ∀ slices answers, (slices, .ok answers) ∈ c.late →
    CompleteAnswers (s.Recorded i requests) slices answers
  /-- A batch is answered for exactly its slices, from recorded contents. -/
  batch : ∀ slices answers,
    ((s.run requests).step (.getAll i slices)).1 = .batch (.ok answers) →
      CompleteAnswers (s.Recorded i (requests ++ [.getAll i slices])) slices answers
  /-- A single slice is answered from a recorded content. -/
  single : ∀ slice rows,
    ((s.run requests).step (.get i slice)).1 = .anomalies (.ok rows) →
      slice.SelectsFrom (s.Recorded i (requests ++ [.get i slice])) rows
  /-- As long as the store stays as it was, answers are what the store finds now. -/
  fresh : (s.run requests).backend.memory.anomalies = s.backend.memory.anomalies →
    (∀ slices answers, (slices, .ok answers) ∈ c.late →
      ∀ q ∈ answers, q.1.FreshFrom (s.run requests).backend.memory q.2) ∧
    (∀ slices answers,
      ((s.run requests).step (.getAll i slices)).1 = .batch (.ok answers) →
        ∀ q ∈ answers, q.1.FreshFrom (s.run requests).backend.memory q.2) ∧
    ∀ slice rows,
      ((s.run requests).step (.get i slice)).1 = .anomalies (.ok rows) →
        slice.FreshFrom (s.run requests).backend.memory rows

/-- **Snapshot correctness.** After any requests since a cache was made, what it holds and what it
answers comes from contents that the store had when this cache called it. -/
theorem truthful_run (s : Session) (i : Nat) (settings : Settings) (mode : Mode)
    (h : s.caches[i]? = some (SliceCache.new settings mode)) (requests : List Request) :
    ∃ c, s.Truthful i requests c := by
  obtain ⟨c, hc, hfaithful⟩ := faithful_run h requests
  have hnext (r : Request) : c.Faithful (s.AtCall i (requests ++ [r])) :=
    hfaithful.mono fun m hm => hm.append [r]
  have hrecorded {rs : List Request} (m : List Anomaly) (hm : s.AtCall i rs m) :
      s.Recorded i rs m := hm.recorded
  have hbatch (slices : List Slice) (answers : Answers)
      (ha : ((s.run requests).step (.getAll i slices)).1 = .batch (.ok answers)) :
      CompleteAnswers (s.AtCall i (requests ++ [.getAll i slices])) slices answers :=
    complete_of_step_getAll hc (hnext _) atCall_of_calls ha
  have hsingle (slice : Slice) (rows : List Anomaly)
      (ha : ((s.run requests).step (.get i slice)).1 = .anomalies (.ok rows)) :
      slice.fault? = none ∧ slice.SelectsFrom (s.AtCall i (requests ++ [.get i slice])) rows :=
    selectsFrom_of_step_get hc (hnext _) atCall_of_calls ha
  have hstep (hs : (s.run requests).backend.memory.anomalies = s.backend.memory.anomalies)
      (r : Request) (hr : ∀ l, r ≠ .extend l) (m : List Anomaly)
      (hm : s.AtCall i (requests ++ [r]) m) : m = (s.run requests).backend.memory.anomalies := by
    have hsame : (s.run (requests ++ [r])).backend.memory.anomalies =
        (s.run requests).backend.memory.anomalies := by
      rw [run_append]
      exact anomalies_step _ hr
    rw [← hsame]
    exact hm.eq_of_unchanged (hsame.trans hs)
  refine ⟨c, ?_⟩
  constructor
  case cache => exact hc
  case entries =>
    intro q hq
    exact (hfaithful.entries q hq).mono hrecorded
  case late =>
    intro slices answers ha
    exact (hfaithful.late slices answers ha).mono hrecorded
  case batch =>
    intro slices answers ha
    exact (hbatch slices answers ha).mono hrecorded
  case single =>
    intro slice rows ha
    exact (hsingle slice rows ha).2.mono hrecorded
  case fresh =>
    intro hs
    refine ⟨fun slices answers ha => ?_, fun slices answers ha => ?_, fun slice rows ha => ?_⟩
    · have hlate := hfaithful.late slices answers ha
      exact freshFrom_of_complete (fun m hm => hm.eq_of_unchanged hs) hlate
    · have hnow := hstep hs (.getAll i slices) fun _ => nofun
      exact freshFrom_of_complete hnow (hbatch slices answers ha)
    · obtain ⟨hv, hsel⟩ := hsingle slice rows ha
      have hnow := hstep hs (.get i slice) fun _ => nofun
      exact freshFrom_of_selectsFrom hv hnow hsel

/-- One permit, and a first call that hangs. -/
def hangingFirst : Session where
  backend := {
    memory := { anomalies := [.stored 1 1 0 100, .stored 2 1 200 300, .stored 3 2 200 300] }
    script := fun n _ => if n = 0 then .hang else .obey }
  caches := [.new ⟨2, 60000, 50, 1⟩ .enabled]

/-- The first call comes to its end after one more anomaly came into the store, and a later slice is
answered from what it brought. -/
theorem truthful_after_landing :
    let requests : List Request :=
      [.get 0 { detector := some 1 }, .extend [.stored 4 1 500 600], .land 0 0]
    hangingFirst.caches[0]? = some (SliceCache.new ⟨2, 60000, 50, 1⟩ .enabled) ∧
      (∃ c, hangingFirst.Truthful 0 requests c) ∧
      ((hangingFirst.run requests).step (.get 0 { detector := some 1, start := some 150 })).1 =
        .anomalies (.ok [.stored 2 1 200 300, .stored 4 1 500 600]) :=
  ⟨rfl, truthful_run hangingFirst 0 ⟨2, 60000, 50, 1⟩ .enabled rfl _, rfl⟩

end Session
end Outlier
