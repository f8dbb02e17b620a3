import Outlier.Proofs.Cache.Residency
import Outlier.Proofs.Cache.Settlement

/-! # Caches over a plain store

A store is plain if every call of it is answered by the memory store. No call of a cache hangs then,
so every batch finds a permit free (`Session.kept_idle`) and is answered, with what its slices
select from the store as far as it has to ask (`Access.getAll_of_ready`). -/

namespace Outlier

/-- The memory store answers every call. -/
def Backend.Plain (b : Backend) : Prop := ∀ n p, b.script n p = .obey

theorem Backend.Plain.follows {b b' : Backend} (h : b.Plain) (hb : b.Follows b') : b'.Plain :=
  fun n p => (congrFun (congrFun hb.script n) p).trans (h n p)

theorem Backend.Plain.isPrompt_of_mem_plan {b : Backend} (h : b.Plain) (n : Nat)
    (slices : List Slice) : ∀ f ∈ b.plan n slices, f.2.isPrompt := by
  induction slices generalizing n with
  | nil => exact nofun
  | cons s rest ih =>
    refine List.forall_mem_cons.2 ⟨?_, ih (n + 1)⟩
    rw [h]
    rfl

namespace Access

variable {x : Access} {slices : List Slice}

/-! ### No call hangs -/

theorem hanging_fetch (h : x.backend.Plain) (isOpen : Bool) (s : Slice) :
    (x.fetch isOpen s).2.cache.hanging = x.cache.hanging := by
  have hcall : (x.backend.call s.predicate isOpen).1 ≠ .hanging := by
    rw [Backend.call, h]
    simp only [Backend.ask]
    split <;> simp
  unfold fetch
  dsimp only
  cases ho : (x.backend.call s.predicate isOpen).1 with
  | rows l =>
    rw [settle_rows]
    exact SliceCache.hanging_receive ..
  | failed e => rfl
  | crashed => rfl
  | hanging => exact absurd ho hcall

theorem hanging_fetchAll (h : x.backend.Plain) (isOpen : Bool) (slices : List Slice) :
    (x.fetchAll isOpen slices).2.2.cache.hanging = x.cache.hanging := by
  induction slices generalizing x with
  | nil => rfl
  | cons s rest ih =>
    unfold fetchAll
    split
    · rfl
    · exact (ih (h.follows (x.follows_fetch isOpen s).toBackend)).trans (hanging_fetch h isOpen s)

theorem hanging_getAll (h : x.backend.Plain) (slices : List Slice) :
    (x.getAll slices).2.cache.hanging = x.cache.hanging := by
  have henqueue (y : Access) (b : Batch) : (y.enqueue b).cache.hanging = y.cache.hanging := by
    unfold enqueue
    split <;> rfl
  have hconclude (y : Access) (r : Except CacheError Answers) :
      (y.conclude r).cache.hanging = y.cache.hanging := by
    cases r <;> rfl
  have hstart : (x.start slices).2.cache.hanging = x.cache.hanging := by
    obtain ⟨stats, hlooked, -⟩ := x.lookedUp_eq slices
    have hplain : (x.lookedUp slices).backend.Plain := by rwa [hlooked]
    refine (hanging_fetchAll hplain false (pending slices (x.lookUp slices).1)).trans ?_
    rw [hlooked]
  unfold getAll
  split
  · rfl
  · dsimp only
    split
    · exact (henqueue _ _).trans hstart
    · exact (hconclude _ _).trans ((henqueue _ _).trans hstart)

end Access

/-- Over a plain store no call of a cache hangs. -/
theorem Session.kept_idle : Kept Backend.Plain fun c => c.Permitted ∧ c.hanging = [] where
  getAll _ hb h slices :=
    ⟨Access.permitted_getAll h.1 slices, (Access.hanging_getAll hb slices).trans h.2⟩
  cleanUp _ h _ := ⟨⟨h.1.held, h.1.waiting⟩, h.2⟩
  clear _ h := ⟨⟨h.1.held, h.1.waiting⟩, h.2⟩
  land x _ h place := by
    have hland : x.land place = x := if_neg (by rw [h.2]; exact Nat.not_lt_zero place)
    rw [hland]
    exact h
  release x _ h := by
    rw [x.release_of_idle h.2 (h.1.of_hanging_eq_nil h.2).2]
    exact h

namespace Access

variable {x : Access} {slices : List Slice} {first : Answers}

/-! ### Answers -/

theorem clock_fetchAll (x : Access) (isOpen : Bool) (slices : List Slice) :
    (x.fetchAll isOpen slices).2.2.backend.clock = x.backend.clock := by
  induction slices generalizing x with
  | nil => rfl
  | cons s rest ih =>
    unfold fetchAll
    split
    · rfl
    · refine (ih _).trans ?_
      rw [backend_fetch, Backend.clock_call]

theorem clock_getAll {answers : Answers} (h : (x.getAll slices).1 = some (.ok answers)) :
    (x.getAll slices).2.backend.clock = x.backend.clock := by
  have hstart : (x.start slices).2.backend.clock = x.backend.clock := by
    obtain ⟨stats, hlooked, -⟩ := x.lookedUp_eq slices
    refine (clock_fetchAll (x.lookedUp slices) false (pending slices (x.lookUp slices).1)).trans ?_
    rw [hlooked]
  unfold getAll at h ⊢
  split at h
  · cases h
  · dsimp only at h ⊢
    split at h
    · cases h
    next r _ =>
      obtain rfl := Option.some.inj h
      simp only [conclude, enqueue]
      split <;> exact hstart

/-- What a batch over a plain store has for the slices that it asks the store for. -/
def asksFor (x : Access) (slices : List Slice) : Answers :=
  (pending slices (x.lookUp slices).1).map fun s => (s, s.select x.backend.memory.anomalies)

/-- The cache is enabled, its store is plain, no call hangs and all permits are accounted for. -/
structure Ready (x : Access) : Prop where
  plain : x.backend.Plain
  permitted : x.cache.Permitted
  hanging : x.cache.hanging = []
  mode : x.cache.mode = .enabled

theorem Ready.getAll (h : x.Ready) (slices : List Slice) (millis : Nat) :
    Ready ⟨(x.getAll slices).2.cache, (x.getAll slices).2.backend.advance millis⟩ where
  plain := h.plain.follows
    ((x.follows_getAll slices).toBackend.trans (Backend.follows_advance _ millis))
  permitted := permitted_getAll h.permitted slices
  hanging := (hanging_getAll h.plain slices).trans h.hanging
  mode := (x.follows_getAll slices).mode.trans h.mode

theorem lookUp_of_enabled (h : x.cache.mode = .enabled) (slices : List Slice) :
    x.lookUp slices =
      ((x.cache.lookUp x.backend.clock slices).1,
        { x with cache := (x.cache.lookUp x.backend.clock slices).2 }) := by
  unfold lookUp
  rw [h]

theorem lookUp_of_disabled (h : x.cache.mode = .disabled) (slices : List Slice) :
    x.lookUp slices = ([], x) := by
  unfold lookUp
  rw [h]

/-- A batch over a plain store is answered, and what it asked for is put in. -/
theorem getAll_of_ready (h : x.Ready) (hv : ∀ s ∈ slices, s.fault? = none) :
    (x.getAll slices).1 = some (.ok ((x.lookUp slices).1 ++ x.asksFor slices)) ∧
      ∃ landed, landed.Perm (x.asksFor slices) ∧
        (x.getAll slices).2.cache.entries =
          (x.lookUp slices).2.cache.entries.pushAll x.backend.clock landed := by
  obtain ⟨hfree, hq⟩ := h.permitted.of_hanging_eq_nil h.hanging
  have hprompt : ∀ f ∈ x.plan slices, f.2.isPrompt := h.plain.isPrompt_of_mem_plan _ _
  have hrows : Batch.outcome x.cache.settings.shownTimeout
      (Batch.fetchedBy x.backend.memory.anomalies (x.plan slices)) = _ :=
    Batch.outcome_eq_ok hprompt
  have hasked : (x.plan slices).map (fun f => (f.1, f.1.select x.backend.memory.anomalies)) =
      x.asksFor slices := by
    rw [asksFor, ← keys_plan, List.map_map]
    rfl
  rw [hasked] at hrows
  obtain ⟨hanswer, y, hy, hafter⟩ := getAll_of_free hv hq hfree hrows
  obtain rfl : (x.getAll slices).2 = y := hafter
  obtain ⟨stats, hlooked, -⟩ := x.lookedUp_eq slices
  have hhanging := hanging_getAll h.plain slices
  have hsettled : (x.lookedUp slices).Settled (x.getAll slices).2 := by
    refine ⟨by rw [hlooked, hhanging], ?_⟩
    exact ((permitted_getAll h.permitted slices).of_hanging_eq_nil (hhanging.trans h.hanging)).2
  obtain ⟨-, landed, hentries, htimes, hperm, -⟩ := hy.of_settled hsettled (by rwa [hlooked])
  rw [hlooked] at hentries htimes
  rw [clock_getAll hanswer] at htimes
  refine ⟨hanswer, landed.map fun q => (q.1, q.1.select x.backend.memory.anomalies), ?_, ?_⟩
  · have hkeys : bringing (x.plan slices) = pending slices (x.lookUp slices).1 := by
      rw [bringing, List.filter_eq_self.2 fun f hf => Behaviour.brings_of_isPrompt (hprompt f hf),
        keys_plan]
    rw [hkeys] at hperm
    have hrows := hperm.map fun s => (s, s.select x.backend.memory.anomalies)
    rwa [List.map_map] at hrows
  · rw [hentries, SliceCache.entriesWith, h.mode]
    exact Recency.insertAll_eq_pushAll _ _ fun q hq =>
      Nat.le_antisymm (htimes q hq).2 (htimes q hq).1

theorem Ready.exists_answers (h : x.Ready) (hv : ∀ s ∈ slices, s.fault? = none) :
    ∃ answers, (x.getAll slices).1 = some (.ok answers) :=
  ⟨_, (getAll_of_ready h hv).1⟩

theorem eq_of_getAll (h : x.Ready) (hv : ∀ s ∈ slices, s.fault? = none)
    (hfirst : (x.getAll slices).1 = some (.ok first)) :
    first = (x.lookUp slices).1 ++ x.asksFor slices := by
  rw [(getAll_of_ready h hv).1] at hfirst
  exact (Except.ok.inj (Option.some.inj hfirst)).symm

end Access
end Outlier
