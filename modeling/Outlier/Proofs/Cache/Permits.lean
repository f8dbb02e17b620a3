import Outlier.Proofs.Cache.Frame
import Outlier.Proofs.Session.Steps

/-! # Permits

A permit is free or held by a call that hangs, and fetches wait only while no permit is free
(`SliceCache.Permitted`). Fetching, landing and answering move permits between the two places and
make up none (`held`), which is all that serving the queue needs: a fetch that still waits after it
found no permit. -/

namespace Outlier

namespace SliceCache

/-- The permits that are free or held by hanging calls. -/
def held (c : SliceCache) : Nat := c.free + c.hanging.length

/-- All permits are accounted for, and none is free while fetches wait. -/
structure Permitted (c : SliceCache) : Prop where
  held : c.held = c.settings.permits
  waiting : c.queue ≠ [] → c.free = 0

theorem permitted_new (settings : Settings) (mode : Mode) : (new settings mode).Permitted :=
  ⟨rfl, fun h => absurd rfl h⟩

theorem permits_pos (settings : Settings) : 0 < settings.permits := Nat.le_max_left ..

theorem Permitted.of_hanging_eq_nil {c : SliceCache} (h : c.Permitted) (hh : c.hanging = []) :
    0 < c.free ∧ c.queue = [] := by
  have hheld := h.held
  rw [SliceCache.held, hh, List.length_nil, Nat.add_zero] at hheld
  have hpos : 0 < c.free := hheld ▸ permits_pos c.settings
  refine ⟨hpos, Classical.byContradiction fun hq => ?_⟩
  have hfree := h.waiting hq
  omega

end SliceCache

namespace Access

variable {x : Access}

/-! ### Fetching -/

theorem held_settle (h : x.cache.free ≠ 0) (s : Slice) (o : Outcome) :
    (x.settle s o).2.cache.held = x.cache.held := by
  cases o with
  | rows l =>
    simp only [settle]
    split <;> rfl
  | failed e => rfl
  | crashed => rfl
  | hanging =>
    simp only [settle, SliceCache.held, List.length_append, List.length_singleton]
    omega

theorem fetchAll_of_free_eq_zero (h : x.cache.free = 0) (isOpen : Bool) (slices : List Slice) :
    x.fetchAll isOpen slices = ([], slices, x) := by
  cases slices with
  | nil => rfl
  | cons s rest => rw [fetchAll, if_pos h]

theorem held_fetchAll (isOpen : Bool) (slices : List Slice) :
    (x.fetchAll isOpen slices).2.2.cache.held = x.cache.held := by
  induction slices generalizing x with
  | nil => rfl
  | cons s rest ih =>
    unfold fetchAll
    split
    · rfl
    next hfree =>
      let called : Access := { x with backend := (x.backend.call s.predicate isOpen).2 }
      have hcall : called.cache.free ≠ 0 := hfree
      exact ih.trans (held_settle hcall s _)

/-- Slices wait only when the permits have run out. -/
theorem free_of_waiting {isOpen : Bool} {slices : List Slice}
    (h : (x.fetchAll isOpen slices).2.1 ≠ []) :
    (x.fetchAll isOpen slices).2.2.cache.free = 0 := by
  induction slices generalizing x with
  | nil => exact absurd rfl h
  | cons s rest ih =>
    unfold fetchAll at h ⊢
    split
    next hfree => exact hfree
    next hfree =>
      rw [if_neg hfree] at h
      exact ih h

/-! ### Answering -/

theorem permitted_enqueue (h : x.cache.Permitted) {b : Batch}
    (hb : b.waiting ≠ [] → x.cache.free = 0) : (x.enqueue b).cache.Permitted := by
  by_cases hw : b.waiting = []
  · rw [x.enqueue_of_nil hw]
    exact h
  · rw [x.enqueue_of_ne_nil hw]
    exact ⟨h.held, fun _ => hb hw⟩

theorem permitted_conclude (h : x.cache.Permitted) (r : Except CacheError Answers) :
    (x.conclude r).cache.Permitted := by
  cases r with
  | ok answers => exact h
  | error e => exact ⟨h.held, h.waiting⟩

/-- A batch that begins leaves the permits accounted for, and its fetches wait only if none is free.
-/
theorem permitted_start (h : x.cache.Permitted) (slices : List Slice) :
    (x.start slices).2.cache.Permitted ∧
      ((x.start slices).1.waiting ≠ [] → (x.start slices).2.cache.free = 0) := by
  obtain ⟨entries, stats, hlook, -⟩ := x.lookUp_eq slices
  let missing := pending slices (x.lookUp slices).1
  let y := (x.lookUp slices).2.countMisses missing.length
  have hy : y.cache.Permitted := by
    show ((x.lookUp slices).2.countMisses missing.length).cache.Permitted
    rw [hlook]
    exact ⟨h.held, h.waiting⟩
  obtain ⟨_, _, _, hcache⟩ := y.cache_fetchAll false missing
  have hheld := y.held_fetchAll false missing
  refine ⟨⟨?_, fun hq => ?_⟩, fun hw => free_of_waiting hw⟩
  · have hsettings := (y.follows_fetchAll false missing).settings
    exact hheld.trans (hy.held.trans (congrArg Settings.permits hsettings).symm)
  · have hqueue : y.cache.queue ≠ [] := by
      intro he
      apply hq
      show (y.fetchAll false missing).2.2.cache.queue = []
      rw [hcache]
      exact he
    show (y.fetchAll false missing).2.2.cache.free = 0
    rw [fetchAll_of_free_eq_zero (hy.waiting hqueue)]
    exact hy.waiting hqueue

theorem permitted_getAll (h : x.cache.Permitted) (slices : List Slice) :
    (x.getAll slices).2.cache.Permitted := by
  unfold getAll
  split
  · exact h
  · obtain ⟨hcache, hwaiting⟩ := permitted_start h slices
    dsimp only
    split
    · exact permitted_enqueue hcache hwaiting
    next r _ =>
      have hmarked : ((x.start slices).2.enqueue
          { (x.start slices).1 with answered := true }).cache.Permitted :=
        permitted_enqueue hcache hwaiting
      exact permitted_conclude hmarked r

/-! ### Waiting -/

theorem serve_of_free_eq_zero (h : x.cache.free = 0) (isOpen : Bool) (queue : List Batch) :
    (x.serve isOpen queue).2 = x := by
  induction queue with
  | nil => rfl
  | cons b rest ih =>
    unfold serve
    rw [fetchAll_of_free_eq_zero h]
    exact ih

theorem held_serve (isOpen : Bool) (queue : List Batch) :
    (x.serve isOpen queue).2.cache.held = x.cache.held := by
  induction queue generalizing x with
  | nil => rfl
  | cons b rest ih => exact ih.trans (held_fetchAll isOpen b.waiting)

theorem free_of_served {isOpen : Bool} {queue : List Batch} {b : Batch}
    (hb : b ∈ (x.serve isOpen queue).1) (hw : b.waiting ≠ []) :
    (x.serve isOpen queue).2.cache.free = 0 := by
  induction queue generalizing x with
  | nil => exact absurd hb List.not_mem_nil
  | cons d rest ih =>
    rcases List.mem_cons.1 hb with rfl | hb
    · have hfree := free_of_waiting hw
      show (serve _ isOpen rest).2.cache.free = 0
      rw [serve_of_free_eq_zero hfree]
      exact hfree
    · exact ih hb

theorem permitted_answer (h : x.cache.Permitted) {b : Batch}
    (hb : b.waiting ≠ [] → x.cache.free = 0) : (x.answer b).cache.Permitted := by
  unfold answer
  split
  · exact permitted_enqueue h hb
  · split
    · exact permitted_enqueue h hb
    next r _ =>
      have hmarked : (x.enqueue { b with answered := true }).cache.Permitted :=
        permitted_enqueue h hb
      have hreported :
          ((x.enqueue { b with answered := true }).report b.slices r).cache.Permitted :=
        ⟨hmarked.held, hmarked.waiting⟩
      exact permitted_conclude hreported r

theorem free_answer (b : Batch) : (x.answer b).cache.free = x.cache.free := by
  have henqueue (d : Batch) : (x.enqueue d).cache.free = x.cache.free := by
    unfold enqueue
    split <;> rfl
  have hconclude (y : Access) (r : Except CacheError Answers) :
      (y.conclude r).cache.free = y.cache.free := by
    cases r <;> rfl
  unfold answer
  split
  · exact henqueue b
  · split
    · exact henqueue b
    · exact (hconclude _ _).trans (henqueue _)

/-- Serving the queue leaves fetches waiting only if no permit is free, also if some was before. -/
theorem permitted_serveQueue (h : x.cache.held = x.cache.settings.permits) (isOpen : Bool) :
    (x.serveQueue isOpen).cache.Permitted := by
  have hfold : ∀ (queue : List Batch) (y : Access), y.cache.Permitted →
      (∀ b ∈ queue, b.waiting ≠ [] → y.cache.free = 0) →
      (queue.foldl answer y).cache.Permitted := by
    intro queue
    induction queue with
    | nil => exact fun y hy _ => hy
    | cons b rest ih =>
      intro y hy hq
      refine ih _ (permitted_answer hy (hq b List.mem_cons_self)) fun c hc hw => ?_
      exact (free_answer b).trans (hq c (List.mem_cons_of_mem _ hc) hw)
  have hserve : (x.serve isOpen x.cache.queue).2.cache.held =
      (x.serve isOpen x.cache.queue).2.cache.settings.permits := by
    rw [held_serve, (x.follows_serve isOpen x.cache.queue).settings, h]
  refine hfold _ _ ⟨hserve, fun hq => absurd rfl hq⟩ fun b hb hw => ?_
  exact free_of_served hb hw

/-! ### Landing -/

theorem held_finish (place : Nat) : (x.finish place).cache.held = x.cache.held := by
  unfold finish
  split
  · rfl
  next s hs =>
    have hlt : place < x.cache.hanging.length := (List.getElem?_eq_some_iff.1 hs).1
    have hfree : x.cache.free + 1 ≠ 0 := Nat.succ_ne_zero _
    refine (held_settle (x := { x with
      cache.free := x.cache.free + 1
      cache.hanging := x.cache.hanging.eraseIdx place
      backend := (x.backend.ask s.predicate).2 }) hfree s _).trans ?_
    simp only [SliceCache.held, List.length_eraseIdx_of_lt hlt]
    omega

theorem permitted_land (h : x.cache.Permitted) (place : Nat) : (x.land place).cache.Permitted := by
  unfold land
  split
  · refine permitted_serveQueue ?_ false
    rw [held_finish, (x.follows_finish place).settings, h.held]
  · exact h

theorem permitted_release (h : x.cache.Permitted) : x.release.cache.Permitted := by
  have hfold : ∀ (l : List Slice) (y : Access),
      (l.foldl (fun x _ => x.finish 0) y).cache.held = y.cache.held := by
    intro l
    induction l with
    | nil => exact fun y => rfl
    | cons s rest ih => exact fun y => (ih _).trans (held_finish 0)
  refine permitted_serveQueue ?_ true
  rw [hfold, (Follows.foldl (fun x _ => x.follows_finish 0) _ x).settings, h.held]

end Access

theorem Session.kept_permitted : Kept (fun _ => True) SliceCache.Permitted where
  getAll _ _ h slices := Access.permitted_getAll h slices
  cleanUp _ h _ := ⟨h.held, h.waiting⟩
  clear _ h := ⟨h.held, h.waiting⟩
  land _ _ h place := Access.permitted_land h place
  release _ _ h := Access.permitted_release h

end Outlier
