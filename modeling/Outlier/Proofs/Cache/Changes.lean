import Mathlib.Logic.Relation
import Outlier.Proofs.Cache.Frame

/-! # Elementary changes of a cache

Whatever is asked of a cache, it comes to a few kinds of changes, made one after the other
(`SliceCache.Change`): a fresh entry is used, an expired one dropped, an entry put in, a permit
taken by a call that hangs or given back by one that ends. Each operation is such a sequence
(`Access.evolves_getAll`, `Access.evolves_land`, `Access.evolves_release`), so what every single
change keeps holds all the time, also between the changes that one operation makes. -/

namespace Outlier

namespace SliceCache

/-- One change of a cache, with the time before and after it. -/
inductive Change : Nat × SliceCache → Nat × SliceCache → Prop where
  /-- A fresh entry is used. -/
  | use {now : Nat} {c : SliceCache} {s : Slice} {e : Entry} (he : (s, e) ∈ c.entries.entries)
      (hfresh : e.isFresh now c.settings.idleTtl) :
      Change (now, c) (now, { c with entries := c.entries.touch s now })
  /-- An expired entry is dropped. -/
  | expire {now : Nat} {c : SliceCache} {s : Slice} {e : Entry} (he : c.entries.get? s = some e)
      (hstale : ¬ e.isFresh now c.settings.idleTtl) :
      Change (now, c) (now, { c with entries := c.entries.erase s })
  /-- An entry is put in. -/
  | keep {now : Nat} {c : SliceCache} (h : c.mode = .enabled) (s : Slice) (rows : List Anomaly) :
      Change (now, c) (now, c.keep now s rows)
  /-- A call that hangs takes a permit along. -/
  | take {now : Nat} {c : SliceCache} (h : c.free ≠ 0) (s : Slice) :
      Change (now, c) (now, { c with free := c.free - 1, hanging := c.hanging ++ [s] })
  /-- A call that hung has ended. -/
  | giveBack {now place : Nat} {c : SliceCache} (h : place < c.hanging.length) :
      Change (now, c) (now, { c with free := c.free + 1, hanging := c.hanging.eraseIdx place })
  | cleanUp (now : Nat) (c : SliceCache) : Change (now, c) (now, (c.cleanUp now).2)
  | clear (now : Nat) (c : SliceCache) : Change (now, c) (now, c.clear)
  /-- Something is counted, or noted of a batch. -/
  | note (now : Nat) (c : SliceCache) (stats : Stats) (queue : List Batch)
      (late : List (List Slice × Except CacheError Answers)) :
      Change (now, c) (now, { c with stats, queue, late })
  /-- Time passes. -/
  | wait {now later : Nat} (c : SliceCache) (h : now ≤ later) : Change (now, c) (later, c)

/-- The second moment comes after the first by changes of the cache. -/
def Evolves : Nat × SliceCache → Nat × SliceCache → Prop := Relation.ReflTransGen Change

namespace Evolves

variable {m m' m'' : Nat × SliceCache}

theorem refl (m : Nat × SliceCache) : Evolves m m := Relation.ReflTransGen.refl

theorem single (h : Change m m') : Evolves m m' := Relation.ReflTransGen.single h

theorem trans (h : Evolves m m') (k : Evolves m' m'') : Evolves m m'' :=
  Relation.ReflTransGen.trans h k

/-- What each change keeps, all together keep. -/
theorem induct {Q : Nat × SliceCache → Prop} (hQ : ∀ m m', Change m m' → Q m → Q m')
    (h : Evolves m m') (hm : Q m) : Q m' := by
  induction h with
  | refl => exact hm
  | tail _ hchange ih => exact hQ _ _ hchange ih

end Evolves

/-! ### Looking up -/

variable {now : Nat}

/-- The cache in the middle of a look-up. -/
def during (c : SliceCache) (l : Lookup) : SliceCache :=
  { c with entries := l.entries, stats := l.stats }

theorem evolves_derive (c : SliceCache) (l : Lookup) (s : Slice) :
    Evolves (now, c.during l) (now, c.during (l.derive now c.settings.idleTtl s)) := by
  unfold Lookup.derive
  split
  · exact .refl _
  next key e hc =>
    obtain ⟨hmem, hfresh, -⟩ := l.entries.of_container?_eq_some hc
    have huse : Change (now, c.during l) _ := .use hmem hfresh
    exact (Evolves.single huse).trans (.single (.note now _ _ _ _))

theorem evolves_step (c : SliceCache) (l : Lookup) (s : Slice) :
    Evolves (now, c.during l) (now, c.during (l.step now c.settings.idleTtl s)) := by
  unfold Lookup.step
  split
  · exact .refl _
  · split
    · exact evolves_derive c l s
    next e he =>
      split
      next hfresh =>
        have huse : Change (now, c.during l) _ := .use (l.entries.mem_of_get? he) hfresh
        exact (Evolves.single huse).trans (.single (.note now _ _ _ _))
      next hstale =>
        have hexpire : Change (now, c.during l) _ := .expire he hstale
        exact (Evolves.single hexpire).trans
          (evolves_derive c { l with entries := l.entries.erase s } s)

theorem evolves_foldl_step (c : SliceCache) (l : Lookup) (slices : List Slice) :
    Evolves (now, c.during l)
      (now, c.during (slices.foldl (Lookup.step now c.settings.idleTtl) l)) := by
  induction slices generalizing l with
  | nil => exact .refl _
  | cons s rest ih => exact (evolves_step c l s).trans (ih _)

theorem evolves_foldl_keep {c : SliceCache} (h : c.mode = .enabled) (l : Answers) :
    Evolves (now, c) (now, l.foldl (fun c p => c.keep now p.1 p.2) c) := by
  induction l generalizing c with
  | nil => exact .refl _
  | cons p rest ih =>
    have hp : Change (now, c) (now, c.keep now p.1 p.2) := .keep h p.1 p.2
    exact (Evolves.single hp).trans (ih h)

theorem evolves_lookUp {c : SliceCache} (h : c.mode = .enabled) (slices : List Slice) :
    Evolves (now, c) (now, (c.lookUp now slices).2) := by
  refine (evolves_foldl_step c { entries := c.entries, stats := c.stats } slices).trans ?_
  exact evolves_foldl_keep (c := c.during _) h _

end SliceCache

namespace Access

open SliceCache (Change Evolves)

/-- The time and the cache. -/
def moment (x : Access) : Nat × SliceCache := (x.backend.clock, x.cache)

variable (x : Access)

theorem evolves_lookUp (slices : List Slice) : Evolves x.moment (x.lookUp slices).2.moment := by
  unfold lookUp
  split
  next hmode => exact SliceCache.evolves_lookUp hmode slices
  next => exact .refl _

/-! ### Fetching -/

theorem evolves_settle (hfree : x.cache.free ≠ 0) (s : Slice) (o : Outcome) :
    Evolves x.moment (x.settle s o).2.moment := by
  cases o with
  | rows l =>
    simp only [settle]
    split
    next hmode => exact .single (.keep hmode s _)
    next => exact .refl _
  | failed e => exact .refl _
  | crashed => exact .refl _
  | hanging => exact .single (.take hfree s)

theorem evolves_fetch (hfree : x.cache.free ≠ 0) (isOpen : Bool) (s : Slice) :
    Evolves x.moment (x.fetch isOpen s).2.moment := by
  let called : Access := { x with backend := (x.backend.call s.predicate isOpen).2 }
  have hcalled : called.moment = x.moment :=
    congrArg (·, x.cache) (x.backend.clock_call s.predicate isOpen)
  rw [← hcalled]
  exact evolves_settle called hfree s _

theorem evolves_fetchAll (isOpen : Bool) (slices : List Slice) :
    Evolves x.moment (x.fetchAll isOpen slices).2.2.moment := by
  induction slices generalizing x with
  | nil => exact .refl _
  | cons s rest ih =>
    unfold fetchAll
    split
    · exact .refl _
    next hfree => exact (x.evolves_fetch hfree isOpen s).trans (ih _)

/-! ### Answering -/

theorem evolves_conclude (r : Except CacheError Answers) :
    Evolves x.moment (x.conclude r).moment := by
  cases r with
  | ok answers => exact .refl _
  | error e =>
    exact (Evolves.single (.note _ _ _ _ _)).trans (.single (.wait _ (Nat.le_add_right _ _)))

theorem evolves_enqueue (b : Batch) : Evolves x.moment (x.enqueue b).moment := by
  unfold enqueue
  split
  · exact .refl _
  · exact .single (.note _ _ _ _ _)

theorem evolves_countMisses (n : Nat) : Evolves x.moment (x.countMisses n).moment :=
  .single (.note _ _ _ _ _)

theorem evolves_start (slices : List Slice) : Evolves x.moment (x.start slices).2.moment :=
  ((x.evolves_lookUp slices).trans (evolves_countMisses _ _)).trans (evolves_fetchAll _ _ _)

theorem evolves_getAll (slices : List Slice) : Evolves x.moment (x.getAll slices).2.moment := by
  unfold getAll
  split
  · exact .refl _
  · have h := x.evolves_start slices
    dsimp only
    split
    · exact h.trans (evolves_enqueue _ _)
    · exact h.trans ((evolves_enqueue _ _).trans (evolves_conclude _ _))

/-! ### Waiting -/

theorem evolves_serve (isOpen : Bool) (queue : List Batch) :
    Evolves x.moment (x.serve isOpen queue).2.moment := by
  induction queue generalizing x with
  | nil => exact .refl _
  | cons b rest ih => exact (x.evolves_fetchAll isOpen b.waiting).trans (ih _)

theorem evolves_report (slices : List Slice) (r : Except CacheError Answers) :
    Evolves x.moment (x.report slices r).moment :=
  .single (.note _ _ _ _ _)

theorem evolves_answer (b : Batch) : Evolves x.moment (x.answer b).moment := by
  unfold answer
  split
  · exact x.evolves_enqueue b
  · split
    · exact x.evolves_enqueue b
    · refine (x.evolves_enqueue _).trans (.trans (evolves_report _ _ _) (evolves_conclude _ _))

theorem evolves_foldl_answer (queue : List Batch) :
    Evolves x.moment (queue.foldl answer x).moment := by
  induction queue generalizing x with
  | nil => exact .refl _
  | cons b rest ih => exact (x.evolves_answer b).trans (ih _)

theorem evolves_serveQueue (isOpen : Bool) : Evolves x.moment (x.serveQueue isOpen).moment := by
  refine (x.evolves_serve isOpen x.cache.queue).trans (.trans ?_ (evolves_foldl_answer _ _))
  exact .single (.note _ _ _ _ _)

theorem evolves_finish (place : Nat) : Evolves x.moment (x.finish place).moment := by
  unfold finish
  split
  · exact .refl _
  next s hs =>
    have hplace : place < x.cache.hanging.length := (List.getElem?_eq_some_iff.1 hs).1
    let freed : Access := { x with
      cache.free := x.cache.free + 1
      cache.hanging := x.cache.hanging.eraseIdx place
      backend := (x.backend.ask s.predicate).2 }
    have hfreed : Evolves x.moment freed.moment := by
      have hclock : freed.moment = (x.backend.clock, freed.cache) :=
        congrArg (·, freed.cache) (x.backend.clock_ask s.predicate)
      rw [hclock]
      exact .single (.giveBack hplace)
    exact hfreed.trans (evolves_settle freed (Nat.succ_ne_zero _) s _)

theorem evolves_land (place : Nat) : Evolves x.moment (x.land place).moment := by
  unfold land
  split
  · exact (x.evolves_finish place).trans (evolves_serveQueue _ false)
  · exact .refl _

theorem evolves_foldl_finish (l : List Slice) :
    Evolves x.moment (l.foldl (fun x _ => x.finish 0) x).moment := by
  induction l generalizing x with
  | nil => exact .refl _
  | cons s rest ih => exact (x.evolves_finish 0).trans (ih _)

theorem evolves_release : Evolves x.moment x.release.moment :=
  (x.evolves_foldl_finish x.cache.hanging).trans (evolves_serveQueue _ true)

end Access
end Outlier
