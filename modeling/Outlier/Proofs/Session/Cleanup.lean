import Outlier.Proofs.Cache.Cleanup
import Outlier.Proofs.Session.Evolution

/-! # Room for entries, and clean-ups, after a run

After any run, and at every moment of the requests that follow, a cache has no more entries than
there is room for, one at most for each slice. A clean-up at such a moment leaves the fresh ones
that are within the limit, and returns how many it dropped (`Session.bounded_run`). -/

namespace Outlier.Session

variable {s : Session} {i : Nat} {c : SliceCache}

/-- The entries of cache `i` after the requests, and a clean-up of it. -/
structure Bounded (s : Session) (i : Nat) (settings : Settings) (requests : List Request)
    (c : SliceCache) : Prop where
  cache : (s.run requests).caches[i]? = some c
  /-- By whatever changes the cache goes on from here, it keeps to its limits, and a clean-up leaves
  what it should. -/
  always : ∀ m, SliceCache.Evolves ((s.run requests).backend.clock, c) m →
    SliceCache.Bounded settings m
  /-- Every request comes to such changes. -/
  evolves : ∀ r, ∃ c', ((s.run requests).step r).2.caches[i]? = some c' ∧
    SliceCache.Evolves ((s.run requests).backend.clock, c)
      (((s.run requests).step r).2.backend.clock, c')
  /-- The request to clean up returns by how many the entries become fewer, and leaves the other
  caches and the store alone. -/
  cleanUp :
    let t := s.run requests
    let c' := (c.cleanUp t.backend.clock).2
    t.step (.cleanUp i) = (.count (c.size - c'.size), { t with caches := t.caches.set i c' })
  /-- A second such request returns 0 and changes nothing. -/
  again :
    let t := ((s.run requests).step (.cleanUp i)).2
    t.step (.cleanUp i) = (.count 0, t)

/-- **Room for entries and exact clean-ups.** After any requests since a cache was made, its slices
are distinct and no more than its settings allow, or one if they allow none. A clean-up leaves
exactly the fresh entries, of them the most recently used ones up to the limit, returns how many
went, and leaves nothing for a second one to do. -/
theorem bounded_run (s : Session) (i : Nat) (settings : Settings) (mode : Mode)
    (h : s.caches[i]? = some (SliceCache.new settings mode)) (requests : List Request) :
    ∃ c, s.Bounded i settings requests c := by
  obtain ⟨c, hc, hsound⟩ := sound_run h requests
  have hbounded : SliceCache.Bounded settings ((s.run requests).backend.clock, c) := hsound.bounded
  refine ⟨c, ?_⟩
  constructor
  case cache => exact hc
  case always =>
    intro m hm
    exact (hm.sound hsound).bounded
  case evolves => exact evolves_step hc
  case cleanUp =>
    refine (cleanUp_of_some _ hc).trans ?_
    exact congrArg (Reply.count ·, _) (Nat.eq_sub_of_add_eq hbounded.counted)
  case again =>
    have hi : i < (s.run requests).caches.length := (List.getElem?_eq_some_iff.1 hc).1
    rw [cleanUp_of_some _ hc]
    refine (cleanUp_of_some _ (List.getElem?_set_self hi)).trans ?_
    dsimp only
    rw [hbounded.again, List.set_set]

/-- A cache whose settings allow for no entry. -/
def roomForNone : Session where
  backend := { memory := { anomalies := [.stored 1 1 0 100, .stored 2 2 0 100] } }
  caches := [.new ⟨0, 100, 50, 1⟩ .enabled]

/-- It still has one entry after a request, until it is cleaned up. -/
theorem bounded_roomForNone :
    let requests : List Request := [.getAll 0 [{ detector := some 1 }, { detector := some 2 }]]
    roomForNone.caches[0]? = some (SliceCache.new ⟨0, 100, 50, 1⟩ .enabled) ∧
      (∃ c, roomForNone.Bounded 0 ⟨0, 100, 50, 1⟩ requests c) ∧
      (roomForNone.run requests).caches.map SliceCache.size = [1] ∧
      ((roomForNone.run requests).step (.cleanUp 0)).1 = .count 1 := by
  refine ⟨rfl, bounded_run roomForNone 0 ⟨0, 100, 50, 1⟩ .enabled rfl _, rfl, ?_⟩
  rw [cleanUp_of_some _ rfl, SliceCache.cleanUp_eq]
  rfl

end Outlier.Session
