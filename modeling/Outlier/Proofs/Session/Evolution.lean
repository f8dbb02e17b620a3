import Outlier.Proofs.Cache.Order
import Outlier.Proofs.Session.Steps

/-! # Runs as changes of one cache

Seen from one cache, a request is a sequence of changes of that cache while time passes, and so is a
run (`evolves_run`). What no change spoils therefore holds after every run (`sound_run`). -/

namespace Outlier.Session

open SliceCache (Evolves)

variable {s : Session} {i : Nat} {c : SliceCache} {settings : Settings} {mode : Mode}

theorem Does.evolves {r : Request} {x y : Access} (h : Does s i r x y) :
    Evolves x.moment y.moment := by
  cases h with
  | rest => exact .refl _
  | asked => exact x.evolves_getAll _
  | cleaned => exact .single (.cleanUp _ _)
  | cleared => exact .single (.clear _ _)
  | landed place => exact x.evolves_land place
  | released => exact x.evolves_release

theorem evolves_step (hc : s.caches[i]? = some c) (r : Request) :
    ∃ c', (s.step r).2.caches[i]? = some c' ∧
      Evolves (s.backend.clock, c) ((s.step r).2.backend.clock, c') := by
  obtain ⟨b, y, hturn⟩ := s.exists_turn hc r
  have hbefore : Evolves (s.backend.clock, c) (b.clock, c) := .single (.wait c hturn.before.clock)
  have hafter : Evolves y.moment ((s.step r).2.backend.clock, y.cache) :=
    .single (.wait y.cache hturn.clock)
  exact ⟨y.cache, hturn.after, (hbefore.trans hturn.does.evolves).trans hafter⟩

theorem evolves_run (hc : s.caches[i]? = some c) (requests : List Request) :
    ∃ c', (s.run requests).caches[i]? = some c' ∧
      Evolves (s.backend.clock, c) ((s.run requests).backend.clock, c') := by
  induction requests generalizing s c with
  | nil => exact ⟨c, hc, .refl _⟩
  | cons r rest ih =>
    obtain ⟨d, hd, hstep⟩ := evolves_step hc r
    obtain ⟨c', hc', hrun⟩ := ih hd
    exact ⟨c', hc', hstep.trans hrun⟩

/-- A cache is sound after any run since it was made. -/
theorem sound_run (h : s.caches[i]? = some (SliceCache.new settings mode))
    (requests : List Request) :
    ∃ c, (s.run requests).caches[i]? = some c ∧
      SliceCache.Sound settings mode ((s.run requests).backend.clock, c) := by
  obtain ⟨c, hc, hrun⟩ := evolves_run h requests
  exact ⟨c, hc, hrun.sound (SliceCache.sound_new settings mode s.backend.clock)⟩

end Outlier.Session
