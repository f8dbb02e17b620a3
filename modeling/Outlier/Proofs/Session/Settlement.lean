import Outlier.Proofs.Cache.Settlement

/-! # Batches of a session succeed or fail as a whole

Permits are accounted for after any run, so a batch that finds one free settles as its plan says
(`settles_run`). -/

namespace Outlier

namespace Session

/-- **Batch failure.** After any requests since a cache was made, if a permit is free, a batch of
valid slices is answered for all of its slices or fails as its first failing slice says, and what
its fetches bring is kept in both cases. -/
theorem settles_run (s : Session) (i : Nat) (settings : Settings) (mode : Mode)
    (h : s.caches[i]? = some (SliceCache.new settings mode)) (requests : List Request) :
    ∃ c, (s.run requests).caches[i]? = some c ∧ c.settings = settings ∧ c.mode = mode ∧
      (0 < c.free → ∀ slices : List Slice, (∀ t ∈ slices, t.fault? = none) →
        Access.Settles ⟨c, (s.run requests).backend⟩ slices) := by
  have hkept := kept_permitted.and (kept_made settings mode)
  obtain ⟨-, c, hc, hpermitted, hmade⟩ := kept_run hkept (fun _ _ _ _ => trivial)
    (fun _ _ _ _ => trivial) h trivial
    ⟨SliceCache.permitted_new settings mode, made_new settings mode⟩
  refine ⟨c, hc, hmade.settings, hmade.mode, fun hfree slices hv => ?_⟩
  exact Access.settles (x := ⟨c, (s.run requests).backend⟩) hpermitted hfree hv

/-- One permit; the first call hangs and the second fails. -/
def hangingThenFailing : Session where
  backend := {
    memory := { anomalies := [.stored 1 1 0 100, .stored 2 2 0 100, .stored 3 3 0 100] }
    script := fun n _ => if n = 0 then .hang else if n = 1 then .fail (.other "down") else .obey }
  caches := [.new ⟨9, 60000, 50, 1⟩ .enabled]

/-- The caller is told that the first of three slices took too long, and then the first and the last
of them land. -/
theorem settles_hangingThenFailing :
    let slices : List Slice :=
      [{ detector := some 1 }, { detector := some 2 }, { detector := some 3 }]
    let x : Access := ⟨.new ⟨9, 60000, 50, 1⟩ .enabled, hangingThenFailing.backend⟩
    x.Settles slices ∧
      (x.getAll slices).1 = some (.error (.timedOut 3 50)) ∧
      ((x.getAll slices).2.land 0).cache.entries.entries.map Prod.fst =
        [{ detector := some 3 }, { detector := some 1 }] := by
  refine ⟨?_, rfl, rfl⟩
  obtain ⟨c, hc, -, -, hsettles⟩ :=
    settles_run hangingThenFailing 0 ⟨9, 60000, 50, 1⟩ .enabled rfl []
  obtain rfl : SliceCache.new ⟨9, 60000, 50, 1⟩ .enabled = c := Option.some.inj hc
  exact hsettles (by decide) _ (by decide)

end Session
end Outlier
