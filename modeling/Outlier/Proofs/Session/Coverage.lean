import Outlier.Proofs.Cache.Coverage
import Outlier.Proofs.Session.Evolution

/-! # Which slices a batch fetches after a run

After any run, a batch of valid slices fetches exactly its distinct slices that no fresh entry
covers; a cache that keeps nothing fetches all of them (`uncovered_run`). -/

namespace Outlier.Session

/-- **Exactly the uncovered slices are fetched.** After any requests since a cache was made, a batch
of valid slices fetches each of its slices once that no fresh entry contains, and no other. A cache
that keeps nothing never has an entry and fetches all slices of the batch. -/
theorem uncovered_run (s : Session) (i : Nat) (settings : Settings) (mode : Mode)
    (h : s.caches[i]? = some (SliceCache.new settings mode)) (requests : List Request) :
    ∃ c, (s.run requests).caches[i]? = some c ∧ c.settings = settings ∧ c.mode = mode ∧
      (mode = .disabled → c.entries.entries = []) ∧
      ∀ slices : List Slice, (∀ t ∈ slices, t.fault? = none) →
        let x : Access := ⟨c, (s.run requests).backend⟩
        x.FetchesUncovered slices ∧
          (mode = .disabled → ∀ t, t ∈ x.called slices ++ x.postponed slices ↔ t ∈ slices) := by
  obtain ⟨c, hc, hsound⟩ := sound_run h requests
  refine ⟨c, hc, hsound.settings, hsound.mode, hsound.unused, fun slices hv => ?_⟩
  have hfetches : Access.FetchesUncovered ⟨c, (s.run requests).backend⟩ slices :=
    Access.fetchesUncovered hsound.ordered.nodup hsound.entries_eq_nil hv
  refine ⟨hfetches, fun hmode t => ?_⟩
  have hnone : ¬ Access.Covers ⟨c, (s.run requests).backend⟩ t := by
    rintro ⟨p, hp, -⟩
    have hp : p ∈ c.entries.entries := hp
    rw [hsound.unused hmode] at hp
    exact absurd hp List.not_mem_nil
  rw [hfetches.uncovered]
  exact and_iff_left hnone

/-- One permit; the second call hangs. -/
def hangingSecond : Session where
  backend := {
    memory := { anomalies := [.stored 1 1 0 100, .stored 2 1 200 300, .stored 3 2 200 300] }
    script := fun n _ => if n = 1 then .hang else .obey }
  caches := [.new ⟨3, 1000, 50, 1⟩ .enabled]

/-- After detector 1 was asked for, its later part is covered as long as that entry is fresh. Of the
others, each is fetched once, however often it is named; the second has to wait. -/
theorem uncovered_hangingSecond :
    let batch : List Slice :=
      [{ detector := some 2 }, { detector := some 1, start := some 150 }, { detector := some 3 },
        { detector := some 2 }]
    let asked : Session := hangingSecond.run [.get 0 { detector := some 1 }]
    ∃ c, asked.caches[0]? = some c ∧
      Access.FetchesUncovered ⟨c, asked.backend⟩ batch ∧
      Access.called ⟨c, asked.backend⟩ batch = [{ detector := some 2 }] ∧
      Access.postponed ⟨c, asked.backend⟩ batch = [{ detector := some 3 }] := by
  obtain ⟨c, hc, -, -, -, hall⟩ := uncovered_run hangingSecond 0 ⟨3, 1000, 50, 1⟩ .enabled rfl
    [.get 0 { detector := some 1 }]
  refine ⟨c, hc, (hall _ (by decide)).1, ?_⟩
  obtain rfl := Option.some.inj hc
  exact ⟨rfl, rfl⟩

end Outlier.Session
