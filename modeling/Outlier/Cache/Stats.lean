/-! # Counters of a cache -/

namespace Outlier

/-- What a cache counted since it was made. -/
structure Stats where
  /-- Slices answered by their own entry. -/
  hits : Nat := 0
  /-- Slices answered from the entry of a containing slice. -/
  derivedHits : Nat := 0
  /-- Slices fetched from the store. -/
  misses : Nat := 0
  /-- Entries dropped by cleaning up or clearing. -/
  evictions : Nat := 0
  failedBatches : Nat := 0
  deriving DecidableEq

namespace Stats

/-- The share of slices that were answered without the store, as a double; zero before the first. -/
def hitRatio (s : Stats) : Float :=
  let served := s.hits + s.derivedHits
  let total := served + s.misses
  if total = 0 then 0.0 else served.toUInt64.toFloat / total.toUInt64.toFloat

end Stats
end Outlier
