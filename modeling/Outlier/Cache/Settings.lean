import Outlier.Config

/-! # Settings of a cache -/

namespace Outlier

/-- Does a cache keep and reuse what it fetched? -/
inductive Mode where
  | enabled
  | disabled
  deriving DecidableEq

/-- How a cache works; times are in milliseconds. -/
structure Settings where
  maxEntries : Nat
  /-- An entry that was not used for this long is expired. -/
  idleTtl : Nat
  /-- How long a store call may take. -/
  fetchTimeout : Nat
  /-- How many store calls may be in progress together. -/
  fetchConcurrency : Nat
  deriving DecidableEq

namespace Settings

/-- The settings that a configuration asks for. -/
def ofConfig (c : CacheConfig) : Settings where
  maxEntries := c.maxEntries.toNat
  idleTtl := c.idleSecs.toNat * 1000
  fetchTimeout := c.fetchTimeoutSecs.toNat * 1000
  fetchConcurrency := c.fetchConcurrency.toNat

/-- There is room for one entry at least. -/
def capacity (s : Settings) : Nat := max 1 s.maxEntries

/-- One store call can be in progress at least. -/
def permits (s : Settings) : Nat := max 1 s.fetchConcurrency

/-- The time limit in messages, which show its lowest 64 bits. -/
def shownTimeout (s : Settings) : Nat := s.fetchTimeout % UInt64.size

end Settings
end Outlier
