import Outlier.Config
import Outlier.Json.Decode

/-! # Configurations as JSON

Every field of a configuration has to be there. The summary for diagnostics is the configuration
with the name of the profile for people. -/

namespace Outlier

namespace CacheConfig

/-- How the cache settings are laid out as a record. -/
def form : RecordForm where
  name := "CacheConfig"
  fields := ["enabled", "max_entries", "idle_secs", "fetch_timeout_secs", "fetch_concurrency"]
  required := 5

/-- The fields that were read so far. -/
structure Draft where
  enabled : Option Bool := none
  maxEntries : Option UInt64 := none
  idleSecs : Option UInt64 := none
  fetchTimeoutSecs : Option UInt64 := none
  fetchConcurrency : Option UInt64 := none

/-- Read one field; unknown fields are ignored. -/
def Draft.readField (key : String) (j : Json) (d : Draft) : Except DecodeError Draft :=
  match key with
  | "enabled" => j.toBool.map ({ d with enabled := some · })
  | "max_entries" => (j.toWord .size).map ({ d with maxEntries := some · })
  | "idle_secs" => (j.toWord .word).map ({ d with idleSecs := some · })
  | "fetch_timeout_secs" => (j.toWord .word).map ({ d with fetchTimeoutSecs := some · })
  | "fetch_concurrency" => (j.toWord .size).map ({ d with fetchConcurrency := some · })
  | _ => .ok d

/-- The cache settings that a JSON value holds. -/
def ofJson (j : Json) : Except DecodeError CacheConfig := do
  let d ← form.read Draft.readField {} j
  return { enabled := ← require "enabled" d.enabled
           maxEntries := ← require "max_entries" d.maxEntries
           idleSecs := ← require "idle_secs" d.idleSecs
           fetchTimeoutSecs := ← require "fetch_timeout_secs" d.fetchTimeoutSecs
           fetchConcurrency := ← require "fetch_concurrency" d.fetchConcurrency }

/-- The JSON form of the cache settings. -/
def toJson (c : CacheConfig) : Json :=
  .obj [("enabled", .bool c.enabled), ("fetch_concurrency", .ofWord c.fetchConcurrency),
    ("fetch_timeout_secs", .ofWord c.fetchTimeoutSecs), ("idle_secs", .ofWord c.idleSecs),
    ("max_entries", .ofWord c.maxEntries)]

end CacheConfig

namespace GroupingConfig

/-- How the grouping settings are laid out as a record. -/
def form : RecordForm where
  name := "GroupingConfig"
  fields := ["max_candidates"]
  required := 1

/-- Read the only field; unknown fields are ignored. -/
def readField (key : String) (j : Json) (d : Option UInt64) : Except DecodeError (Option UInt64) :=
  match key with
  | "max_candidates" => (j.toWord .size).map some
  | _ => .ok d

/-- The grouping settings that a JSON value holds. -/
def ofJson (j : Json) : Except DecodeError GroupingConfig := do
  return ⟨← require "max_candidates" (← form.read readField none j)⟩

/-- The JSON form of the grouping settings. -/
def toJson (c : GroupingConfig) : Json := .obj [("max_candidates", .ofWord c.maxCandidates)]

end GroupingConfig

namespace Config

/-- How a configuration is laid out as a record. -/
def form : RecordForm where
  name := "Config"
  fields := ["profile", "cache", "grouping"]
  required := 3

/-- The fields that were read so far. -/
structure Draft where
  profile : Option String := none
  cache : Option CacheConfig := none
  grouping : Option GroupingConfig := none

/-- Read one field; unknown fields are ignored. -/
def Draft.readField (key : String) (j : Json) (d : Draft) : Except DecodeError Draft :=
  match key with
  | "profile" => j.toStr.map ({ d with profile := some · })
  | "cache" => (CacheConfig.ofJson j).map ({ d with cache := some · })
  | "grouping" => (GroupingConfig.ofJson j).map ({ d with grouping := some · })
  | _ => .ok d

/-- The configuration that a JSON value holds. -/
def ofJson (j : Json) : Except DecodeError Config := do
  let d ← form.read Draft.readField {} j
  return { profile := ← require "profile" d.profile
           cache := ← require "cache" d.cache
           grouping := ← require "grouping" d.grouping }

/-- The JSON form of a configuration under the given name of its profile. -/
def toJsonAs (c : Config) (profile : String) : Json :=
  .obj [("cache", c.cache.toJson), ("grouping", c.grouping.toJson), ("profile", .str profile)]

/-- The JSON form of a configuration. -/
def toJson (c : Config) : Json := c.toJsonAs c.profile

/-- The summary for diagnostics. -/
def summary (c : Config) : Json := c.toJsonAs c.label

end Config
end Outlier
