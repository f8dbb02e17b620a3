import Outlier.Config.Environment
import Outlier.Text.Digits
import Outlier.Text.Upper

/-! # Configuration

The settings of the cache and of grouping, read from an environment. Under a profile, a name is
looked up first with the profile in capitals before it (`PROD_TRIGGER_MAX_CANDIDATES`) and then as
it is; an empty text counts as absent. A text that is no number of the right size gives the
default, without a second look-up. -/

namespace Outlier

/-- How anomalies are fetched and kept. -/
structure CacheConfig where
  /-- Does the shared cache keep and reuse what it fetched? -/
  enabled : Bool := true
  maxEntries : UInt64 := 10000
  idleSecs : UInt64 := 600
  fetchTimeoutSecs : UInt64 := 60
  fetchConcurrency : UInt64 := 16
  deriving DecidableEq

/-- How anomalies are grouped. -/
structure GroupingConfig where
  /-- More candidates than this are returned ungrouped. -/
  maxCandidates : UInt64 := 1000
  deriving DecidableEq

/-- The whole configuration; an empty profile stands for none. -/
structure Config where
  profile : String := ""
  cache : CacheConfig := {}
  grouping : GroupingConfig := {}
  deriving DecidableEq

/-! ### Looking up -/

namespace Environment

/-- The text of a name, unless it is empty. -/
def filled? (env : Environment) (name : String) : Option String :=
  (env.get? name).filter (· ≠ "")

/-- The text of a name under a profile. -/
def profiled? (env : Environment) (profile name : String) : Option String :=
  if profile = "" then env.filled? name
  else (env.filled? (profile ++ "_" ++ name)).or (env.filled? name)

/-- A truth value: `true`, `1` and `yes` in small or capital letters, anything else is false. -/
def flag (env : Environment) (profile name : String) (default : Bool) : Bool :=
  match env.profiled? profile name with
  | some text => ["true", "1", "yes"].contains (text.map Char.toLower)
  | none => default

/-- The number written by decimal digits, with or without a plus sign, if it fits into 64 bits. -/
def number? (text : String) : Option UInt64 :=
  let digits := match text.toList with
    | '+' :: rest => rest
    | l => l
  if digits.isEmpty || !digits.all Char.isDigit then none
  else
    let n := Text.decimalValue digits
    if n < UInt64.size then some (UInt64.ofNat n) else none

/-- A number. -/
def number (env : Environment) (profile name : String) (default : UInt64) : UInt64 :=
  ((env.profiled? profile name).bind number?).getD default

end Environment

/-! ### Reading the configuration -/

namespace CacheConfig

/-- The cache settings of a profile; there is room for one entry and one fetch at least. -/
def ofEnvironment (env : Environment) (profile : String) : CacheConfig where
  enabled := env.flag profile "ANOMALY_CACHE_ENABLED" true
  maxEntries := max 1 (env.number profile "ANOMALY_CACHE_MAX_ENTRIES" 10000)
  idleSecs := env.number profile "ANOMALY_CACHE_IDLE_SECS" 600
  fetchTimeoutSecs := env.number profile "ANOMALY_FETCH_TIMEOUT_SECS" 60
  fetchConcurrency := max 1 (env.number profile "ANOMALY_FETCH_CONCURRENCY" 16)

end CacheConfig

namespace GroupingConfig

/-- The grouping settings of a profile. -/
def ofEnvironment (env : Environment) (profile : String) : GroupingConfig where
  maxCandidates := env.number profile "TRIGGER_MAX_CANDIDATES" 1000

end GroupingConfig

namespace Config

/-- The configuration of a profile. -/
def forProfile (env : Environment) (profile : String) : Config :=
  let profile := Text.upper profile
  { profile
    cache := .ofEnvironment env profile
    grouping := .ofEnvironment env profile }

/-- The configuration of the profile that the environment names. -/
def ofEnvironment (env : Environment) : Config := forProfile env ((env.get? "LENS_PROFILE").getD "")

/-- The name of the profile for people. -/
def label (c : Config) : String := if c.profile = "" then "default" else c.profile

/-- What is logged at the start. -/
def logLines (c : Config) : List String :=
  [s!"Config loaded (profile: {c.label}):",
    s!"  cache:     enabled={c.cache.enabled}, max_entries={c.cache.maxEntries.toNat}, "
      ++ s!"idle={c.cache.idleSecs.toNat}s",
    s!"  fetch:     timeout={c.cache.fetchTimeoutSecs.toNat}s, "
      ++ s!"concurrency={c.cache.fetchConcurrency.toNat}",
    s!"  grouping:  max_candidates={c.grouping.maxCandidates.toNat}"]

end Config
end Outlier
