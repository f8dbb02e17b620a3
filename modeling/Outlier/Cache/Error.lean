import Outlier.Cache.Store

/-! # Errors of a cache

Whatever goes wrong with one slice of a batch fails the whole batch. -/

namespace Outlier

/-- A query or a configuration that was refused. -/
inductive QueryError where
  | invalid (reason : String)
  | config (reason : String)
  deriving DecidableEq

/-- The message of a refusal. -/
def QueryError.message : QueryError → String
  | invalid reason => s!"invalid query: {reason}"
  | config reason => s!"config error: {reason}"

/-- Why a batch failed. -/
inductive CacheError where
  | invalidQuery (reason : String)
  /-- A store call took too long; `pending` slices from its own on had no answer. -/
  | timedOut (pending timeout : Nat)
  | storeFailed (e : StoreError)
  /-- The store call for the slice broke down. -/
  | aborted (s : Slice)
  deriving DecidableEq

namespace CacheError

/-- The message of a failure. -/
def message : CacheError → String
  | invalidQuery reason => s!"invalid query: {reason}"
  | timedOut pending timeout =>
    s!"timed out after {timeout}ms waiting for {pending} slice fetch(es)"
  | storeFailed e => s!"store failure: {e.message}"
  | aborted s => s!"store failure: fetch for {s.display} aborted"

/-- A refusal as the failure of a batch. -/
def ofQuery : QueryError → CacheError
  | .invalid reason => invalidQuery reason
  | e => invalidQuery e.message

end CacheError
end Outlier
