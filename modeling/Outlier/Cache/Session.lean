import Outlier.Cache

/-! # Sessions

A session is a run of requests to caches over one store. Caches are named by handles in the order
in which they appeared. A provider hands them out: one shared cache, made when it is first asked
for and the same ever after, and isolated caches that are new each time. Reading a session changes
nothing; `Session.step` says what every other request answers and does. -/

namespace Outlier

/-- Hands out caches of the same settings. -/
structure Provider where
  settings : Settings
  /-- The mode of the shared cache. -/
  sharedMode : Mode
  /-- The handle of the shared cache, once it was made. -/
  shared : Option Nat := none

/-- The provider that a configuration asks for. -/
def Provider.ofConfig (c : CacheConfig) : Provider where
  settings := .ofConfig c
  sharedMode := if c.enabled then .enabled else .disabled

/-- Caches over one store, with or without a provider. -/
structure Session where
  backend : Backend
  caches : List SliceCache := []
  provider : Option Provider := none

/-- A request to a session. -/
inductive Request where
  | get (cache : Nat) (s : Slice)
  | getAll (cache : Nat) (slices : List Slice)
  | cleanUp (cache : Nat)
  | clear (cache : Nat)
  /-- New anomalies come into the store. -/
  | extend (l : List Anomaly)
  /-- Ask the memory store itself. -/
  | find (p : Predicate)
  /-- Later store calls go by another script. -/
  | setScript (script : Nat → Predicate → Behaviour)
  /-- Let the hanging call at a place among those of the cache finish. -/
  | land (cache place : Nat)
  /-- Let all hanging and waiting fetches finish. -/
  | release
  | sleep (millis : Nat)
  | shared
  /-- The shared cache, or an isolated one that keeps nothing. -/
  | instanceOf (enabled : Bool)
  | isolated (mode : Mode)
  /-- Clean up the shared cache, if it was made. -/
  | cleanUpShared

/-- The answer to a request. -/
inductive Reply where
  | done
  /-- The anomalies of one slice. -/
  | anomalies (r : Except CacheError (List Anomaly))
  /-- The anomalies of each slice of a batch. -/
  | batch (r : Except CacheError Answers)
  | found (r : Except StoreError (List Anomaly))
  | count (n : Nat)
  | handle (cache : Nat)
  /-- The batch waits for a fetch permit. -/
  | waiting
  /-- There is no such cache or no provider. -/
  | unknown

namespace Session

/-- Is the shared cache made? -/
def isInitialized (s : Session) : Bool := s.provider.any (·.shared.isSome)

/-- Do something with one cache and the store. -/
def visit (s : Session) (cache : Nat) (act : Access → Reply × Access) : Reply × Session :=
  match s.caches[cache]? with
  | none => (.unknown, s)
  | some c =>
    let (reply, x) := act ⟨c, s.backend⟩
    (reply, { s with backend := x.backend, caches := s.caches.set cache x.cache })

/-- Add a cache of the provider's settings under the next handle. -/
def add (s : Session) (p : Provider) (mode : Mode) : Reply × Session :=
  (.handle s.caches.length,
    { s with provider := some p, caches := s.caches ++ [SliceCache.new p.settings mode] })

/-- The shared cache, made now if it was not before. -/
def getShared (s : Session) (p : Provider) : Reply × Session :=
  match p.shared with
  | some cache => (.handle cache, s)
  | none => s.add { p with shared := some s.caches.length } p.sharedMode

/-- Clean up a cache. -/
def cleanUp (s : Session) (cache : Nat) : Reply × Session :=
  s.visit cache fun x =>
    let (n, c) := x.cache.cleanUp x.backend.clock
    (.count n, { x with cache := c })

/-- Let all hanging and waiting fetches of the caches finish, one cache after the other. -/
def releaseAll (backend : Backend) : List SliceCache → List SliceCache × Backend
  | [] => ([], backend)
  | c :: rest =>
    let x := Access.release ⟨c, backend⟩
    let (caches, backend) := releaseAll x.backend rest
    (x.cache :: caches, backend)

/-- The answer to a request and the session after it. -/
def step (s : Session) : Request → Reply × Session
  | .get cache slice => s.visit cache fun x =>
    let (r, x) := x.get slice
    (r.elim .waiting .anomalies, x)
  | .getAll cache slices => s.visit cache fun x =>
    let (r, x) := x.getAll slices
    (r.elim .waiting .batch, x)
  | .cleanUp cache => s.cleanUp cache
  | .clear cache => s.visit cache fun x => (.done, { x with cache := x.cache.clear })
  | .extend l => (.done, { s with backend.memory := s.backend.memory.extend l })
  | .find p =>
    let (r, memory) := s.backend.memory.find p
    (.found r, { s with backend.memory := memory })
  | .setScript script => (.done, { s with backend.script := script })
  | .land cache place => s.visit cache fun x => (.done, x.land place)
  | .release =>
    let (caches, backend) := releaseAll s.backend s.caches
    (.done, { s with caches, backend })
  | .sleep millis => (.done, { s with backend := s.backend.advance millis })
  | .shared => match s.provider with
    | some p => s.getShared p
    | none => (.unknown, s)
  | .instanceOf enabled => match s.provider with
    | some p => if enabled then s.getShared p else s.add p .disabled
    | none => (.unknown, s)
  | .isolated mode => match s.provider with
    | some p => s.add p mode
    | none => (.unknown, s)
  | .cleanUpShared => match s.provider with
    | some p => match p.shared with
      | some cache => s.cleanUp cache
      | none => (.count 0, s)
    | none => (.unknown, s)

/-- The session after a list of requests. -/
def run (s : Session) (requests : List Request) : Session :=
  requests.foldl (fun s r => (s.step r).2) s

end Session
end Outlier
