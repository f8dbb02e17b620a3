import Outlier.Cache.Error
import Outlier.Cache.Recency
import Outlier.Cache.Settings
import Outlier.Cache.Stats

/-! # Slice caches

A cache answers a batch of slices, each from its own entry, from a fresh entry of a containing
slice, or from the store. Store calls need one of a fixed number of permits. A call that hangs
keeps its permit; while no permit is free, further fetches wait in a queue. The first fetch of a
batch that does not bring rows fails the batch, but all of its fetches run, and what they bring is
kept, even when it comes only after hanging calls have finished. A batch that has to wait is
answered later, when the queue gets to it. -/

namespace Outlier

/-- Slices with their anomalies. -/
abbrev Answers := List (Slice × List Anomaly)

/-- What a fetch has come to by now. -/
inductive Fetch where
  | rows (l : List Anomaly)
  | failed (e : CacheError)
  | hanging
  | queued

/-- A batch whose slices were looked up. -/
structure Batch where
  /-- The slices that were asked for. -/
  slices : List Slice
  /-- What the entries answered. -/
  answers : Answers
  /-- What its fetches came to so far, in the order of the request. -/
  fetched : List (Slice × Fetch)
  /-- The slices whose fetches wait for a permit. -/
  waiting : List Slice
  /-- Did the caller get an answer, an error, while fetches still wait? -/
  answered : Bool := false

/-- A cache over a store. -/
structure SliceCache where
  settings : Settings
  mode : Mode
  entries : Recency
  stats : Stats := {}
  /-- Fetch permits that are not taken. -/
  free : Nat
  /-- The slices whose store calls hang, in the order in which the calls started. -/
  hanging : List Slice := []
  /-- The batches with fetches that wait for a permit, first come first. -/
  queue : List Batch := []
  /-- The batches that had to wait and were answered since, with their answers. -/
  late : List (List Slice × Except CacheError Answers) := []

namespace SliceCache

/-- A cache without entries. -/
def new (settings : Settings) (mode : Mode) : SliceCache where
  settings := settings
  mode := mode
  entries := { capacity := settings.capacity }
  free := settings.permits

/-- The number of entries, expired ones included. -/
def size (c : SliceCache) : Nat := c.entries.size

/-! ### Looking up -/

/-- A look-up of slices among the entries: the entries as it leaves them, the answers found so
far, and those of them that are to be kept as entries of their own. -/
structure Lookup where
  entries : Recency
  stats : Stats
  answers : Answers := []
  derived : Answers := []

namespace Lookup

/-- Answer a slice from the most recently used fresh entry that contains it, if there is one. -/
def derive (l : Lookup) (now ttl : Nat) (s : Slice) : Lookup :=
  match l.entries.container? s now ttl with
  | none => l
  | some (key, e) =>
    { l with
      entries := l.entries.touch key now
      stats.derivedHits := l.stats.derivedHits + 1
      answers := l.answers ++ [(s, s.select e.anomalies)]
      derived := l.derived ++ [(s, s.select e.anomalies)] }

/-- Look up one slice, unless it was answered before. An expired entry of its own is dropped. -/
def step (now ttl : Nat) (l : Lookup) (s : Slice) : Lookup :=
  if (l.answers.lookup s).isSome then l
  else match l.entries.get? s with
    | none => l.derive now ttl s
    | some e =>
      if e.isFresh now ttl then
        { l with
          entries := l.entries.touch s now
          stats.hits := l.stats.hits + 1
          answers := l.answers ++ [(s, e.anomalies)] }
      else derive { l with entries := l.entries.erase s } now ttl s

end Lookup

/-- Keep the anomalies of a slice as an entry. -/
def keep (c : SliceCache) (now : Nat) (s : Slice) (l : List Anomaly) : SliceCache :=
  { c with entries := c.entries.push s { anomalies := l, lastAccess := now } }

/-- Answer the slices that the entries can answer. -/
def lookUp (c : SliceCache) (now : Nat) (slices : List Slice) : Answers × SliceCache :=
  let start : Lookup := { entries := c.entries, stats := c.stats }
  let l := slices.foldl (Lookup.step now c.settings.idleTtl) start
  let c := { c with entries := l.entries, stats := l.stats }
  (l.answers, l.derived.foldl (fun c p => c.keep now p.1 p.2) c)

/-! ### Cleaning up -/

/-- Drop the expired entries, and then the least recently used ones beyond the limit. -/
def cleanUp (c : SliceCache) (now : Nat) : Nat × SliceCache :=
  let expired := c.entries.expired now c.settings.idleTtl
  let (excess, entries) := (c.entries.eraseAll expired).shrink c.settings.maxEntries
  let evicted := expired.length + excess
  (evicted, { c with entries, stats.evictions := c.stats.evictions + evicted })

/-- Drop all entries. -/
def clear (c : SliceCache) : SliceCache :=
  { c with entries := c.entries.cleared, stats.evictions := c.stats.evictions + c.size }

end SliceCache

/-! ### Fetching -/

/-- A cache together with the store behind it. -/
structure Access where
  cache : SliceCache
  backend : Backend

/-- How long a caller waits for the error. -/
def CacheError.delay (s : Settings) : CacheError → Nat
  | .timedOut .. => s.fetchTimeout
  | _ => 0

namespace Batch

/-- What fetches come to as a batch: rows for every slice, or the first failure, where a hanging
call counts as taking too long. While a fetch before that waits for a permit, the batch has no
answer. -/
def outcome (timeout : Nat) : List (Slice × Fetch) → Option (Except CacheError Answers)
  | [] => some (.ok [])
  | (s, .rows l) :: rest => (outcome timeout rest).map (·.map ((s, l) :: ·))
  | (_, .failed e) :: _ => some (.error e)
  | (_, .hanging) :: rest => some (.error (.timedOut (rest.length + 1) timeout))
  | (_, .queued) :: _ => none

/-- What the batch has come to by now. -/
def verdict (b : Batch) (timeout : Nat) : Option (Except CacheError Answers) :=
  (outcome timeout (b.fetched ++ b.waiting.map (·, .queued))).map (·.map (b.answers ++ ·))

end Batch

namespace Access

/-- Take what a store call came to. Rows are checked against the slice, and kept if the cache keeps
anything; a call that hangs takes its permit along, any other has given it back. -/
def settle (x : Access) (s : Slice) : Outcome → Fetch × Access
  | .rows l =>
    let kept := s.select l
    (.rows kept,
      match x.cache.mode with
      | .enabled => { x with cache := x.cache.keep x.backend.clock s kept }
      | .disabled => x)
  | .failed e => (.failed (.storeFailed e), x)
  | .crashed => (.failed (.aborted s), x)
  | .hanging =>
    (.hanging,
      { x with
        cache.free := x.cache.free - 1
        cache.hanging := x.cache.hanging ++ [s] })

/-- Fetch a slice from the store; with the gate open, a call that would hang passes through. -/
def fetch (x : Access) (isOpen : Bool) (s : Slice) : Fetch × Access :=
  let (outcome, backend) := x.backend.call s.predicate isOpen
  settle { x with backend } s outcome

/-- Fetch slices one after the other as long as a permit is free: what the fetches came to, and the
slices that have to wait. -/
def fetchAll (x : Access) (isOpen : Bool) :
    List Slice → List (Slice × Fetch) × List Slice × Access
  | [] => ([], [], x)
  | s :: rest =>
    if x.cache.free = 0 then ([], s :: rest, x)
    else
      let (f, x) := x.fetch isOpen s
      let (fs, waiting, x) := x.fetchAll isOpen rest
      ((s, f) :: fs, waiting, x)

/-- Count the failure of a batch and let the time pass that its caller waited for it. -/
def failBatch (x : Access) (e : CacheError) : Access :=
  { x with
    cache.stats.failedBatches := x.cache.stats.failedBatches + 1
    backend := x.backend.advance (e.delay x.cache.settings) }

/-- Note what the caller of a batch gets. -/
def conclude (x : Access) : Except CacheError Answers → Access
  | .ok _ => x
  | .error e => x.failBatch e

/-- Put a batch at the end of the queue, if fetches of it wait. -/
def enqueue (x : Access) (b : Batch) : Access :=
  if b.waiting.isEmpty then x else { x with cache.queue := x.cache.queue ++ [b] }

/-- Count slices that have to be fetched. -/
def countMisses (x : Access) (n : Nat) : Access :=
  { x with cache.stats.misses := x.cache.stats.misses + n }

/-- Answer slices from the entries, if the cache keeps any. -/
def lookUp (x : Access) (slices : List Slice) : Answers × Access :=
  match x.cache.mode with
  | .enabled =>
    let (answers, cache) := x.cache.lookUp x.backend.clock slices
    (answers, { x with cache })
  | .disabled => ([], x)

/-- The distinct slices without an answer, in the order of the request. -/
def pending (slices : List Slice) (answers : Answers) : List Slice :=
  (slices.filter fun s => (answers.lookup s).isNone).eraseDups

/-- Begin a batch: look its slices up and fetch those without an answer. -/
def start (x : Access) (slices : List Slice) : Batch × Access :=
  let (answers, x) := x.lookUp slices
  let missing := pending slices answers
  let (fetched, waiting, x) := (x.countMisses missing.length).fetchAll false missing
  ({ slices, answers, fetched, waiting }, x)

/-- Answer a batch of slices. All slices are checked first, and the first that is refused is
reported before anything is done. There is no answer yet when the batch has to wait for a permit.
-/
def getAll (x : Access) (slices : List Slice) : Option (Except CacheError Answers) × Access :=
  match slices.findSome? Slice.fault? with
  | some f => (some (.error (.invalidQuery f.message)), x)
  | none =>
    let (b, x) := x.start slices
    match b.verdict x.cache.settings.shownTimeout with
    | none => (none, x.enqueue b)
    | some r => (some r, (x.enqueue { b with answered := true }).conclude r)

/-- Answer one slice. -/
def get (x : Access) (s : Slice) : Option (Except CacheError (List Anomaly)) × Access :=
  let (answer, x) := x.getAll [s]
  (answer.map fun r => r.map fun answers => (answers.lookup s).getD [], x)

/-! ### Waiting -/

/-- Fetch for batches in turn as long as a permit is free. -/
def serve (x : Access) (isOpen : Bool) : List Batch → List Batch × Access
  | [] => ([], x)
  | b :: rest =>
    let (fetched, waiting, x) := x.fetchAll isOpen b.waiting
    let (rest, x) := x.serve isOpen rest
    ({ b with fetched := b.fetched ++ fetched, waiting } :: rest, x)

/-- Note the answer to a batch that had to wait. -/
def report (x : Access) (slices : List Slice) (r : Except CacheError Answers) : Access :=
  { x with cache.late := x.cache.late ++ [(slices, r)] }

/-- Answer a batch of the queue, once it has come to something. It stays in the queue while fetches
of it wait. -/
def answer (x : Access) (b : Batch) : Access :=
  if b.answered then x.enqueue b
  else match b.verdict x.cache.settings.shownTimeout with
    | none => x.enqueue b
    | some r => ((x.enqueue { b with answered := true }).report b.slices r).conclude r

/-- Fetch for the batches in the queue and answer those that have come to something. -/
def serveQueue (x : Access) (isOpen : Bool) : Access :=
  let (queue, x) := x.serve isOpen x.cache.queue
  queue.foldl answer { x with cache.queue := [] }

/-- Let the hanging call at a place finish: the memory store answers it, and its permit becomes
free. -/
def finish (x : Access) (place : Nat) : Access :=
  match x.cache.hanging[place]? with
  | none => x
  | some s =>
    let (outcome, backend) := x.backend.ask s.predicate
    let freed : Access :=
      { x with
        cache.free := x.cache.free + 1
        cache.hanging := x.cache.hanging.eraseIdx place
        backend }
    (freed.settle s outcome).2

/-- Let one hanging call finish, if there is one at the place; its permit goes to the fetches that
wait. -/
def land (x : Access) (place : Nat) : Access :=
  if place < x.cache.hanging.length then (x.finish place).serveQueue false else x

/-- Let all hanging calls finish, and then, with the gate open, all fetches that waited for their
permits. -/
def release (x : Access) : Access :=
  (x.cache.hanging.foldl (fun x _ => x.finish 0) x).serveQueue true

end Access
end Outlier
