import Outlier.Cache.Session
import Outlier.Proofs.Cache.Frame

/-! # What a request does to one cache and to the store

A request visits one cache, visits all of them in turn (`release`), or makes a new one. Seen from
one cache, each is an operation of that cache on a store that holds the same anomalies, or nothing,
so that whatever the operations of a cache keep holds after every run (`kept_run`). The store grows
by `Request.extend` alone, and its calls go differently only after `Request.setScript`. -/

namespace Outlier

/-- The number that a clean-up returns. -/
def Reply.counted : Reply → Nat
  | .count n => n
  | _ => 0

namespace Session

variable (s : Session)

/-! ### Visits -/

theorem visit_of_some {i : Nat} {c : SliceCache} (hc : s.caches[i]? = some c)
    (act : Access → Reply × Access) :
    s.visit i act =
      ((act ⟨c, s.backend⟩).1,
        { s with
          backend := (act ⟨c, s.backend⟩).2.backend
          caches := s.caches.set i (act ⟨c, s.backend⟩).2.cache }) := by
  simp only [visit, hc]

theorem caches_visit_self {i : Nat} {c : SliceCache} (hc : s.caches[i]? = some c)
    (act : Access → Reply × Access) :
    (s.visit i act).2.caches[i]? = some (act ⟨c, s.backend⟩).2.cache := by
  have hi : i < s.caches.length := (List.getElem?_eq_some_iff.1 hc).1
  rw [visit_of_some s hc]
  simp [hi]

theorem cleanUp_of_some {i : Nat} {c : SliceCache} (hc : s.caches[i]? = some c) :
    s.step (.cleanUp i) =
      (.count (c.cleanUp s.backend.clock).1,
        { s with caches := s.caches.set i (c.cleanUp s.backend.clock).2 }) := by
  simp only [step, cleanUp, visit_of_some s hc]

theorem caches_visit_of_ne {i j : Nat} (hij : j ≠ i) (act : Access → Reply × Access) :
    (s.visit j act).2.caches[i]? = s.caches[i]? := by
  unfold visit
  split
  · rfl
  · simp [hij]

theorem follows_visit (i : Nat) {act : Access → Reply × Access}
    (hact : ∀ x : Access, x.backend.Follows (act x).2.backend) :
    s.backend.Follows (s.visit i act).2.backend := by
  unfold visit
  split
  · exact .refl s.backend
  next c _ => exact hact ⟨c, s.backend⟩

theorem backend_visit (i : Nat) {act : Access → Reply × Access}
    (hact : ∀ x : Access, (act x).2.backend = x.backend) :
    (s.visit i act).2.backend = s.backend := by
  unfold visit
  split
  · rfl
  next c _ => exact hact ⟨c, s.backend⟩

/-! ### Releases -/

theorem follows_releaseAll (caches : List SliceCache) (b : Backend) :
    b.Follows (releaseAll b caches).2 := by
  induction caches generalizing b with
  | nil => exact .refl b
  | cons c rest ih => exact (Access.follows_release ⟨c, b⟩).toBackend.trans (ih _)

theorem releaseAll_append (before after : List SliceCache) (b : Backend) :
    releaseAll b (before ++ after) =
      ((releaseAll b before).1 ++ (releaseAll (releaseAll b before).2 after).1,
        (releaseAll (releaseAll b before).2 after).2) := by
  induction before generalizing b with
  | nil => rfl
  | cons c rest ih => simp only [List.cons_append, releaseAll, ih]

theorem length_releaseAll (caches : List SliceCache) (b : Backend) :
    (releaseAll b caches).1.length = caches.length := by
  induction caches generalizing b with
  | nil => rfl
  | cons c rest ih => exact congrArg (· + 1) (ih _)

/-- The store in a release of all caches, when the first `i` of them have had their turn. -/
def releasedUpTo (i : Nat) : Backend := (releaseAll s.backend (s.caches.take i)).2

theorem follows_releasedUpTo (i : Nat) : s.backend.Follows (s.releasedUpTo i) :=
  follows_releaseAll _ _

/-- In a release of all caches, the turn of each comes after that of the caches before it and before
that of the others. -/
theorem caches_release {i : Nat} {c : SliceCache} (hc : s.caches[i]? = some c) :
    (s.step .release).2.caches[i]? = some (Access.release ⟨c, s.releasedUpTo i⟩).cache ∧
      s.releasedUpTo (i + 1) = (Access.release ⟨c, s.releasedUpTo i⟩).backend ∧
      (s.releasedUpTo (i + 1)).Follows (s.step .release).2.backend := by
  obtain ⟨hi, hget⟩ := List.getElem?_eq_some_iff.1 hc
  have hlen : (releaseAll s.backend (s.caches.take i)).1.length = i := by
    rw [length_releaseAll, List.length_take, Nat.min_eq_left (Nat.le_of_lt hi)]
  have hnext : s.releasedUpTo (i + 1) = (Access.release ⟨c, s.releasedUpTo i⟩).backend := by
    simp only [releasedUpTo, List.take_add_one, hc, Option.toList_some, releaseAll_append]
    rfl
  have hsplit : s.caches.take i ++ c :: s.caches.drop (i + 1) = s.caches := by
    rw [← hget, List.getElem_cons_drop, List.take_append_drop]
  have hall := releaseAll_append (s.caches.take i) (c :: s.caches.drop (i + 1)) s.backend
  rw [hsplit] at hall
  refine ⟨?_, hnext, ?_⟩
  · simp only [step, hall]
    rw [List.getElem?_append_right (Nat.le_of_eq hlen), hlen, Nat.sub_self]
    rfl
  · rw [hnext]
    simp only [step, hall]
    exact follows_releaseAll _ _

/-! ### New caches -/

theorem caches_add {i : Nat} {c : SliceCache} (hc : s.caches[i]? = some c) (p : Provider)
    (mode : Mode) : (s.add p mode).2.caches[i]? = some c := by
  have hi : i < s.caches.length := (List.getElem?_eq_some_iff.1 hc).1
  simp only [add]
  rw [List.getElem?_append_left hi, hc]

theorem caches_getShared {i : Nat} {c : SliceCache} (hc : s.caches[i]? = some c) (p : Provider) :
    (s.getShared p).2.caches[i]? = some c := by
  unfold getShared
  split
  · exact hc
  · exact s.caches_add hc _ _

theorem backend_getShared (p : Provider) : (s.getShared p).2.backend = s.backend := by
  unfold getShared
  split <;> rfl

theorem caches_shared {i : Nat} {c : SliceCache} (hc : s.caches[i]? = some c) :
    (s.step .shared).2.caches[i]? = some c := by
  simp only [step]
  split
  · exact s.caches_getShared hc _
  · exact hc

theorem caches_instanceOf {i : Nat} {c : SliceCache} (hc : s.caches[i]? = some c)
    (enabled : Bool) : (s.step (.instanceOf enabled)).2.caches[i]? = some c := by
  simp only [step]
  split
  · split
    · exact s.caches_getShared hc _
    · exact s.caches_add hc _ _
  · exact hc

theorem caches_isolated {i : Nat} {c : SliceCache} (hc : s.caches[i]? = some c) (mode : Mode) :
    (s.step (.isolated mode)).2.caches[i]? = some c := by
  simp only [step]
  split
  · exact s.caches_add hc _ _
  · exact hc

/-! ### Changes of the store -/

/-- The request has to do with the store: with what it holds, its calls or its clock. -/
def involvesStore : Request → Bool
  | .cleanUp _ | .clear _ | .shared | .instanceOf _ | .isolated _ | .cleanUpShared => false
  | _ => true

theorem backend_step {r : Request} (h : involvesStore r = false) :
    (s.step r).2.backend = s.backend := by
  have hcleanUp (i : Nat) : (s.cleanUp i).2.backend = s.backend :=
    s.backend_visit i fun _ => rfl
  cases r with
  | cleanUp i => exact hcleanUp i
  | clear i => exact s.backend_visit i fun _ => rfl
  | shared =>
    simp only [step]
    split
    · exact s.backend_getShared _
    · rfl
  | instanceOf enabled =>
    simp only [step]
    split
    · split
      · exact s.backend_getShared _
      · rfl
    · rfl
  | isolated mode =>
    simp only [step]
    split <;> rfl
  | cleanUpShared =>
    simp only [step]
    split
    · split
      · exact hcleanUp _
      · rfl
    · rfl
  | _ => cases h

theorem follows_find (p : Predicate) : s.backend.Follows (s.step (.find p)).2.backend :=
  ⟨s.backend.memory.anomalies_find p, rfl, Nat.le_refl _, List.prefix_refl _⟩

/-- Only `extend` and `setScript` change what is stored and how calls go. -/
theorem follows_step {r : Request} (hextend : ∀ l, r ≠ .extend l)
    (hscript : ∀ f, r ≠ .setScript f) : s.backend.Follows (s.step r).2.backend := by
  cases r with
  | get i slice => exact s.follows_visit i fun x => (x.follows_getAll [slice]).toBackend
  | getAll i slices => exact s.follows_visit i fun x => (x.follows_getAll slices).toBackend
  | extend l => exact absurd rfl (hextend l)
  | find p => exact s.follows_find p
  | setScript script => exact absurd rfl (hscript script)
  | land i place => exact s.follows_visit i fun x => (x.follows_land place).toBackend
  | release => exact follows_releaseAll s.caches s.backend
  | sleep millis => exact s.backend.follows_advance millis
  | cleanUp | clear | shared | instanceOf | isolated | cleanUpShared =>
    rw [s.backend_step rfl]
    exact .refl s.backend

/-- Only `extend` changes what is stored. -/
theorem anomalies_step {r : Request} (hr : ∀ l, r ≠ .extend l) :
    (s.step r).2.backend.memory.anomalies = s.backend.memory.anomalies := by
  by_cases hscript : ∃ f, r = .setScript f
  · obtain ⟨f, rfl⟩ := hscript
    rfl
  · exact (s.follows_step hr fun f h => hscript ⟨f, h⟩).anomalies

theorem script_step {r : Request} (hr : ∀ f, r ≠ .setScript f) :
    (s.step r).2.backend.script = s.backend.script := by
  by_cases hextend : ∃ l, r = .extend l
  · obtain ⟨l, rfl⟩ := hextend
    rfl
  · exact (s.follows_step (fun l h => hextend ⟨l, h⟩) hr).script

/-- The store never loses or changes an anomaly. -/
theorem prefix_step (r : Request) :
    s.backend.memory.anomalies <+: (s.step r).2.backend.memory.anomalies := by
  by_cases hr : ∃ l, r = .extend l
  · obtain ⟨l, rfl⟩ := hr
    exact List.prefix_append ..
  · have h := s.anomalies_step fun l h => hr ⟨l, h⟩
    exact ⟨[], by rw [List.append_nil, h]⟩

theorem run_append (before after : List Request) :
    s.run (before ++ after) = (s.run before).run after :=
  List.foldl_append ..

theorem prefix_run (requests : List Request) :
    s.backend.memory.anomalies <+: (s.run requests).backend.memory.anomalies := by
  induction requests generalizing s with
  | nil => exact List.prefix_refl _
  | cons r rest ih => exact (s.prefix_step r).trans (ih _)

theorem clock_le_step (r : Request) : s.backend.clock ≤ (s.step r).2.backend.clock := by
  by_cases hextend : ∃ l, r = .extend l
  · obtain ⟨l, rfl⟩ := hextend
    exact Nat.le_refl _
  · by_cases hscript : ∃ f, r = .setScript f
    · obtain ⟨f, rfl⟩ := hscript
      exact Nat.le_refl _
    · exact (s.follows_step (fun l h => hextend ⟨l, h⟩) fun f h => hscript ⟨f, h⟩).clock

/-! ### The part of one cache in a request -/

/-- The slices for which a request asks cache `i`, if it does. -/
def slicesOf? (i : Nat) : Request → Option (List Slice)
  | .get j slice => if j = i then some [slice] else none
  | .getAll j slices => if j = i then some slices else none
  | _ => none

@[simp] theorem slicesOf?_get (i : Nat) (slice : Slice) :
    slicesOf? i (.get i slice) = some [slice] := if_pos rfl

@[simp] theorem slicesOf?_getAll (i : Nat) (slices : List Slice) :
    slicesOf? i (.getAll i slices) = some slices := if_pos rfl

/-- Of the calls of cache `i` that hang, those that the request does not bring to their ends. -/
def stillHanging (i : Nat) (r : Request) (hanging : List Slice) : List Slice :=
  match r with
  | .land j place => if j = i then hanging.eraseIdx place else hanging
  | .release => []
  | _ => hanging

/-- The request neither asks cache `i` for anything nor brings calls of it to their ends. -/
structure Spares (i : Nat) (r : Request) : Prop where
  slices : slicesOf? i r = none
  hanging : ∀ hanging, stillHanging i r hanging = hanging

/-- What a clean-up of cache `i` returns, or how many entries a request to clear it finds. -/
def dropped (i : Nat) (s : Session) (r : Request) : Nat :=
  match r with
  | .cleanUp j => if j = i then (s.step r).1.counted else 0
  | .cleanUpShared =>
    if s.provider.bind (·.shared) = some i then (s.step r).1.counted else 0
  | .clear j => if j = i then s.caches[i]?.elim 0 SliceCache.size else 0
  | _ => 0

/-- What a request does with cache `i` on the store that is there when it is the turn of this cache.
-/
inductive Does (i : Nat) : Request → Access → Access → Prop where
  /-- The request has nothing to do with the cache. -/
  | rest {r : Request} {x : Access} (h : Spares i r) (hdropped : dropped i s r = 0) : Does i r x x
  | asked {r : Request} {slices : List Slice} (h : slicesOf? i r = some slices) (x : Access) :
      Does i r x (x.getAll slices).2
  | cleaned {r : Request} {x : Access} (h : Spares i r)
      (hdropped : dropped i s r = (x.cache.cleanUp x.backend.clock).1) :
      Does i r x { x with cache := (x.cache.cleanUp x.backend.clock).2 }
  | cleared {x : Access} (hdropped : dropped i s (.clear i) = x.cache.size) :
      Does i (.clear i) x { x with cache := x.cache.clear }
  | landed (place : Nat) (x : Access) : Does i (.land i place) x (x.land place)
  | released (x : Access) : Does i .release x x.release

theorem Does.follows {i : Nat} {r : Request} {x y : Access} (h : Does s i r x y) :
    x.backend.Follows y.backend := by
  cases h with
  | rest => exact .refl _
  | asked => exact (x.follows_getAll _).toBackend
  | cleaned => exact .refl _
  | cleared => exact .refl _
  | landed place => exact (x.follows_land place).toBackend
  | released => exact x.follows_release.toBackend

/-- The predicates of the calls that cache `i` makes in a request. -/
def asks (i : Nat) (r : Request) : List Predicate :=
  match r with
  | .get j _ | .getAll j _ | .land j _ =>
    if j = i then (s.step r).2.backend.asked.drop s.backend.asked.length else []
  | .release => (s.releasedUpTo (i + 1)).asked.drop (s.releasedUpTo i).asked.length
  | _ => []

/-- In the request, cache `i` goes from `x` to `y`. -/
structure Turn (i : Nat) (r : Request) (x y : Access) : Prop where
  does : Does s i r x y
  /-- Only calls of other caches come before it, and those only in a release. -/
  before : s.backend.Follows x.backend
  direct : r ≠ .release → x.backend = s.backend
  after : (s.step r).2.caches[i]? = some y.cache
  clock : y.backend.clock ≤ (s.step r).2.backend.clock
  asked : y.backend.asked = x.backend.asked ++ s.asks i r

theorem asked_ne_of_asks {i : Nat} {r : Request} (h : s.asks i r ≠ [])
    (hr : r ≠ .release) : (s.step r).2.backend.asked ≠ s.backend.asked := by
  intro heq
  apply h
  unfold asks
  split
  case h_4 => exact absurd rfl hr
  case h_5 => rfl
  all_goals
    split
    · rw [heq, List.drop_length]
    · rfl

theorem cleanUpShared_cases : s.provider.bind (·.shared) = none ∧
      (s.step .cleanUpShared).2 = s ∨
    ∃ j, s.provider.bind (·.shared) = some j ∧ s.step .cleanUpShared = s.cleanUp j := by
  cases hp : s.provider with
  | none => exact .inl ⟨rfl, by simp only [step, hp]⟩
  | some p =>
    cases hshared : p.shared with
    | none => exact .inl ⟨hshared, by simp only [step, hp, hshared]⟩
    | some j => exact .inr ⟨j, hshared, by simp only [step, hp, hshared]⟩

section

variable {s} {i : Nat} {r : Request} {c : SliceCache}

theorem turn_of_rest (hafter : (s.step r).2.caches[i]? = some c) (hspares : Spares i r)
    (hdropped : dropped i s r = 0) (hasks : s.asks i r = []) :
    s.Turn i r ⟨c, s.backend⟩ ⟨c, s.backend⟩ where
  does := .rest hspares hdropped
  before := .refl s.backend
  direct _ := rfl
  after := hafter
  clock := s.clock_le_step r
  asked := by rw [hasks, List.append_nil]

theorem turn_of_visit (hc : s.caches[i]? = some c) {act : Access → Reply × Access}
    (hr : s.step r = s.visit i act) (hdoes : Does s i r ⟨c, s.backend⟩ (act ⟨c, s.backend⟩).2)
    (hasks : s.asks i r = (s.visit i act).2.backend.asked.drop s.backend.asked.length) :
    s.Turn i r ⟨c, s.backend⟩ (act ⟨c, s.backend⟩).2 := by
  have hbackend : (s.visit i act).2.backend = (act ⟨c, s.backend⟩).2.backend := by
    rw [visit_of_some s hc]
  constructor
  case does => exact hdoes
  case before => exact .refl s.backend
  case direct => exact fun _ => rfl
  case after => rw [hr, s.caches_visit_self hc act]
  case clock => exact Nat.le_of_eq (by rw [hr, hbackend])
  case asked =>
    rw [hasks, hbackend]
    exact hdoes.follows.asked_eq

theorem exists_turn_of_cleanUp (hc : s.caches[i]? = some c) {j : Nat}
    (hr : s.step r = s.cleanUp j) (hspares : Spares i r)
    (hdropped : dropped i s r = if j = i then (s.step r).1.counted else 0)
    (hasks : s.asks i r = []) : ∃ b y, s.Turn i r ⟨c, b⟩ y := by
  by_cases hj : j = i
  · subst hj
    have hcount : dropped j s r = (c.cleanUp s.backend.clock).1 := by
      rw [hdropped, if_pos rfl, hr]
      exact congrArg (·.1.counted) (s.cleanUp_of_some hc)
    refine ⟨_, _, turn_of_visit hc hr (.cleaned hspares hcount) ?_⟩
    rw [hasks, s.backend_visit j fun _ => rfl, List.drop_length]
  · have hafter : (s.step r).2.caches[i]? = some c := by
      rw [hr]
      exact (s.caches_visit_of_ne hj _).trans hc
    exact ⟨_, _, turn_of_rest hafter hspares (hdropped.trans (if_neg hj)) hasks⟩

end

/-- Seen from one cache, a request is an operation on a store that only calls may have changed. -/
theorem exists_turn {i : Nat} {c : SliceCache} (hc : s.caches[i]? = some c) (r : Request) :
    ∃ b y, s.Turn i r ⟨c, b⟩ y := by
  have hother {j : Nat} (hj : j ≠ i) {act : Access → Reply × Access} :
      (s.visit j act).2.caches[i]? = some c := (s.caches_visit_of_ne hj act).trans hc
  cases r with
  | get j slice =>
    by_cases hj : j = i
    · subst hj
      exact ⟨_, _, turn_of_visit hc rfl (.asked (slicesOf?_get j slice) _) (if_pos rfl)⟩
    · exact ⟨_, _, turn_of_rest (hother hj) ⟨if_neg hj, fun _ => rfl⟩ rfl (if_neg hj)⟩
  | getAll j slices =>
    by_cases hj : j = i
    · subst hj
      exact ⟨_, _, turn_of_visit hc rfl (.asked (slicesOf?_getAll j slices) _) (if_pos rfl)⟩
    · exact ⟨_, _, turn_of_rest (hother hj) ⟨if_neg hj, fun _ => rfl⟩ rfl (if_neg hj)⟩
  | cleanUp j => exact exists_turn_of_cleanUp hc rfl ⟨rfl, fun _ => rfl⟩ rfl rfl
  | clear j =>
    by_cases hj : j = i
    · subst hj
      have hdropped : dropped j s (.clear j) = c.size := by
        simp only [dropped, if_pos, hc, Option.elim]
      have hasked : (s.step (.clear j)).2.backend.asked.drop s.backend.asked.length = [] := by
        rw [s.backend_step rfl, List.drop_length]
      have hcleared : Does s j (.clear j) ⟨c, s.backend⟩ ⟨c.clear, s.backend⟩ := .cleared hdropped
      exact ⟨_, _, turn_of_visit hc rfl hcleared hasked.symm⟩
    · exact ⟨_, _, turn_of_rest (hother hj) ⟨rfl, fun _ => rfl⟩ (if_neg hj) rfl⟩
  | land j place =>
    by_cases hj : j = i
    · subst hj
      exact ⟨_, _, turn_of_visit hc rfl (.landed place _) (if_pos rfl)⟩
    · exact ⟨_, _, turn_of_rest (hother hj) ⟨rfl, fun _ => if_neg hj⟩ rfl (if_neg hj)⟩
  | release =>
    obtain ⟨hcache, hturn, hafter⟩ := s.caches_release hc
    have hreleased := (Access.follows_release ⟨c, s.releasedUpTo i⟩).toBackend
    refine ⟨_, _, .released _, s.follows_releasedUpTo i, fun hne => absurd rfl hne, hcache,
      hturn ▸ hafter.clock, ?_⟩
    rw [asks, hturn]
    exact hreleased.asked_eq
  | cleanUpShared =>
    rcases s.cleanUpShared_cases with ⟨hnone, hsame⟩ | ⟨j, hj, hstep⟩
    · have hdropped : dropped i s .cleanUpShared = 0 := if_neg (by rw [hnone]; exact nofun)
      exact ⟨_, _, turn_of_rest (hsame.symm ▸ hc) ⟨rfl, fun _ => rfl⟩ hdropped rfl⟩
    · refine exists_turn_of_cleanUp hc hstep ⟨rfl, fun _ => rfl⟩ ?_ rfl
      simp only [dropped, hj, Option.some.injEq]
  | shared => exact ⟨_, _, turn_of_rest (s.caches_shared hc) ⟨rfl, fun _ => rfl⟩ rfl rfl⟩
  | instanceOf enabled =>
    exact ⟨_, _, turn_of_rest (s.caches_instanceOf hc enabled) ⟨rfl, fun _ => rfl⟩ rfl rfl⟩
  | isolated mode =>
    exact ⟨_, _, turn_of_rest (s.caches_isolated hc mode) ⟨rfl, fun _ => rfl⟩ rfl rfl⟩
  | extend | find | setScript | sleep =>
    exact ⟨_, _, turn_of_rest hc ⟨rfl, fun _ => rfl⟩ rfl rfl⟩

/-- A request for slices is answered as the batch of them is. -/
theorem reply_of_slicesOf? {i : Nat} {r : Request} {c : SliceCache} (hc : s.caches[i]? = some c)
    {slices : List Slice} (hr : slicesOf? i r = some slices) :
    match (Access.getAll ⟨c, s.backend⟩ slices).1 with
    | none => (s.step r).1 = .waiting
    | some (.error e) => (s.step r).1 = .anomalies (.error e) ∨ (s.step r).1 = .batch (.error e)
    | some (.ok answers) =>
      (∃ rows, (s.step r).1 = .anomalies (.ok rows)) ∨ (s.step r).1 = .batch (.ok answers) := by
  cases r with
  | get j slice =>
    obtain ⟨rfl, hslice⟩ := Option.ite_none_right_eq_some.1 hr
    obtain rfl := Option.some.inj hslice
    simp only [step, visit_of_some s hc, Access.get]
    rcases (Access.getAll ⟨c, s.backend⟩ [slice]).1 with _ | _ | _
    · rfl
    · exact .inl rfl
    · exact .inl ⟨_, rfl⟩
  | getAll j slices' =>
    obtain ⟨rfl, hslices⟩ := Option.ite_none_right_eq_some.1 hr
    obtain rfl := Option.some.inj hslices
    simp only [step, visit_of_some s hc]
    rcases (Access.getAll ⟨c, s.backend⟩ slices').1 with _ | _ | _
    · rfl
    · exact .inr rfl
    · exact .inr rfl
  | _ => cases hr

/-! ### What operations keep, requests keep -/

/-- Every operation of a cache keeps the property `Q`, over a store of which `B` holds. -/
structure Kept (B : Backend → Prop) (Q : SliceCache → Prop) : Prop where
  getAll : ∀ x : Access, B x.backend → Q x.cache → ∀ slices, Q (x.getAll slices).2.cache
  cleanUp : ∀ c, Q c → ∀ now, Q (c.cleanUp now).2
  clear : ∀ c, Q c → Q c.clear
  land : ∀ x : Access, B x.backend → Q x.cache → ∀ place, Q (x.land place).cache
  release : ∀ x : Access, B x.backend → Q x.cache → Q x.release.cache

section

variable {s} {B : Backend → Prop} {Q : SliceCache → Prop} {i : Nat} {c : SliceCache}

theorem kept_step (hk : Kept B Q) (hB : ∀ b b', b.Follows b' → B b → B b')
    (hc : s.caches[i]? = some c) (hs : B s.backend) (hQ : Q c) (r : Request) :
    ∃ c', (s.step r).2.caches[i]? = some c' ∧ Q c' := by
  obtain ⟨b, y, hturn⟩ := s.exists_turn hc r
  have hs' : B b := hB s.backend b hturn.before hs
  refine ⟨y.cache, hturn.after, ?_⟩
  cases hturn.does with
  | rest => exact hQ
  | @asked _ slices => exact hk.getAll ⟨c, b⟩ hs' hQ slices
  | cleaned => exact hk.cleanUp c hQ b.clock
  | cleared => exact hk.clear c hQ
  | landed place => exact hk.land ⟨c, b⟩ hs' hQ place
  | released => exact hk.release ⟨c, b⟩ hs' hQ

/-- What operations keep holds after a run, if the store stays as `B` says. -/
theorem kept_run (hk : Kept B Q) (hB : ∀ b b', b.Follows b' → B b → B b')
    {requests : List Request}
    (hstep : ∀ (s : Session), ∀ r ∈ requests, B s.backend → B (s.step r).2.backend)
    (hc : s.caches[i]? = some c) (hs : B s.backend) (hQ : Q c) :
    B (s.run requests).backend ∧ ∃ c', (s.run requests).caches[i]? = some c' ∧ Q c' := by
  induction requests generalizing s c with
  | nil => exact ⟨hs, c, hc, hQ⟩
  | cons r rest ih =>
    obtain ⟨c', hc', hQ'⟩ := kept_step hk hB hc hs hQ r
    refine ih (fun s r' hr' => hstep s r' (List.mem_cons_of_mem _ hr')) hc' ?_ hQ'
    exact hstep s r List.mem_cons_self hs

end

theorem Kept.mono {B B' : Backend → Prop} {Q : SliceCache → Prop} (h : Kept B Q)
    (hB : ∀ b, B' b → B b) : Kept B' Q where
  getAll x hx := h.getAll x (hB _ hx)
  cleanUp := h.cleanUp
  clear := h.clear
  land x hx := h.land x (hB _ hx)
  release x hx := h.release x (hB _ hx)

theorem Kept.and {B : Backend → Prop} {Q R : SliceCache → Prop} (hQ : Kept B Q) (hR : Kept B R) :
    Kept B fun c => Q c ∧ R c where
  getAll x hB h slices := ⟨hQ.getAll x hB h.1 slices, hR.getAll x hB h.2 slices⟩
  cleanUp c h now := ⟨hQ.cleanUp c h.1 now, hR.cleanUp c h.2 now⟩
  clear c h := ⟨hQ.clear c h.1, hR.clear c h.2⟩
  land x hB h place := ⟨hQ.land x hB h.1 place, hR.land x hB h.2 place⟩
  release x hB h := ⟨hQ.release x hB h.1, hR.release x hB h.2⟩

/-- The cache has the settings and the mode, the capacity that the settings ask for, and one entry
at most for each slice. -/
structure Made (settings : Settings) (mode : Mode) (c : SliceCache) : Prop where
  capacity : c.entries.capacity = settings.capacity
  nodup : (c.entries.entries.map Prod.fst).Nodup
  settings : c.settings = settings
  mode : c.mode = mode

theorem made_new (settings : Settings) (mode : Mode) :
    Made settings mode (SliceCache.new settings mode) := ⟨rfl, .nil, rfl, rfl⟩

theorem Made.follows {settings : Settings} {mode : Mode} {x y : Access}
    (h : Made settings mode x.cache) (hf : x.Follows y) : Made settings mode y.cache :=
  ⟨hf.recency.capacity.trans h.capacity, hf.recency.nodup h.nodup, hf.settings.trans h.settings,
    hf.mode.trans h.mode⟩

theorem kept_made (settings : Settings) (mode : Mode) :
    Kept (fun _ => True) (Made settings mode) where
  getAll x _ h slices := h.follows (x.follows_getAll slices)
  cleanUp c h now := by
    obtain ⟨l, hl, heq⟩ := c.exists_cleanUp now
    rw [heq]
    exact ⟨h.capacity, (c.entries.follows_sublist hl).nodup h.nodup, h.settings, h.mode⟩
  clear _ h := ⟨h.capacity, .nil, h.settings, h.mode⟩
  land x _ h place := h.follows (x.follows_land place)
  release x _ h := h.follows x.follows_release

end Session
end Outlier
