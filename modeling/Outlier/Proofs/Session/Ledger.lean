import Outlier.Proofs.Cache.Ledger
import Outlier.Proofs.Session.Evolution

/-! # Permits and fetches over a whole run

Over a run, each slice that a cache counts as a miss is sent to the store once or still waits for a
permit, and the permits are free or taken by calls that hang (`Session.ledger_run`). What one
request adds to that is in `Session.Books`. -/

namespace Outlier.Session

variable {s : Session} {i : Nat} {r : Request} {c c' : SliceCache} {requests : List Request}

/-! ### One request -/

/-- The request lets all calls through from now on to its end. -/
def opensGate : Request → Bool
  | .release => true
  | _ => false

/-- The slices that cache `i` counts as misses in a request. -/
def missed (s : Session) (i : Nat) (r : Request) : List Slice :=
  match slicesOf? i r with
  | none => []
  | some slices =>
    match s.caches[i]? with
    | none => []
    | some c => Access.missed ⟨c, s.backend⟩ slices

theorem missed_of_none (h : slicesOf? i r = none) : s.missed i r = [] := by
  rw [missed, h]

theorem missed_of_some (hc : s.caches[i]? = some c) {slices : List Slice}
    (h : slicesOf? i r = some slices) : s.missed i r = Access.missed ⟨c, s.backend⟩ slices := by
  simp only [missed, h, hc]

theorem of_slicesOf? {slices : List Slice} (h : slicesOf? i r = some slices) :
    opensGate r = false ∧ r ≠ .release ∧ ∀ hanging, stillHanging i r hanging = hanging := by
  cases r with
  | get | getAll => exact ⟨rfl, nofun, fun _ => rfl⟩
  | _ => cases h

/-- What a request that turns cache `i` from `c` into `c'` adds to the accounts: the store is called
for the slices `sent`. -/
structure Books (s : Session) (i : Nat) (r : Request) (sent : List Slice) (c c' : SliceCache) :
    Prop where
  after : (s.step r).2.caches[i]? = some c'
  asked : s.asks i r = sent.map Slice.predicate
  /-- A call that hangs does so until it is brought to its end, and of the new calls only those that
  hang go on. -/
  hanging : c'.hanging = stillHanging i r c.hanging ++ s.backend.hung (opensGate r) sent
  /-- What has to be fetched is sent to the store or waits. -/
  waiting : (sent ++ c'.waiting).Perm (c.waiting ++ s.missed i r)
  misses : c'.stats.misses = c.stats.misses + (s.missed i r).length
  /-- Without a free permit, a batch calls for nothing. -/
  full : c.free = 0 → ∀ slices, slicesOf? i r = some slices → sent = []

theorem Turn.accounted {b : Backend} {y : Access} (h : s.Turn i r ⟨c, b⟩ y)
    (hc : s.caches[i]? = some c) :
    ∃ sent, Access.Accounted (opensGate r) (stillHanging i r c.hanging) sent (s.missed i r)
      ⟨c, b⟩ y := by
  cases h.does with
  | rest hspares =>
    rw [hspares.hanging, missed_of_none hspares.slices]
    exact ⟨[], .idle (x := ⟨c, b⟩) _ rfl rfl rfl rfl⟩
  | @asked _ slices hslices =>
    obtain ⟨hgate, hr, hleft⟩ := of_slicesOf? hslices
    obtain rfl : b = s.backend := h.direct hr
    rw [hgate, hleft, missed_of_some hc hslices]
    exact Access.accounted_getAll ⟨c, s.backend⟩ slices
  | cleaned hspares =>
    rw [hspares.hanging, missed_of_none hspares.slices]
    exact ⟨[], .idle (x := ⟨c, b⟩) _ rfl rfl rfl rfl⟩
  | cleared => exact ⟨[], .idle (x := ⟨c, b⟩) _ rfl rfl rfl rfl⟩
  | landed place =>
    have hleft : stillHanging i (.land i place) c.hanging = c.hanging.eraseIdx place := if_pos rfl
    rw [hleft]
    exact Access.accounted_land ⟨c, b⟩ place
  | released => exact Access.accounted_release ⟨c, b⟩

theorem exists_books (hc : s.caches[i]? = some c) (r : Request) :
    ∃ c' sent, s.Books i r sent c c' := by
  obtain ⟨b, y, hturn⟩ := s.exists_turn hc r
  obtain ⟨sent, h⟩ := hturn.accounted hc
  have hasked : s.asks i r = sent.map Slice.predicate :=
    List.append_cancel_left (hturn.asked.symm.trans h.asked)
  refine ⟨y.cache, sent, hturn.after, hasked, ?_, h.waiting, h.misses, ?_⟩
  · have hhung : b.hung (opensGate r) sent = s.backend.hung (opensGate r) sent := by
      cases r with
      | release => rfl
      | _ =>
        have hb : b = s.backend := hturn.direct nofun
        rw [hb]
    exact hhung ▸ h.hanging
  · intro hfree slices hslices
    cases hturn.does with
    | asked hslices =>
      have hsame := h.asked.symm.trans (Access.asked_getAll_of_full (x := ⟨c, b⟩) hfree _)
      simpa using hsame
    | rest hspares => simp [hspares.slices] at hslices
    | cleaned hspares => simp [hspares.slices] at hslices
    | cleared => cases hslices
    | landed => cases hslices
    | released => cases hslices

/-! ### Runs -/

/-- The predicates of the calls that cache `i` makes in a run. -/
def asksOver (i : Nat) : Session → List Request → List Predicate
  | _, [] => []
  | s, r :: rest => s.asks i r ++ asksOver i (s.step r).2 rest

/-- The slices that cache `i` counts as misses in a run. -/
def missedOver (i : Nat) : Session → List Request → List Slice
  | _, [] => []
  | s, r :: rest => s.missed i r ++ missedOver i (s.step r).2 rest

/-- What waits at the end of a run and what was sent in it is what waited before and what was
missed. -/
theorem books_run (hc : s.caches[i]? = some c) (requests : List Request) :
    ∃ c' sent, (s.run requests).caches[i]? = some c' ∧
      asksOver i s requests = sent.map Slice.predicate ∧
      (sent ++ c'.waiting).Perm (c.waiting ++ missedOver i s requests) ∧
      c'.stats.misses = c.stats.misses + (missedOver i s requests).length := by
  induction requests generalizing s c with
  | nil => exact ⟨c, [], hc, rfl, by simp [missedOver], rfl⟩
  | cons r rest ih =>
    obtain ⟨d, sent, hbooks⟩ := exists_books hc r
    obtain ⟨c', sent', hc', hasked, hwaiting, hmisses⟩ := ih hbooks.after
    refine ⟨c', sent ++ sent', hc', ?_, ?_, ?_⟩
    · rw [asksOver, hbooks.asked, hasked, List.map_append]
    · calc
        List.Perm (sent ++ sent' ++ c'.waiting)
            (sent ++ (d.waiting ++ missedOver i (s.step r).2 rest)) := by
          rw [List.append_assoc]
          exact hwaiting.append_left sent
        List.Perm _ (c.waiting ++ s.missed i r ++ missedOver i (s.step r).2 rest) := by
          rw [← List.append_assoc]
          exact hbooks.waiting.append_right _
        List.Perm _ (c.waiting ++ missedOver i s (r :: rest)) := by
          rw [List.append_assoc]
          exact .refl _
    · rw [hmisses, hbooks.misses, missedOver, List.length_append, Nat.add_assoc]

/-! ### A cache on its own -/

/-- No other cache calls the store. -/
structure Alone (s : Session) : Prop where
  caches : s.caches.length = 1
  provider : s.provider = none

theorem alone_visit (h : s.Alone) (j : Nat) (act : Access → Reply × Access) :
    (s.visit j act).2.Alone := by
  unfold visit
  split
  · exact h
  · exact ⟨by simpa using h.caches, h.provider⟩

theorem alone_step (h : s.Alone) (r : Request) : (s.step r).2.Alone := by
  cases r with
  | get j slice => exact alone_visit h j _
  | getAll j slices => exact alone_visit h j _
  | cleanUp j => exact alone_visit h j _
  | clear j => exact alone_visit h j _
  | extend l => exact ⟨h.caches, h.provider⟩
  | find p => exact ⟨h.caches, h.provider⟩
  | setScript script => exact ⟨h.caches, h.provider⟩
  | land j place => exact alone_visit h j _
  | release => exact ⟨(length_releaseAll _ _).trans h.caches, h.provider⟩
  | sleep millis => exact ⟨h.caches, h.provider⟩
  | shared | instanceOf | isolated | cleanUpShared =>
    simp only [step, h.provider]
    exact h

theorem visit_of_alone (h : s.Alone) {j : Nat} (hj : j ≠ 0) (act : Access → Reply × Access) :
    (s.visit j act).2 = s := by
  have hnone : s.caches[j]? = none := by
    rw [List.getElem?_eq_none_iff, h.caches]
    omega
  simp only [visit, hnone]

theorem asked_step_of_alone (h : s.Alone) (r : Request) :
    (s.step r).2.backend.asked = s.backend.asked ++ s.asks 0 r := by
  have hvisit {j : Nat} {act : Access → Reply × Access}
      (hact : ∀ x : Access, x.backend.Follows (act x).2.backend) :
      (s.visit j act).2.backend.asked = s.backend.asked ++
        if j = 0 then (s.visit j act).2.backend.asked.drop s.backend.asked.length else [] := by
    by_cases hj : j = 0
    · rw [if_pos hj]
      exact (s.follows_visit j hact).asked_eq
    · rw [if_neg hj, visit_of_alone h hj, List.append_nil]
  cases r with
  | get j slice => exact hvisit fun x => (x.follows_getAll [slice]).toBackend
  | getAll j slices => exact hvisit fun x => (x.follows_getAll slices).toBackend
  | land j place => exact hvisit fun x => (x.follows_land place).toBackend
  | release =>
    have hall : s.releasedUpTo 1 = (releaseAll s.backend s.caches).2 := by
      rw [releasedUpTo, List.take_of_length_le (Nat.le_of_eq h.caches)]
    show (releaseAll s.backend s.caches).2.asked =
      s.backend.asked ++ (s.releasedUpTo 1).asked.drop s.backend.asked.length
    rw [hall]
    exact (follows_releaseAll _ _).asked_eq
  | cleanUp | clear | shared | instanceOf | isolated | cleanUpShared =>
    rw [s.backend_step rfl]
    exact (List.append_nil _).symm
  | _ => exact (List.append_nil _).symm

theorem asked_run_of_alone (h : s.Alone) (requests : List Request) :
    (s.run requests).backend.asked = s.backend.asked ++ asksOver 0 s requests := by
  induction requests generalizing s with
  | nil => exact (List.append_nil _).symm
  | cons r rest ih =>
    have hrest := ih (alone_step h r)
    rw [asked_step_of_alone h, List.append_assoc] at hrest
    exact hrest

/-! ### Whole runs -/

/-- The permits of cache `i` after the requests, and the slices `sent` for which it called the store
in them. -/
structure Ledger (s : Session) (i : Nat) (requests : List Request) (sent : List Slice)
    (c : SliceCache) : Prop where
  cache : (s.run requests).caches[i]? = some c
  /-- By whatever changes the cache goes on from here, each permit is free or taken by a call that
  hangs. -/
  permits : ∀ m, SliceCache.Evolves ((s.run requests).backend.clock, c) m →
    m.2.free + m.2.hanging.length = max 1 c.settings.fetchConcurrency
  /-- Fetches wait only while calls that hang have all permits. -/
  queued : c.queue ≠ [] → c.hanging.length = max 1 c.settings.fetchConcurrency
  asked : asksOver i s requests = sent.map Slice.predicate
  /-- Each slice that was missed was sent to the store once or waits. -/
  waiting : (sent ++ c.waiting).Perm (missedOver i s requests)
  misses : c.stats.misses = (missedOver i s requests).length
  /-- Without hanging calls nothing waits, and the store was called once for each miss. -/
  drained : c.hanging = [] →
    c.queue = [] ∧ sent.Perm (missedOver i s requests) ∧ sent.length = c.stats.misses
  /-- A cache on its own makes all calls. -/
  alone : s.Alone → (s.run requests).backend.asked = s.backend.asked ++ sent.map Slice.predicate
  /-- A request goes on with these accounts. -/
  next : ∀ r, ∃ c' more, (s.run requests).Books i r more c c'
  /-- A release ends all calls and fetches. -/
  release : ∃ c', ((s.run requests).step .release).2.caches[i]? = some c' ∧
    c'.hanging = [] ∧ c'.queue = []

/-- **Permits and fetches.** After any requests since a cache was made, the permits are free or
taken by the calls that hang, and each slice that was counted as a miss was sent to the store once
or waits for one of these calls to end. -/
theorem ledger_run (s : Session) (i : Nat) (settings : Settings) (mode : Mode)
    (h : s.caches[i]? = some (SliceCache.new settings mode)) (requests : List Request) :
    ∃ c sent, c.settings = settings ∧ s.Ledger i requests sent c := by
  obtain ⟨c, hc, hsound⟩ := sound_run h requests
  obtain ⟨d, sent, hd, hasked, hwaiting, hmisses⟩ := books_run h requests
  obtain rfl : c = d := Option.some.inj (hc.symm.trans hd)
  obtain ⟨-, d, hd, hpermitted⟩ := kept_run kept_permitted (fun _ _ _ _ => trivial)
    (fun _ _ _ _ => trivial) h trivial (SliceCache.permitted_new settings mode)
  obtain rfl : c = d := Option.some.inj (hc.symm.trans hd)
  have hmisses : c.stats.misses = (missedOver i s requests).length :=
    hmisses.trans (Nat.zero_add _)
  have hwaiting : (sent ++ c.waiting).Perm (missedOver i s requests) := hwaiting
  have hsettings : c.settings = settings := hsound.settings
  refine ⟨c, sent, hsettings, ?_⟩
  constructor
  case cache => exact hc
  case permits =>
    intro m hm
    rw [hsettings]
    exact (hm.sound hsound).held
  case queued =>
    intro hq
    have hheld := hpermitted.held
    rw [SliceCache.held, hpermitted.waiting hq, Nat.zero_add] at hheld
    exact hheld
  case asked => exact hasked
  case waiting => exact hwaiting
  case misses => exact hmisses
  case drained =>
    intro hh
    have hqueue := (hpermitted.of_hanging_eq_nil hh).2
    have hnone : c.waiting = [] := by rw [SliceCache.waiting, hqueue, List.flatMap_nil]
    rw [hnone, List.append_nil] at hwaiting
    exact ⟨hqueue, hwaiting, hwaiting.length_eq.trans hmisses.symm⟩
  case alone =>
    intro halone
    have hi : i = 0 := by
      have hlt := (List.getElem?_eq_some_iff.1 h).1
      rw [halone.caches] at hlt
      omega
    rw [← hasked, hi]
    exact asked_run_of_alone halone requests
  case next => exact exists_books hc
  case release =>
    obtain ⟨c', more, hbooks⟩ := exists_books hc .release
    obtain ⟨e, he, hafter⟩ :=
      kept_step kept_permitted (fun _ _ _ _ => trivial) hc trivial hpermitted .release
    obtain rfl : c' = e := Option.some.inj (hbooks.after.symm.trans he)
    have hnone : c'.hanging = [] := hbooks.hanging
    exact ⟨c', hbooks.after, hnone, (hafter.of_hanging_eq_nil hnone).2⟩

/-- Two permits; the first two calls hang, and the fourth fails. -/
def hangingTwo : Session where
  backend := {
    memory := { anomalies := [.stored 1 1 0 100, .stored 2 2 0 100] }
    script := fun n _ => if n < 2 then .hang else if n = 3 then .fail (.other "down") else .obey }
  caches := [.new ⟨9, 60000, 50, 2⟩ .enabled]

/-- A batch of three fails while two of its calls hang and the third fetch waits; one more batch has
to wait behind it. One call lands, then all are released: the store was called once for each of the
four misses. -/
theorem ledger_hangingTwo :
    let requests : List Request :=
      [.getAll 0 [{ detector := some 1 }, { detector := some 2 }, { detector := some 3 }],
        .get 0 { detector := some 4 }, .land 0 1, .release]
    hangingTwo.caches[0]? = some (SliceCache.new ⟨9, 60000, 50, 2⟩ .enabled) ∧
      (∃ c sent, c.settings = ⟨9, 60000, 50, 2⟩ ∧ hangingTwo.Ledger 0 requests sent c) ∧
      (hangingTwo.run requests).caches.map
        (fun c => (c.hanging, c.free, c.stats.misses, c.stats.failedBatches)) = [([], 2, 4, 2)] ∧
      (hangingTwo.run requests).backend.asked.length = 4 :=
  ⟨rfl, ledger_run hangingTwo 0 ⟨9, 60000, 50, 2⟩ .enabled rfl _, rfl, rfl⟩

end Outlier.Session
