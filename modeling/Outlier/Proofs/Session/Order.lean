import Outlier.Proofs.Cache.Expiry
import Outlier.Proofs.Cache.Origin
import Outlier.Proofs.Session.Evolution
import Outlier.Proofs.Session.Snapshot

/-! # Entries by age after a run

After any run, and at every moment of the requests that follow, the entries of a cache stand in the
order of their last uses (`SliceCache.ByAge`), so that expired ones come last and go first. No
answer comes from an expired entry. Slices that a fresh entry covers are answered from such an entry
when they come, the others from what the store has at a call from then on, whether the answer is
given at once or after waiting. Without the expired entries, a batch gets the same answer, makes the
same calls and waits in the same way, and the answers after waiting do not depend on the entries
(`Session.byAge_run`). -/

namespace Outlier

/-- The entries of a cache at a moment stand by the times of their last uses, the latest first. -/
structure SliceCache.ByAge (m : Nat × SliceCache) : Prop where
  descending : m.2.entries.entries.Pairwise fun p q => q.2.lastAccess ≤ p.2.lastAccess
  /-- At all times, the expired entries are those at the end. -/
  expired_last : ∀ time : Nat,
    m.2.entries.entries.filter (·.2.isFresh time m.2.settings.idleTtl) ++
      m.2.entries.entries.filter (!·.2.isFresh time m.2.settings.idleTtl) = m.2.entries.entries
  /-- Whatever entry is put in, another that has to go for it is expired if any is. -/
  expired_first : ∀ (s : Slice) (rows : List Anomaly), ∀ p ∈ m.2.entries.entries, p.1 ≠ s →
    p ∉ (m.2.keep m.1 s rows).entries.entries → ∀ q ∈ m.2.entries.entries,
      q.2.isFresh m.1 m.2.settings.idleTtl = false → p.2.isFresh m.1 m.2.settings.idleTtl = false

theorem SliceCache.byAge_of_ordered {m : Nat × SliceCache} (h : m.2.entries.Ordered m.1) :
    ByAge m where
  descending := h.descending
  expired_last time := h.fresh_append_expired time m.2.settings.idleTtl
  expired_first _ _ _ hp hps hout _ hq hstale := h.expired_of_pushed_out rfl hp hps hout hq hstale

namespace Session

variable {s : Session} {i : Nat} {r : Request} {requests : List Request} {c : SliceCache}
variable {O : List Slice → Access → (List Anomaly → Prop) → Prop}

/-! ### Batches that wait -/

/-- The request asks cache `i` for the slices and has to wait; cache and store are as in `x`. -/
structure Waits (s : Session) (i : Nat) (r : Request) (slices : List Slice) (x : Access) :
    Prop where
  asked : slicesOf? i r = some slices
  reply : (s.step r).1 = .waiting
  cache : s.caches[i]? = some x.cache
  backend : x.backend = s.backend

/-- One of the requests asked for the slices and had to wait, and `P` are the contents at the calls
of the cache from that request on. -/
def Came (s : Session) (i : Nat) (requests : List Request) (slices : List Slice) (x : Access)
    (P : List Anomaly → Prop) : Prop :=
  ∃ before r after, requests = before ++ r :: after ∧ (s.run before).Waits i r slices x ∧
    P = (s.run before).AtCall i (r :: after)

theorem Came.append {slices : List Slice} {x : Access} {P : List Anomaly → Prop}
    (h : s.Came i requests slices x P) (more : List Request) :
    ∃ Q, s.Came i (requests ++ more) slices x Q ∧ ∀ m, P m → Q m := by
  obtain ⟨before, r, after, rfl, hwaits, rfl⟩ := h
  refine ⟨_, ⟨before, r, after ++ more, by simp, hwaits, rfl⟩, fun m hm => ?_⟩
  exact hm.append more

/-- What the store has at a call counts for each batch that came before the call or with it. -/
theorem counts_came (h : (s.run requests).Calls i r) :
    Counts (s.Came i (requests ++ [r])) (s.run requests).backend.memory.anomalies := by
  intro slices x P hcame
  obtain ⟨before, r', after, hsplit, -, rfl⟩ := hcame
  rcases List.eq_nil_or_concat after with rfl | ⟨between, last, rfl⟩
  · obtain ⟨rfl, hr⟩ := List.append_inj' hsplit rfl
    obtain rfl := (List.cons.inj hr).1
    exact ⟨[], r, [], rfl, h, rfl⟩
  · have hsplit' : requests ++ [r] = (before ++ r' :: between) ++ [last] := by
      rw [hsplit]
      simp
    obtain ⟨rfl, hr⟩ := List.append_inj' hsplit' rfl
    obtain rfl := (List.cons.inj hr).1
    rw [run_append] at h ⊢
    exact ⟨r' :: between, r, [], by simp, h, rfl⟩

theorem waits_of_getAll (hc : s.caches[i]? = some c) {slices : List Slice}
    (hr : slicesOf? i r = some slices) (h : (Access.getAll ⟨c, s.backend⟩ slices).1 = none) :
    s.Waits i r slices ⟨c, s.backend⟩ := by
  have hreply := reply_of_slicesOf? s hc hr
  rw [h] at hreply
  exact ⟨hr, hreply, hc, rfl⟩

theorem traced_step (hc : s.caches[i]? = some c) (h : c.Traced O)
    (hO : ∀ slices, s.Waits i r slices ⟨c, s.backend⟩ → ∃ P, O slices ⟨c, s.backend⟩ P)
    (hm : s.Calls i r → Counts O s.backend.memory.anomalies) :
    ∃ c', (s.step r).2.caches[i]? = some c' ∧ c'.Traced O := by
  obtain ⟨b, y, hturn⟩ := s.exists_turn hc r
  have hb : b.memory.anomalies = s.backend.memory.anomalies := hturn.before.anomalies
  refine ⟨y.cache, hturn.after, ?_⟩
  cases hturn.does with
  | rest => exact h
  | @asked _ slices hslices =>
    have hsame : b = s.backend := hturn.direct fun hr => by simp [hr, slicesOf?] at hslices
    subst hsame
    refine Access.traced_getAll (x := ⟨c, s.backend⟩) h (fun hnone => ?_) fun hne => ?_
    · exact hO slices (waits_of_getAll hc hslices hnone)
    · have hasks : s.asks i r ≠ [] := fun hnil => hne (by rw [hturn.asked, hnil, List.append_nil])
      exact hm (calls_of_asks hc hslices hasks)
  | cleaned => exact ⟨h.queue, h.late⟩
  | cleared => exact ⟨h.queue, h.late⟩
  | landed place =>
    exact Access.traced_land (x := ⟨c, b⟩) h fun hlt => hb ▸ hm ⟨c, hc, rfl, hlt⟩
  | released =>
    exact Access.traced_release (x := ⟨c, b⟩) h fun hwork => hb ▸ hm ⟨c, hc, hwork⟩

/-- After any run since a cache was made, its batches were answered from what was found when they
came and from contents at its calls since. -/
theorem traced_run {settings : Settings} {mode : Mode}
    (h : s.caches[i]? = some (SliceCache.new settings mode)) (requests : List Request) :
    ∃ c, (s.run requests).caches[i]? = some c ∧ c.Traced (s.Came i requests) := by
  induction requests using List.reverseRecOn with
  | nil => exact ⟨_, h, nofun, nofun⟩
  | append_singleton requests r ih =>
    obtain ⟨c, hc, htraced⟩ := ih
    rw [run_append]
    refine traced_step hc (htraced.mono fun _ _ _ hcame => hcame.append [r]) ?_ counts_came
    intro slices hwaits
    exact ⟨_, requests, r, [], rfl, hwaits, rfl⟩

theorem Waits.sound {settings : Settings} {mode : Mode}
    (h : s.caches[i]? = some (SliceCache.new settings mode)) {slices : List Slice} {x : Access}
    (hw : (s.run requests).Waits i r slices x) :
    SliceCache.Sound settings mode (x.backend.clock, x.cache) := by
  obtain ⟨c, hc, hsound⟩ := sound_run h requests
  obtain rfl : x.cache = c := Option.some.inj (hw.cache.symm.trans hc)
  rw [hw.backend]
  exact hsound

/-! ### Runs -/

/-- The entries of cache `i` after the requests, and where its answers come from. -/
structure ByAge (s : Session) (i : Nat) (requests : List Request) (c : SliceCache) : Prop where
  cache : (s.run requests).caches[i]? = some c
  /-- By whatever changes the cache goes on from here, its entries stand by age. -/
  always : ∀ m, SliceCache.Evolves ((s.run requests).backend.clock, c) m → SliceCache.ByAge m
  /-- Every request comes to such changes. -/
  evolves : ∀ r, ∃ c', ((s.run requests).step r).2.caches[i]? = some c' ∧
    SliceCache.Evolves ((s.run requests).backend.clock, c)
      (((s.run requests).step r).2.backend.clock, c')
  /-- Each slice of a batch is answered from an entry that is fresh now or, if there is none that
  covers it, from the store. -/
  batch : ∀ slices answers,
    ((s.run requests).step (.getAll i slices)).1 = .batch (.ok answers) →
      ∀ q ∈ answers, Access.Gives ⟨c, (s.run requests).backend⟩ q.1 q.2 ∨
        ¬ Access.Covers ⟨c, (s.run requests).backend⟩ q.1 ∧
          q.2 = q.1.select (s.run requests).backend.memory.anomalies
  single : ∀ slice rows,
    ((s.run requests).step (.get i slice)).1 = .anomalies (.ok rows) →
      Access.Gives ⟨c, (s.run requests).backend⟩ slice rows ∨
        ¬ Access.Covers ⟨c, (s.run requests).backend⟩ slice ∧
          rows = slice.select (s.run requests).backend.memory.anomalies
  /-- A batch that waits for its answer keeps answers from entries that were fresh when it came, for
  all slices that such entries covered. -/
  waiting : ∀ b ∈ c.queue, b.answered = false →
    ∃ before r after x, requests = before ++ r :: after ∧
      (s.run before).Waits i r b.slices x ∧ (∀ q ∈ b.answers, x.Gives q.1 q.2) ∧
      ∀ t, t ∈ b.fetched.map Prod.fst ++ b.waiting ↔ t ∈ b.slices ∧ ¬ x.Covers t
  /-- Each slice of a batch that had to wait was answered from an entry that was fresh when the
  batch came or, if none covered it then, from what the store had at a call from then on. -/
  late : ∀ slices answers, (slices, .ok answers) ∈ c.late →
    ∃ before r after x, requests = before ++ r :: after ∧ (s.run before).Waits i r slices x ∧
      ∀ q ∈ answers, x.Gives q.1 q.2 ∨
        ¬ x.Covers q.1 ∧ q.1.SelectsFrom ((s.run before).AtCall i (r :: after)) q.2
  /-- Without the expired entries, a batch gets the same answer, and leaves the same but for the
  entries: it makes the same calls, and if it has to wait, it waits with the same answers. -/
  blind : ∀ slices : List Slice, let x : Access := ⟨c, (s.run requests).backend⟩
    (x.withoutExpired.getAll slices).1 = (x.getAll slices).1 ∧
      (x.withoutExpired.getAll slices).2.Alike (x.getAll slices).2
  /-- Whatever the entries are when calls come to their ends, the batches that waited get the same
  answers. -/
  unread : ∀ x y : Access, x.cache = c → y.Alike x →
    (∀ place, (y.land place).Alike (x.land place)) ∧ y.release.Alike x.release

/-- **Expired entries come last.** After any requests since a cache was made, its entries stand by
the times of their last uses, what is pushed out is expired if any entry is, and no answer comes
from an expired entry. -/
theorem byAge_run (s : Session) (i : Nat) (settings : Settings) (mode : Mode)
    (h : s.caches[i]? = some (SliceCache.new settings mode)) (requests : List Request) :
    ∃ c, s.ByAge i requests c := by
  obtain ⟨c, hc, hsound⟩ := sound_run h requests
  obtain ⟨d, hd, htraced⟩ := traced_run h requests
  obtain rfl : c = d := Option.some.inj (hc.symm.trans hd)
  have hn := hsound.ordered.nodup
  have hanswered (slices : List Slice) (answers : Answers)
      (ha : (Access.getAll ⟨c, (s.run requests).backend⟩ slices).1 = some (.ok answers)) :=
    Access.answered_getAll (x := ⟨c, (s.run requests).backend⟩) hn hsound.entries_eq_nil ha
  refine ⟨c, ?_⟩
  constructor
  case cache => exact hc
  case always =>
    intro m hm
    exact SliceCache.byAge_of_ordered (hm.sound hsound).ordered
  case evolves => exact evolves_step hc
  case batch =>
    intro slices answers ha
    exact hanswered slices answers (getAll_of_step hc ha)
  case single =>
    intro slice rows ha
    obtain ⟨answers, hanswers, rfl⟩ := Access.exists_getAll_of_get (get_of_step hc ha)
    obtain ⟨d, hd, hfaithful⟩ := faithful_run h requests
    obtain rfl : c = d := Option.some.inj (hc.symm.trans hd)
    have hcomplete := (Access.faithful_getAll (x := ⟨c, (s.run requests).backend⟩)
      (hfaithful.mono fun _ _ => trivial) fun _ => trivial).2 answers hanswers
    obtain ⟨m, -, hlook⟩ := hcomplete.exists_lookup (List.mem_singleton_self slice)
    rw [hlook]
    exact hanswered [slice] answers hanswers _ (mem_of_lookup hlook)
  case waiting =>
    intro b hb hopen
    obtain ⟨x, P, ⟨before, r, after, hsplit, hwaits, -⟩, hbatch⟩ := htraced.queue b hb hopen
    have hx := hwaits.sound h
    refine ⟨before, r, after, x, hsplit, hwaits, ?_, fun t => ?_⟩
    · rw [hbatch.answers]
      exact Access.gives_of_lookUp hx.ordered.nodup
    · rw [hbatch.keys, Access.mem_pending, Access.keys_lookUp hx.ordered.nodup hx.entries_eq_nil]
      exact and_congr_right fun ht => not_congr (and_iff_right ht)
  case late =>
    intro slices answers ha
    obtain ⟨x, P, ⟨before, r, after, hsplit, hwaits, rfl⟩, hcompletes⟩ :=
      htraced.late slices answers ha
    have hx := hwaits.sound h
    refine ⟨before, r, after, x, hsplit, hwaits, ?_⟩
    exact hcompletes.gives hx.ordered.nodup hx.entries_eq_nil
  case blind =>
    intro slices
    exact Access.getAll_withoutExpired hn slices
  case unread =>
    intro x y _ hyx
    exact ⟨hyx.land, hyx.release⟩

/-- Room for two entries that stay fresh for 100 milliseconds, one permit, and a fourth call that
hangs. -/
def roomForTwo : Session where
  backend := {
    memory := { anomalies := [.stored 1 1 0 100, .stored 2 2 0 100, .stored 3 3 0 100] }
    script := fun n _ => if n = 3 then .hang else .obey }
  caches := [.new ⟨2, 100, 50, 1⟩ .enabled]

/-- Detector 2 is used again after 60 milliseconds and detector 1 is not. When detector 3 comes in
after 60 more, detector 1 is the one that is expired, and it has to go. Detector 4 hangs, and a
batch that finds detector 3 waits for its permit until all entries are expired. -/
theorem byAge_roomForTwo :
    let requests : List Request := [.get 0 { detector := some 2 }, .get 0 { detector := some 1 },
      .sleep 60, .get 0 { detector := some 2 }, .sleep 60, .get 0 { detector := some 3 }]
    let waiting : List Request := [.get 0 { detector := some 4 },
      .getAll 0 [{ detector := some 3, start := some 0 }, { detector := some 5 }],
      .extend [.stored 5 5 0 100], .sleep 100, .release]
    roomForTwo.caches[0]? = some (SliceCache.new ⟨2, 100, 50, 1⟩ .enabled) ∧
      (∃ c, roomForTwo.ByAge 0 (requests ++ waiting) c) ∧
      (roomForTwo.run requests).caches.map (·.entries.entries.map Prod.fst) =
        [[{ detector := some 3 }, { detector := some 2 }]] ∧
      (roomForTwo.run (requests ++ waiting)).caches.map (·.late) =
        [[([{ detector := some 3, start := some 0 }, { detector := some 5 }],
          .ok [({ detector := some 3, start := some 0 }, [.stored 3 3 0 100]),
            ({ detector := some 5 }, [.stored 5 5 0 100])])]] :=
  ⟨rfl, byAge_run roomForTwo 0 ⟨2, 100, 50, 1⟩ .enabled rfl _, rfl, rfl⟩

end Session
end Outlier
