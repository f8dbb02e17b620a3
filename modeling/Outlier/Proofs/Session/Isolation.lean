import Outlier.Proofs.Session.Steps

/-! # Caches of a provider

A provider makes its shared cache when it is first asked for, and a new cache whenever one is asked
for that nobody else has. All these caches go by the settings of the provider and call one store,
but whatever is done to one of them leaves the others as they are (`caches_run_of_not_worksOn`). In
a run that begins without caches, two handles are therefore of one cache only if both are of the
shared one (`isolates_run`). -/

namespace Outlier.Session

variable {s : Session} {config : CacheConfig} {r : Request} {requests : List Request} {i : Nat}
  {c : SliceCache} {mode : Mode}

/-- No cache is made yet, and the provider is the one that the configuration asks for. -/
def ofConfig (config : CacheConfig) (backend : Backend) : Session where
  backend := backend
  provider := some (.ofConfig config)

/-- The handle of the shared cache, once it was made. -/
def shared? (s : Session) : Option Nat := s.provider.bind (·.shared)

theorem isInitialized_eq (s : Session) : s.isInitialized = s.shared?.isSome := by
  unfold isInitialized shared?
  cases s.provider <;> rfl

/-! ### Requests for a cache -/

/-- Does the request ask for the shared cache? -/
def asksShared : Request → Bool
  | .shared | .instanceOf true => true
  | _ => false

/-- The mode of the cache that a request asks for, if it asks for one. -/
def mode? (config : CacheConfig) : Request → Option Mode
  | .shared | .instanceOf true => some (if config.enabled then .enabled else .disabled)
  | .instanceOf false => some .disabled
  | .isolated mode => some mode
  | _ => none

theorem mode?_of_asksShared (hr : asksShared r = true) :
    mode? config r = some (Provider.ofConfig config).sharedMode := by
  cases r with
  | shared => rfl
  | instanceOf enabled => cases enabled <;> trivial
  | _ => cases hr

theorem step_of_asksShared {p : Provider} (hp : s.provider = some p) (hr : asksShared r = true) :
    s.step r = s.getShared p := by
  cases r with
  | shared => simp only [step, hp]
  | instanceOf enabled =>
    cases enabled with
    | true => simp only [step, hp, if_true]
    | false => cases hr
  | _ => cases hr

theorem step_of_mode? {p : Provider} (hp : s.provider = some p) (hr : asksShared r = false)
    (hmode : mode? config r = some mode) : s.step r = s.add p mode := by
  cases r with
  | instanceOf enabled =>
    cases enabled with
    | true => cases hr
    | false =>
      obtain rfl : Mode.disabled = mode := Option.some.inj hmode
      simp [step, hp]
  | isolated own =>
    obtain rfl : own = mode := Option.some.inj hmode
    simp only [step, hp]
  | shared => cases hr
  | _ => cases hmode

theorem provider_visit (i : Nat) (act : Access → Reply × Access) :
    (s.visit i act).2.provider = s.provider := by
  unfold visit
  split <;> rfl

theorem provider_step (hr : asksShared r = false) : (s.step r).2.provider = s.provider := by
  cases r with
  | get | getAll | cleanUp | clear | land => exact provider_visit _ _
  | shared => cases hr
  | instanceOf enabled =>
    cases enabled with
    | true => cases hr
    | false => simp only [step]; split <;> simp_all [add]
  | isolated mode => simp only [step]; split <;> simp_all [add]
  | cleanUpShared =>
    simp only [step]
    split
    · split
      · exact provider_visit _ _
      · rfl
    · rfl
  | _ => rfl

theorem visit_ne_handle {j : Nat} {act : Access → Reply × Access}
    (hact : ∀ x, (act x).1 ≠ .handle i) : (s.visit j act).1 ≠ .handle i := by
  unfold visit
  split
  · nofun
  · exact hact _

theorem isSome_mode?_of_handle (config : CacheConfig) (h : (s.step r).1 = .handle i) :
    (mode? config r).isSome := by
  have helim {α β : Type} {f : α → Reply} (hf : ∀ a, f a ≠ .handle i) (o : Option α × β) :
      o.1.elim .waiting f ≠ .handle i := by
    cases o.1 with
    | none => nofun
    | some a => exact hf a
  cases r with
  | shared | isolated => rfl
  | instanceOf enabled => cases enabled <;> rfl
  | get => exact absurd h (visit_ne_handle fun x => helim nofun (x.get _))
  | getAll => exact absurd h (visit_ne_handle fun x => helim nofun (x.getAll _))
  | cleanUp | clear | land => exact absurd h (visit_ne_handle nofun)
  | cleanUpShared =>
    simp only [step] at h
    split at h
    · split at h
      · exact absurd h (visit_ne_handle nofun)
      · cases h
    · cases h
  | _ => cases h

/-! ### Caches stay -/

theorem length_le_step (s : Session) (r : Request) :
    s.caches.length ≤ (s.step r).2.caches.length := by
  refine Nat.le_of_not_lt fun hlt => ?_
  obtain ⟨b, y, hturn⟩ := s.exists_turn (List.getElem?_eq_getElem hlt) r
  exact absurd (List.getElem?_eq_some_iff.1 hturn.after).1 (Nat.lt_irrefl _)

/-- Does the request work on cache `i`? A clean-up of the provider works on the shared one. -/
def worksOn (shared : Option Nat) (i : Nat) : Request → Prop
  | .get j _ | .getAll j _ | .cleanUp j | .clear j | .land j _ => j = i
  | .cleanUpShared => shared = some i
  | _ => False

/-- Work on one cache leaves the others as they are. A release does so with those that have no
fetches to finish. -/
theorem caches_step_of_not_worksOn (hc : s.caches[i]? = some c) (hr : ¬ worksOn s.shared? i r)
    (hrelease : r = .release → c.hanging = [] ∧ c.queue = []) :
    (s.step r).2.caches[i]? = some c := by
  cases r with
  | get | getAll | cleanUp | clear | land => exact (s.caches_visit_of_ne hr _).trans hc
  | release =>
    obtain ⟨hhanging, hqueue⟩ := hrelease rfl
    rw [(s.caches_release hc).1, Access.release_of_idle _ hhanging hqueue]
  | shared => exact s.caches_shared hc
  | instanceOf enabled => exact s.caches_instanceOf hc enabled
  | isolated mode => exact s.caches_isolated hc mode
  | cleanUpShared =>
    cases hp : s.provider with
    | none => simpa only [step, hp] using hc
    | some p =>
      cases hshared : p.shared with
      | none => simpa only [step, hp, hshared] using hc
      | some j =>
        have hj : j ≠ i := by
          rintro rfl
          exact hr (by simp only [worksOn, shared?, hp, Option.bind_some, hshared])
        simp only [step, hp, hshared]
        exact (s.caches_visit_of_ne hj _).trans hc
  | _ => exact hc

/-! ### The provider of a configuration -/

/-- The provider works as the configuration asks, and so does the shared cache, once it is made. -/
structure Provided (config : CacheConfig) (s : Session) : Prop where
  provider : s.provider = some { Provider.ofConfig config with shared := s.shared? }
  made : ∀ k, s.shared? = some k → ∃ c, s.caches[k]? = some c ∧
    Made (.ofConfig config) (Provider.ofConfig config).sharedMode c

theorem provided_ofConfig (config : CacheConfig) (backend : Backend) :
    (ofConfig config backend).Provided config := ⟨rfl, nofun⟩

namespace Provided

variable (h : s.Provided config)
include h

theorem step_of_shared {k : Nat} (hk : s.shared? = some k) (hr : asksShared r = true) :
    s.step r = (.handle k, s) := by
  rw [step_of_asksShared h.provider hr]
  simp only [getShared, hk]

theorem step_of_none (hnone : s.shared? = none) (hr : asksShared r = true) :
    s.step r =
      (.handle s.caches.length,
        { s with
          provider := some { Provider.ofConfig config with shared := some s.caches.length }
          caches := s.caches ++
            [SliceCache.new (.ofConfig config) (if config.enabled then .enabled else .disabled)] })
    := by
  rw [step_of_asksShared h.provider hr]
  simp only [getShared, hnone]
  rfl

/-- Who asks for a cache that is not shared gets a new one. -/
theorem step_of_own (hr : asksShared r = false) (hmode : mode? config r = some mode) :
    s.step r =
      (.handle s.caches.length,
        { s with caches := s.caches ++ [SliceCache.new (.ofConfig config) mode] }) := by
  rw [step_of_mode? h.provider hr hmode, add, ← h.provider]
  rfl

theorem shared?_step (r : Request) :
    (s.step r).2.shared? =
      if asksShared r then some (s.shared?.getD s.caches.length) else s.shared? := by
  cases hr : asksShared r with
  | false => exact congrArg (·.bind (·.shared)) (provider_step hr)
  | true =>
    cases hk : s.shared? with
    | some k =>
      rw [h.step_of_shared hk hr, hk]
      rfl
    | none =>
      rw [h.step_of_none hk hr]
      rfl

theorem step (r : Request) : (s.step r).2.Provided config := by
  have hstays {k : Nat} (hk : s.shared? = some k) : ∃ c, (s.step r).2.caches[k]? = some c ∧
      Made (.ofConfig config) (Provider.ofConfig config).sharedMode c := by
    obtain ⟨c, hc, hmade⟩ := h.made k hk
    exact kept_step (kept_made _ _) (fun _ _ _ _ => trivial) hc trivial hmade r
  cases hr : asksShared r with
  | false =>
    have hshared : (s.step r).2.shared? = s.shared? := by rw [h.shared?_step, hr]; rfl
    exact ⟨by rw [provider_step hr, hshared, ← h.provider],
      fun k hk => hstays (hshared.symm.trans hk)⟩
  | true =>
    cases hk : s.shared? with
    | some k => rwa [h.step_of_shared hk hr]
    | none =>
      rw [h.step_of_none hk hr]
      refine ⟨rfl, fun k hk => ?_⟩
      obtain rfl : s.caches.length = k := Option.some.inj hk
      exact ⟨_, List.getElem?_concat_length, made_new _ _⟩

theorem run (requests : List Request) : (s.run requests).Provided config := by
  induction requests generalizing s with
  | nil => exact h
  | cons r rest ih => exact ih (h.step r)

/-- Once made, the shared cache is the same ever after. -/
theorem shared?_run_of_some {k : Nat} (hk : s.shared? = some k) (requests : List Request) :
    (s.run requests).shared? = some k := by
  induction requests generalizing s with
  | nil => exact hk
  | cons r rest ih =>
    refine ih (h.step r) ?_
    rw [h.shared?_step, hk]
    exact ite_self _

/-- A cache that was made for something else never becomes the shared one. -/
theorem shared?_run_ne {k : Nat} (hne : s.shared? ≠ some k) (hk : k < s.caches.length)
    (requests : List Request) : (s.run requests).shared? ≠ some k := by
  induction requests generalizing s with
  | nil => exact hne
  | cons r rest ih =>
    refine ih (h.step r) ?_ (Nat.lt_of_lt_of_le hk (s.length_le_step r))
    rw [h.shared?_step]
    split
    · cases hj : s.shared? with
      | some j => exact hj ▸ hne
      | none => exact fun heq => Nat.ne_of_lt hk (Option.some.inj heq).symm
    · exact hne

theorem isInitialized_run (requests : List Request) :
    (s.run requests).isInitialized = (s.isInitialized || requests.any asksShared) := by
  induction requests generalizing s with
  | nil => exact (Bool.or_false _).symm
  | cons r rest ih =>
    have hstep : (s.step r).2.isInitialized = (s.isInitialized || asksShared r) := by
      rw [isInitialized_eq, isInitialized_eq, h.shared?_step]
      cases asksShared r with
      | false => exact (Bool.or_false _).symm
      | true => exact (Bool.or_true _).symm
    show ((s.step r).2.run rest).isInitialized = _
    rw [ih (h.step r), hstep, List.any_cons, Bool.or_assoc]

/-- A cache stays as it is while no request works on it. -/
theorem caches_run_of_not_worksOn (hc : s.caches[i]? = some c)
    (hr : ∀ r ∈ requests, ¬ worksOn (s.run requests).shared? i r)
    (hrelease : ∀ r ∈ requests, r = .release → c.hanging = [] ∧ c.queue = []) :
    (s.run requests).caches[i]? = some c := by
  induction requests generalizing s with
  | nil => exact hc
  | cons r rest ih =>
    have hnow : ¬ worksOn s.shared? i r := by
      intro hworks
      refine hr r List.mem_cons_self ?_
      cases r with
      | cleanUpShared => exact h.shared?_run_of_some hworks _
      | _ => exact hworks
    exact ih (h.step r)
      (caches_step_of_not_worksOn hc hnow (hrelease r List.mem_cons_self))
      (fun r' hr' => hr r' (List.mem_cons_of_mem _ hr'))
      fun r' hr' => hrelease r' (List.mem_cons_of_mem _ hr')

end Provided

/-! ### Handles -/

/-- The handles that a run hands out, each after the request for it. -/
def handles : Session → List Request → List (Request × Nat)
  | _, [] => []
  | s, r :: rest =>
    match (s.step r).1 with
    | .handle i => (r, i) :: handles (s.step r).2 rest
    | _ => handles (s.step r).2 rest

theorem handles_cons_of_handle (h : (s.step r).1 = .handle i) (rest : List Request) :
    s.handles (r :: rest) = (r, i) :: handles (s.step r).2 rest := by
  simp only [handles, h]

theorem handles_cons_of_ne (h : ∀ i, (s.step r).1 ≠ .handle i) (rest : List Request) :
    s.handles (r :: rest) = handles (s.step r).2 rest := by
  simp only [handles]

theorem mem_handles_cons {x : Request × Nat} {rest : List Request}
    (hx : x ∈ s.handles (r :: rest)) :
    (x.1 = r ∧ (s.step r).1 = .handle x.2) ∨ x ∈ handles (s.step r).2 rest := by
  by_cases hreply : ∃ i, (s.step r).1 = .handle i
  · obtain ⟨i, hi⟩ := hreply
    rw [handles_cons_of_handle hi] at hx
    rcases List.mem_cons.1 hx with rfl | hx
    · exact .inl ⟨rfl, hi⟩
    · exact .inr hx
  · rw [handles_cons_of_ne fun i hi => hreply ⟨i, hi⟩] at hx
    exact .inr hx

/-- The request is answered by a handle of cache `i`: the shared one from now on, or else one that
was not there before. -/
inductive Hands (config : CacheConfig) (s : Session) (r : Request) (i : Nat) : Prop where
  | shared (h : asksShared r = true) (hi : (s.step r).2.shared? = some i)
  | own (h : asksShared r = false) (hi : i = s.caches.length)
      (hlt : i < (s.step r).2.caches.length) (hne : (s.step r).2.shared? ≠ some i)

namespace Provided

variable (h : s.Provided config)
include h

theorem hands_of_handle (hi : (s.step r).1 = .handle i) : Hands config s r i := by
  cases hr : asksShared r with
  | true =>
    refine .shared hr ?_
    rw [h.shared?_step, hr]
    cases hk : s.shared? with
    | some k =>
      rw [h.step_of_shared hk hr] at hi
      cases hi
      rfl
    | none =>
      rw [h.step_of_none hk hr] at hi
      cases hi
      rfl
  | false =>
    obtain ⟨mode, hmode⟩ := Option.isSome_iff_exists.1 (isSome_mode?_of_handle config hi)
    have hstep := h.step_of_own hr hmode
    obtain rfl : s.caches.length = i := by
      rw [hstep] at hi
      exact Reply.handle.inj hi
    refine .own hr rfl ?_ ?_
    · rw [hstep, List.length_append]
      exact Nat.lt_succ_self _
    · rw [hstep]
      intro hk
      obtain ⟨c, hc, -⟩ := h.made _ hk
      exact absurd (List.getElem?_eq_some_iff.1 hc).1 (Nat.lt_irrefl _)

/-- What has become of a handle at the end of the run. -/
theorem of_mem_handles {x : Request × Nat} (hx : x ∈ s.handles requests) :
    (asksShared x.1 = true ∧ (s.run requests).shared? = some x.2) ∨
      (asksShared x.1 = false ∧ (s.run requests).shared? ≠ some x.2 ∧ s.caches.length ≤ x.2) := by
  induction requests generalizing s with
  | nil => cases hx
  | cons r rest ih =>
    obtain ⟨rfl, hi⟩ | hx := mem_handles_cons hx
    · cases h.hands_of_handle hi with
      | shared hr hi => exact .inl ⟨hr, (h.step _).shared?_run_of_some hi rest⟩
      | own hr hi hlt hne =>
        exact .inr ⟨hr, (h.step _).shared?_run_ne hne hlt rest, Nat.le_of_eq hi.symm⟩
    · exact (ih (h.step r) hx).imp_right <| And.imp_right <| And.imp_right <|
        Nat.le_trans (s.length_le_step r)

theorem map_fst_handles (requests : List Request) :
    (s.handles requests).map Prod.fst = requests.filter fun r => (mode? config r).isSome := by
  induction requests generalizing s with
  | nil => rfl
  | cons r rest ih =>
    cases hmode : mode? config r with
    | some mode =>
      obtain ⟨i, hi⟩ : ∃ i, (s.step r).1 = .handle i := by
        cases hr : asksShared r with
        | false => exact ⟨_, congrArg Prod.fst (h.step_of_own hr hmode)⟩
        | true =>
          cases hk : s.shared? with
          | some k => exact ⟨k, congrArg Prod.fst (h.step_of_shared hk hr)⟩
          | none => exact ⟨_, congrArg Prod.fst (h.step_of_none hk hr)⟩
      rw [handles_cons_of_handle hi, List.map_cons, ih (h.step r), List.filter_cons, hmode]
      rfl
    | none =>
      have hne (i : Nat) (hi : (s.step r).1 = .handle i) : False := by
        have hsome := isSome_mode?_of_handle config hi
        rw [hmode] at hsome
        cases hsome
      rw [handles_cons_of_ne hne, ih (h.step r), List.filter_cons, hmode]
      rfl

/-- Two handles are of one cache if both are of the shared one, and only then. -/
theorem pairwise_handles (requests : List Request) :
    (s.handles requests).Pairwise fun x y =>
      x.2 = y.2 ↔ asksShared x.1 = true ∧ asksShared y.1 = true := by
  induction requests generalizing s with
  | nil => exact .nil
  | cons r rest ih =>
    by_cases hreply : ∃ i, (s.step r).1 = .handle i
    · obtain ⟨i, hi⟩ := hreply
      rw [handles_cons_of_handle hi]
      refine List.pairwise_cons.2 ⟨fun y hy => ?_, ih (h.step r)⟩
      have hlater := (h.step r).of_mem_handles hy
      cases h.hands_of_handle hi with
      | shared hr hshared =>
        have hend := (h.step r).shared?_run_of_some hshared rest
        rcases hlater with ⟨hy, hshared⟩ | ⟨hy, hne, -⟩
        · exact iff_of_true (Option.some.inj (hend.symm.trans hshared)) ⟨hr, hy⟩
        · exact iff_of_false (fun heq => hne (heq ▸ hend)) fun hboth => by simp [hy] at hboth
      | own hr hi hlt hne =>
        refine iff_of_false (fun heq => ?_) fun hboth => by simp [hr] at hboth
        rcases hlater with ⟨-, hshared⟩ | ⟨-, -, hle⟩
        · exact (h.step r).shared?_run_ne hne hlt rest (hshared.trans (congrArg some heq.symm))
        · exact absurd (Nat.lt_of_lt_of_le hlt hle) (Nat.lt_irrefl _ ∘ (heq ▸ ·))
    · rw [handles_cons_of_ne fun i hi => hreply ⟨i, hi⟩]
      exact ih (h.step r)

/-- A cache that was handed out has the settings of the provider and the mode that was asked for. -/
theorem made_of_mem_handles {x : Request × Nat} (hx : x ∈ s.handles requests) :
    ∃ c, (s.run requests).caches[x.2]? = some c ∧ c.settings = .ofConfig config ∧
      mode? config x.1 = some c.mode := by
  induction requests generalizing s with
  | nil => cases hx
  | cons r rest ih =>
    obtain ⟨rfl, hi⟩ | hx := mem_handles_cons hx
    · obtain ⟨mode, hmode⟩ := Option.isSome_iff_exists.1 (isSome_mode?_of_handle config hi)
      obtain ⟨c, hc, hmade⟩ : ∃ c, (s.step x.1).2.caches[x.2]? = some c ∧
          Made (.ofConfig config) mode c := by
        cases h.hands_of_handle hi with
        | shared hr hi =>
          obtain rfl := Option.some.inj ((mode?_of_asksShared hr).symm.trans hmode)
          exact (h.step x.1).made x.2 hi
        | own hr hi =>
          rw [h.step_of_own hr hmode, hi]
          exact ⟨_, List.getElem?_concat_length, made_new _ _⟩
      obtain ⟨-, c', hc', hmade'⟩ := kept_run (kept_made (.ofConfig config) mode)
        (fun _ _ _ _ => trivial) (fun _ _ _ _ => trivial) hc trivial hmade
      exact ⟨c', hc', hmade'.settings, hmode.trans (congrArg some hmade'.mode.symm)⟩
    · exact ih (h.step r) hx

end Provided

/-! ### Whole runs -/

/-- What a session owes to the provider of its configuration after the requests. -/
structure Isolates (config : CacheConfig) (start : Session) (requests : List Request) : Prop where
  /-- The first request for the shared cache makes it. -/
  initialized : (start.run requests).isInitialized = requests.any asksShared
  /-- Each request for a cache is answered by a handle. -/
  answered : (start.handles requests).map Prod.fst =
    requests.filter fun r => (mode? config r).isSome
  /-- Two handles are of one cache if both are of the shared one, and only then. -/
  distinct : (start.handles requests).Pairwise fun x y =>
    x.2 = y.2 ↔ asksShared x.1 = true ∧ asksShared y.1 = true
  made : ∀ x ∈ start.handles requests, ∃ c, (start.run requests).caches[x.2]? = some c ∧
    c.settings = .ofConfig config ∧ mode? config x.1 = some c.mode
  /-- Before it was asked for, the shared cache is made like any other. -/
  first : requests.any asksShared = false → ∀ r, asksShared r = true →
    (start.run requests).step r =
      (.handle (start.run requests).caches.length,
        { start.run requests with
          provider := some
            { Provider.ofConfig config with shared := some (start.run requests).caches.length }
          caches := (start.run requests).caches ++
            [SliceCache.new (.ofConfig config) (if config.enabled then .enabled else .disabled)] })
  /-- After that, requests for the shared cache change nothing. -/
  again : requests.any asksShared = true → ∃ k, (start.run requests).shared? = some k ∧
    ∀ r, asksShared r = true → (start.run requests).step r = (.handle k, start.run requests)
  /-- Any other request for a cache adds a new one and changes nothing else. -/
  own : ∀ r mode, asksShared r = false → mode? config r = some mode →
    (start.run requests).step r =
      (.handle (start.run requests).caches.length,
        { start.run requests with
          caches := (start.run requests).caches ++ [SliceCache.new (.ofConfig config) mode] })
  /-- From here on, a cache stays as it is until a request works on it. -/
  untouched : ∀ i c more, (start.run requests).caches[i]? = some c →
    (∀ r ∈ more, ¬ worksOn (start.run (requests ++ more)).shared? i r) →
    (∀ r ∈ more, r = .release → c.hanging = [] ∧ c.queue = []) →
    (start.run (requests ++ more)).caches[i]? = some c
  /-- The provider cleans up nothing before the shared cache is made, -/
  cleanUp_before : requests.any asksShared = false →
    (start.run requests).step .cleanUpShared = (.count 0, start.run requests)
  /-- and nothing but the shared cache after that. -/
  cleanUp_after : requests.any asksShared = true → ∃ k c, (start.run requests).shared? = some k ∧
    (start.run requests).caches[k]? = some c ∧
    (start.run requests).step .cleanUpShared =
      (.count (c.cleanUp (start.run requests).backend.clock).1,
        { start.run requests with
          caches := (start.run requests).caches.set k
            (c.cleanUp (start.run requests).backend.clock).2 })

/-- **Isolation.** Whatever is asked of a provider and of the caches that it handed out, all handles
of the shared cache are of one cache and every other handle is of a cache that no one else has, made
as the configuration and the request say, and no cache is changed by work on another. -/
theorem isolates_run (config : CacheConfig) (backend : Backend) (requests : List Request) :
    Isolates config (ofConfig config backend) requests := by
  have h := provided_ofConfig config backend
  have hrun := h.run requests
  have hinit : ((ofConfig config backend).run requests).isInitialized = requests.any asksShared :=
    h.isInitialized_run requests
  have hnone (hany : requests.any asksShared = false) :
      ((ofConfig config backend).run requests).shared? = none := by
    rw [← hinit, isInitialized_eq] at hany
    exact Option.isNone_iff_eq_none.1 (by simpa using hany)
  have hsome (hany : requests.any asksShared = true) :
      ∃ k, ((ofConfig config backend).run requests).shared? = some k := by
    rw [← hinit, isInitialized_eq] at hany
    exact Option.isSome_iff_exists.1 hany
  constructor
  case initialized => exact hinit
  case answered => exact h.map_fst_handles requests
  case distinct => exact h.pairwise_handles requests
  case made => exact fun x hx => h.made_of_mem_handles hx
  case first => exact fun hany r hr => hrun.step_of_none (hnone hany) hr
  case again =>
    intro hany
    obtain ⟨k, hk⟩ := hsome hany
    exact ⟨k, hk, fun r hr => hrun.step_of_shared hk hr⟩
  case own => exact fun r mode hr hmode => hrun.step_of_own hr hmode
  case untouched =>
    intro i c more hc hmore hrelease
    rw [run_append] at hmore ⊢
    exact hrun.caches_run_of_not_worksOn hc hmore hrelease
  case cleanUp_before =>
    intro hany
    simp only [step, hrun.provider, hnone hany]
  case cleanUp_after =>
    intro hany
    obtain ⟨k, hk⟩ := hsome hany
    obtain ⟨c, hc, -⟩ := hrun.made k hk
    refine ⟨k, c, hk, hc, ?_⟩
    have hclean : ((ofConfig config backend).run requests).step .cleanUpShared =
        ((ofConfig config backend).run requests).step (.cleanUp k) := by
      simp only [step, hrun.provider, hk]
    rw [hclean, cleanUp_of_some _ hc]

/-- Two requests for the shared cache among three for others: four caches, of which the second is
the shared one. -/
example :
    ((ofConfig {} { memory := {} }).handles
      [.isolated .enabled, .cleanUpShared, .instanceOf true, .get 0 {}, .instanceOf false,
        .isolated .enabled, .shared]).map Prod.snd = [0, 1, 2, 3, 1] := rfl

end Outlier.Session
