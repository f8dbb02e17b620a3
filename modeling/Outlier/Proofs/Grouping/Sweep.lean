import Outlier.Grouping.Merge
import Outlier.Proofs.Grouping.Layer
import Outlier.Proofs.Sequence

/-! # The two sweeps

Both sweeps take the items in order of their starts, and what they do with one is made of the
changes that keep a `Layer`. A sweep only ever touches the group it opened last. That group is free
(`Free`): it lies in no other group, so that moving its end spoils no hull. -/

namespace Outlier.Arena

variable {a b : Arena} {done : List Item}

/-! ### Sorting -/

theorem mem_sorted {items : List Item} {x : Item} : x ∈ a.sorted items ↔ x ∈ items := by
  unfold sorted
  rw [List.mem_mergeSort, List.mem_eraseDups]

theorem nodup_sorted (a : Arena) (items : List Item) : (a.sorted items).Nodup :=
  (List.mergeSort_perm _ _).nodup_iff.2 (nodup_eraseDups items)

theorem pairwise_sorted (a : Arena) (items : List Item) :
    (a.sorted items).Pairwise fun x y => (a.span x).start ≤ (a.span y).start :=
  pairwise_mergeSort_key (fun x => (a.span x).start) items.eraseDups

/-! ### Changes of a sweep -/

theorem update_congr {g : Nat} {f f' : Draft → Draft} (h : f (a.draft g) = f' (a.draft g)) :
    a.update g f = a.update g f' := by
  have hgroups : a.groups.modify g f = a.groups.modify g f' := by
    refine Array.ext (by simp) fun i hi _ => ?_
    rw [Array.getElem_modify, Array.getElem_modify]
    split
    next hg =>
      subst hg
      rw [Array.size_modify] at hi
      have hd : a.draft g = a.groups[g] := by simp [draft, Array.getD_eq_getD_getElem?, hi]
      rw [← hd, h]
    · rfl
  simp only [update, hgroups]

theorem stretch_adopt {g : Nat} {x : Item} (h : (a.draft g).span.start ≤ (a.span x).start) :
    (a.stretch g (max (a.draft g).span.stop (a.span x).stop)).adopt g x =
      a.takeIn g x ((a.draft g).span.hull (a.span x)) := by
  unfold takeIn stretch
  rw [Span.hull_of_start_le h]
  exact congrArg (fun c : Arena => c.adopt g x) (update_congr rfl)

theorem widen_adopt (g : Nat) (x : Item) (s : Span) :
    (a.widen g s).adopt g x = a.takeIn g x ((a.draft g).span.hull s) :=
  congrArg (fun c : Arena => c.adopt g x) (update_congr rfl)

namespace Layer

variable {x : Item}

/-- No new group has an item that is still to come. -/
theorem not_mem (h : Layer b done a) (hx : b.Holds x) (hnew : x ∉ done) {g : Nat}
    (hg : b.size ≤ g) : x ∉ (a.draft g).members := by
  intro hm
  rcases h.member g hg x hm with hd | ⟨k, hxk, hk, _⟩
  · exact hnew hd
  · exact hx.ne_group hk hxk

theorem openNext (h : Layer b done a) (hx : b.Holds x) (hnew : x ∉ done) :
    Layer b (done ++ [x]) (a.openGroup x false) := by
  have hno : ∀ g, b.size ≤ g → x ∉ (a.draft g).members := fun g hg => h.not_mem hx hnew hg
  refine h.openGroup (fun y => by simp) hx (fun g hg _ hm => ?_) (fun _ => hno) nofun
  exact hno g hg (hm ▸ List.mem_singleton.2 rfl)

theorem joinNext (h : Layer b done a) {g : Nat} (hg : Free b a g) (hx : b.Holds x)
    (hnew : x ∉ done) :
    Layer b (done ++ [x]) (a.takeIn g x ((a.draft g).span.hull (a.span x))) := by
  refine h.takeIn hg (fun y => ?_) (.inl hx) fun k hk _ hm => ?_
  · rw [List.mem_append, List.mem_singleton]
    exact or_congr_right ⟨fun e => ⟨e, e ▸ hx⟩, And.left⟩
  · exact h.not_mem hx hnew hk (hm ▸ List.mem_singleton.2 rfl)

theorem openShadow (h : Layer b done a) {g : Nat} (hg : b.size ≤ g)
    (hxg : x ∈ (a.draft g).members) (hne : (a.draft g).members ≠ [x]) (hd : x ∈ done) :
    Layer b done (a.openGroup x true) := by
  refine h.openGroup (fun y => ?_) (h.old_done x hd) (fun k hk hs hm => ?_) nofun fun _ => hd
  · exact ⟨.inl, fun hy => hy.elim id fun e => e ▸ hd⟩
  · have hgk : g = k := h.single k x hk hs hm g hg hxg
    exact hne (hgk ▸ hm)

/-- The next item opens a group that takes in an earlier item or a free group. -/
theorem wrapNext (h : Layer b done a) (hx : b.Holds x) (hnew : x ∉ done) {inner : Item}
    (hinner : inner ∈ done ∨ ∃ k, inner = .group k ∧ b.size ≤ k ∧ k < a.size)
    (hsingle : ∀ g, b.size ≤ g → (a.draft g).shadow = false → (a.draft g).members ≠ [inner]) :
    Layer b (done ++ [x]) (((a.openGroup x false).widen a.size
      ((a.openGroup x false).span inner)).adopt a.size inner) := by
  have hxi : x ≠ inner := by
    rintro rfl
    rcases hinner with hd | ⟨k, hk, hle, _⟩
    · exact hnew hd
    · exact hx.ne_group hle hk
  have hnext := h.openNext hx hnew
  rw [widen_adopt]
  refine hnext.takeIn (.openGroup h.size_le x false) (fun y => ?_) ?_ fun k hk hs hm => ?_
  · refine ⟨.inl, fun hy => hy.elim id ?_⟩
    rintro ⟨rfl, hy⟩
    rcases hinner with hd | ⟨k, hk, hle, _⟩
    · exact List.mem_append_left _ hd
    · exact absurd hk (hy.ne_group hle)
  · exact hinner.imp_left (h.old_done inner)
  · by_cases hka : k = a.size
    · rw [hka, draft_openGroup] at hm
      exact hxi (List.singleton_inj.1 hm)
    · rw [draft_openGroup_eq a hka] at hs hm
      exact hsingle k hk hs hm

/-- What is left of a free group that is closed can go into a new group: it is an item or the group
itself, and the only member of no group but a shadow. -/
theorem close (h : Layer b done a) {g : Nat} (hg : Free b a g) :
    Layer b done (a.close g).1 ∧
      ((a.close g).2 ∈ done ∨
        ∃ k, (a.close g).2 = .group k ∧ b.size ≤ k ∧ k < (a.close g).1.size) ∧
      ∀ k, b.size ≤ k → ((a.close g).1.draft k).shadow = false →
        ((a.close g).1.draft k).members ≠ [(a.close g).2] := by
  unfold Arena.close
  by_cases hb : (a.draft g).isBareShadow = true
  · rw [if_pos hb]
    obtain ⟨hshadow, y, hy⟩ := (Draft.isBareShadow_iff _).1 hb
    have hmem : y ∈ (a.draft g).members := hy ▸ List.mem_singleton.2 rfl
    have hfields : ∀ k, ((a.update g ({ · with discarded := true })).draft k).shadow =
        (a.draft k).shadow ∧
        ((a.update g ({ · with discarded := true })).draft k).members = (a.draft k).members := by
      intro k
      rw [draft_update]
      split <;> exact ⟨rfl, rfl⟩
    rw [hy]
    refine ⟨h.discard hb, .inl (h.bare g hg.size_le hb y hmem), fun k hk hs hm => ?_⟩
    rw [(hfields k).1] at hs
    rw [(hfields k).2] at hm
    have hgk : g = k := h.single k y hk hs hm g hg.size_le hmem
    rw [← hgk, hshadow] at hs
    exact absurd hs.symm Bool.false_ne_true
  · rw [if_neg hb]
    refine ⟨h, .inr ⟨g, rfl, hg.size_le, hg.lt_size⟩, fun k hk _ hm => ?_⟩
    exact h.ne_of_mem hg hk (hm ▸ List.mem_singleton.2 rfl) rfl

theorem close_ne (h : Layer b done a) {g : Nat} (hg : Free b a g) :
    (a.close g).2 ≠ .group (a.close g).1.size := by
  obtain ⟨hlayer, hinner, _⟩ := h.close hg
  rcases hinner with hd | ⟨k, hk, _, hlt⟩
  · exact (hlayer.old_done _ hd).ne_group hlayer.size_le
  · rw [hk]
    intro he
    have hkl : k = (a.close g).1.size := Item.group.inj he
    omega

end Layer

/-! ### Steps and runs -/

/-- The item comes next: it is new and starts no earlier than those that were taken. -/
structure Next (b : Arena) (done : List Item) (x : Item) : Prop where
  holds : b.Holds x
  new : x ∉ done
  start_le : ∀ y ∈ done, (b.span y).start ≤ (b.span x).start

/-- The next item starts no earlier than any new group. -/
theorem Layer.start_le_next (h : Layer b done a) {x : Item} (hx : Next b done x) {g : Nat}
    (hg : Free b a g) : (a.draft g).span.start ≤ (a.span x).start := by
  obtain ⟨y, hy, hle⟩ := h.exists_start_le hg.size_le hg.lt_size
  rw [h.span_eq hx.holds]
  exact Std.le_trans hle (hx.start_le y hy)

/-- What holds of a conjunctive sweep that has taken the items `done`. -/
structure Sweep.Sound (b : Arena) (done : List Item) (s : Sweep) : Prop where
  layer : Layer b done s.arena
  head : ∀ g ∈ s.heads.head?, Free b s.arena g

/-- What holds of a disjunctive sweep that has taken the items `done`. -/
structure Union.Sound (b : Arena) (done : List Item) (u : Union) : Prop where
  layer : Layer b done u.arena
  current : ∀ g ∈ u.current, Free b u.arena g

theorem Union.Sound.step {u : Union} (h : u.Sound b done) {x : Item} (hx : Next b done x) :
    (u.step x).Sound b (done ++ [x]) := by
  have hopen : Sound b (done ++ [x]) ⟨u.arena.openGroup x false, some u.arena.size⟩ := by
    refine ⟨h.layer.openNext hx.holds hx.new, fun g hg => ?_⟩
    obtain rfl : u.arena.size = g := Option.some.inj hg
    exact .openGroup h.layer.size_le x false
  unfold Union.step
  cases hcurrent : u.current with
  | none => exact hopen
  | some g =>
    have hfree : Free b u.arena g := h.current g hcurrent
    dsimp only
    split
    · rw [stretch_adopt (h.layer.start_le_next hx hfree)]
      refine ⟨h.layer.joinNext hfree hx.holds hx.new, fun k hk => ?_⟩
      obtain rfl : g = k := Option.some.inj hk
      exact hfree.takeIn (hx.holds.ne_group hfree.size_le) _
    · exact hopen

theorem Sweep.extend_eq {s : Sweep} {head : Nat} {x : Item}
    (hstart : (s.arena.draft head).span.start ≤ (s.arena.span x).start)
    (hreach : (s.arena.draft head).span.stop < (s.arena.span x).stop) :
    s.extend head x =
      let span := (s.arena.draft head).span.hull (s.arena.span x)
      start { s with arena := s.arena.takeIn head x span } x true := by
  have hmax : (s.arena.span x).stop =
      max (s.arena.draft head).span.stop (s.arena.span x).stop := by
    rw [Std.max_eq_if, if_neg (Std.not_le.2 hreach)]
  unfold Sweep.extend
  dsimp only
  rw [← stretch_adopt hstart, ← hmax]

/-- A group around an item, once it is known what is left of the head. -/
theorem Sweep.arena_enclose {s : Sweep} {head : Nat} {inner : Item}
    (h : s.arena.close head = (a, inner)) (below : List Nat) (x : Item) :
    (s.enclose head below x).arena =
      (a.openGroup x false).takeIn a.size inner
        (((a.openGroup x false).draft a.size).span.hull ((a.openGroup x false).span inner)) := by
  unfold Sweep.enclose
  rw [h]
  dsimp only
  rw [widen_adopt]

namespace Sweep.Sound

variable {s : Sweep} {x : Item}

/-- The latest head stretches over the item, and a shadow of the item becomes the head. -/
theorem extend (h : s.Sound b done) (hx : Next b done x) {head : Nat} (hfree : Free b s.arena head)
    (hreach : (s.arena.draft head).span.stop < (s.arena.span x).stop) :
    (s.extend head x).Sound b (done ++ [x]) := by
  have hjoin := h.layer.joinNext hfree hx.holds hx.new
  rw [Sweep.extend_eq (h.layer.start_le_next hx hfree) hreach]
  refine ⟨hjoin.openShadow hfree.size_le ?_ (h.layer.members_takeIn_ne hfree x x _) ?_,
    fun g hg => ?_⟩
  · exact (mem_takeIn hfree.lt_size x x _ head).2 (.inr ⟨rfl, rfl⟩)
  · exact List.mem_append_right _ (List.mem_singleton.2 rfl)
  · obtain rfl := Option.some.inj hg
    exact .openGroup hjoin.size_le x true

/-- A group around the item takes in the latest head, or the item of which that is a bare shadow. -/
theorem enclose (h : s.Sound b done) (hx : Next b done x) {head : Nat}
    (hfree : Free b s.arena head) (below : List Nat) :
    (s.enclose head below x).Sound b (done ++ [x]) := by
  obtain ⟨hlayer, hinner, hsingle⟩ := h.layer.close hfree
  unfold Sweep.enclose
  dsimp only
  refine ⟨hlayer.wrapNext hx.holds hx.new hinner hsingle, fun g hg => ?_⟩
  obtain rfl : (s.arena.close head).1.size = g := Option.some.inj hg
  rw [widen_adopt]
  exact (Free.openGroup hlayer.size_le x false).takeIn (h.layer.close_ne hfree) _

theorem start (h : s.Sound b done) (hx : Next b done x) (heads : List Nat) :
    (Sweep.start { s with heads } x false).Sound b (done ++ [x]) := by
  refine ⟨h.layer.openNext hx.holds hx.new, fun g hg => ?_⟩
  obtain rfl : s.arena.size = g := Option.some.inj hg
  exact .openGroup h.layer.size_le x false

theorem step (h : s.Sound b done) (hx : Next b done x) : (s.step x).Sound b (done ++ [x]) := by
  cases hheads : s.heads with
  | nil =>
    rw [step_nil hheads]
    exact h.start hx s.heads
  | cons head below =>
    have hfree : Free b s.arena head := h.head head (by rw [hheads]; rfl)
    rw [step_cons hheads]
    split
    · exact h.start hx below
    · split
      next hreach => exact h.extend hx hfree hreach
      next => exact h.enclose hx hfree below

end Sweep.Sound

theorem next_of_pairwise {x : Item} {rest : List Item} (hitems : ∀ y ∈ done ++ x :: rest, b.Holds y)
    (hnodup : (done ++ x :: rest).Nodup)
    (hsorted : (done ++ x :: rest).Pairwise fun y z => (b.span y).start ≤ (b.span z).start) :
    Next b done x where
  holds := hitems x (by simp)
  new hx := (List.nodup_append.1 hnodup).2.2 x hx x List.mem_cons_self rfl
  start_le y hy := (List.pairwise_append.1 hsorted).2.2 y hy x List.mem_cons_self

theorem foldl_sound {σ : Type} {step : σ → Item → σ} {P : List Item → σ → Prop}
    (hstep : ∀ done s x, P done s → Next b done x → P (done ++ [x]) (step s x))
    {items : List Item} (hitems : ∀ y ∈ items, b.Holds y) {s : σ} (h : P [] s) :
    P (b.sorted items) ((b.sorted items).foldl step s) := by
  have hrun : ∀ (rest done : List Item) (s : σ), P done s →
      (∀ y ∈ done ++ rest, b.Holds y) → (done ++ rest).Nodup →
      ((done ++ rest).Pairwise fun y z => (b.span y).start ≤ (b.span z).start) →
      P (done ++ rest) (rest.foldl step s) := by
    intro rest
    induction rest with
    | nil =>
      intro done s hs _ _ _
      rw [List.append_nil]
      exact hs
    | cons x rest ih =>
      intro done s hs hholds hnodup hsorted
      have hnext := hstep done s x hs (next_of_pairwise hholds hnodup hsorted)
      rw [List.append_cons] at hholds hnodup hsorted ⊢
      exact ih (done ++ [x]) (step s x) hnext hholds hnodup hsorted
  exact hrun (b.sorted items) [] s h (fun y hy => hitems y (mem_sorted.1 hy)) (b.nodup_sorted items)
    (b.pairwise_sorted items)

/-- After the conjunctive sweep, all items are recorded. -/
theorem layer_andSweep (a : Arena) {items : List Item} (hitems : ∀ y ∈ items, a.Holds y) :
    Layer a (a.sorted items) ((a.sorted items).foldl Sweep.step ⟨a, []⟩).arena :=
  (foldl_sound (P := Sweep.Sound a) (fun _ _ _ hs hx => hs.step hx) hitems
    ⟨.start a, fun _ hg => absurd hg (by simp)⟩).layer

theorem layer_orSweep (a : Arena) {items : List Item} (hitems : ∀ y ∈ items, a.Holds y) :
    Layer a (a.sorted items) ((a.sorted items).foldl Union.step ⟨a, none⟩).arena :=
  (foldl_sound (P := Union.Sound a) (fun _ _ _ hs hx => hs.step hx) hitems
    ⟨.start a, fun _ hg => absurd hg (by simp)⟩).layer

end Outlier.Arena
