import Outlier.Proofs.Grouping.Evaluation
import Outlier.Proofs.Grouping.Weight

/-! # What a merge writes

Each item of a merge pays a toll. It covers the two groups that an item can be put in, the one that
it joins and the one that is opened for it, and the root of the latter. A sweep never spends more on
an item than its toll (`Covered`), so that what a merge leaves weighs no more than the tolls of its
items, and no more groups were opened than there are items (`exists_covered_merge`). -/

namespace Outlier.Arena

variable {a b : Arena} {done : List Item} {x : Item} {g : Nat}

/-- What a merge spends on an item at most. -/
def toll (b : Arena) (x : Item) : Nat := b.weight x + (b.weight x + 1)

/-- The tolls of the items `done` cover what a merge that began in `b` has made of them in `a`. -/
structure Covered (b : Arena) (done : List Item) (a : Arena) : Prop where
  standing_le : standing b a ≤ (done.map b.toll).sum
  size_le : a.size ≤ b.size + done.length

namespace Covered

theorem start (b : Arena) : Covered b [] b where
  standing_le := by
    rw [standing_self]
    exact Nat.zero_le _
  size_le := Nat.le_refl _

/-- The toll of the next item covers one more group and as much more weight. -/
theorem next (h : Covered b done a) {c : Arena} (hstanding : standing b c ≤ standing b a + b.toll x)
    (hsize : c.size ≤ a.size + 1) : Covered b (done ++ [x]) c where
  standing_le := by
    have hle := h.standing_le
    rw [List.map_append, List.sum_append, List.map_singleton, List.sum_singleton]
    omega
  size_le := by
    have hle := h.size_le
    rw [List.length_append, List.length_singleton]
    omega

end Covered

/-! ### Steps -/

namespace Layer

theorem not_member (h : Layer b done a) (hb : b.Ranked) (hg : Free b a g) (k : Nat) :
    .group g ∉ (a.draft k).members :=
  fun hm => h.not_inside_of_free hb hg.size_le hg.adopted k (.member hm)

theorem standing_openNext (h : Layer b done a) (hb : b.Ranked) (hx : b.Holds x) (hnew : x ∉ done) :
    standing b (a.openGroup x false) = standing b a + (b.weight x + 1) := by
  have ha := h.ranked hb
  rw [standing_openGroup h.size_le hx ha ((h.openNext hx hnew).ranked hb), h.weight_eq hb ha hx]

theorem standing_joinNext (h : Layer b done a) (hb : b.Ranked) (hg : Free b a g) (hx : b.Holds x)
    (hnew : x ∉ done) :
    standing b (a.takeIn g x ((a.draft g).span.hull (a.span x))) ≤ standing b a + b.weight x := by
  have ha := h.ranked hb
  have hle := standing_takeIn ha ((h.joinNext hg hx hnew).ranked hb) hg (h.not_member hb hg)
  rw [h.weight_eq hb ha hx] at hle
  omega

end Layer

theorem Union.Sound.covered_step {u : Union} (h : u.Sound b done) (hb : b.Ranked)
    (hc : Covered b done u.arena) (hx : Next b done x) :
    Covered b (done ++ [x]) (u.step x).arena := by
  have hopen : Covered b (done ++ [x]) (u.arena.openGroup x false) := by
    have hstanding := h.layer.standing_openNext hb hx.holds hx.new
    refine hc.next ?_ (Nat.le_of_eq (size_openGroup ..))
    rw [hstanding, toll]
    omega
  unfold Union.step
  cases hcurrent : u.current with
  | none => exact hopen
  | some g =>
    have hfree : Free b u.arena g := h.current g hcurrent
    dsimp only
    split
    · rw [stretch_adopt (h.layer.start_le_next hx hfree)]
      refine hc.next ((h.layer.standing_joinNext hb hfree hx.holds hx.new).trans ?_) ?_
      · rw [toll]
        omega
      · rw [size_takeIn]
        exact Nat.le_succ _
    · exact hopen

namespace Sweep.Sound

variable {s : Sweep} {head : Nat}

/-- A group that is opened for the item costs its weight and one. -/
theorem covered_start (h : s.Sound b done) (hb : b.Ranked) (hc : Covered b done s.arena)
    (hx : Next b done x) (heads : List Nat) :
    Covered b (done ++ [x]) (Sweep.start { s with heads } x false).arena := by
  have hstanding := h.layer.standing_openNext hb hx.holds hx.new
  refine hc.next ?_ (Nat.le_of_eq (size_openGroup ..))
  rw [toll, Sweep.start, hstanding]
  omega

/-- An item that joins the head is put in its own shadow too, which takes its whole toll. -/
theorem covered_extend (h : s.Sound b done) (hb : b.Ranked) (hc : Covered b done s.arena)
    (hx : Next b done x) (hfree : Free b s.arena head)
    (hreach : (s.arena.draft head).span.stop < (s.arena.span x).stop) :
    Covered b (done ++ [x]) (s.extend head x).arena := by
  have hjoin := h.layer.joinNext hfree hx.holds hx.new
  have hlayer := (h.extend hx hfree hreach).layer
  rw [Sweep.extend_eq (h.layer.start_le_next hx hfree) hreach] at hlayer ⊢
  have hopened := standing_openGroup hjoin.size_le hx.holds (hjoin.ranked hb) (hlayer.ranked hb)
  have hjoined := h.layer.standing_joinNext hb hfree hx.holds hx.new
  rw [hjoin.weight_eq hb (hjoin.ranked hb) hx.holds] at hopened
  refine hc.next ?_ ?_
  · rw [toll, Sweep.start, hopened]
    omega
  · rw [Sweep.start, size_openGroup, size_takeIn]

/-- A bare shadow that is closed gives its item to the group around the next one, which it pays for
by its own root. -/
theorem standing_enclose_bare (h : s.Sound b done) (hb : b.Ranked) (hx : Next b done x)
    (hfree : Free b s.arena head) (below : List Nat)
    (hbare : (s.arena.draft head).isBareShadow = true) :
    standing b (s.enclose head below x).arena ≤ standing b s.arena + b.weight x := by
  obtain ⟨_, y, hy⟩ := (Draft.isBareShadow_iff _).1 hbare
  have hclose : s.arena.close head = (s.arena.update head ({ · with discarded := true }), y) := by
    unfold close
    rw [if_pos hbare, hy]
    rfl
  have hlayer := (h.enclose hx hfree below).layer
  have hdiscard := h.layer.discard hbare
  have hopen := hdiscard.openNext hx.holds hx.new
  have ha := h.layer.ranked hb
  have hyold : b.Holds y := by
    have hyd : y ∈ done := h.layer.bare head hfree.size_le hbare y (hy ▸ List.mem_singleton_self y)
    exact h.layer.old_done y hyd
  have hnew := Free.openGroup hdiscard.size_le x false
  rw [Sweep.arena_enclose hclose] at hlayer ⊢
  have hdiscarded := standing_discard ha (hdiscard.ranked hb) hfree hy
  have hopened := hdiscard.standing_openNext hb hx.holds hx.new
  have hjoined := standing_takeIn (hopen.ranked hb) (hlayer.ranked hb) hnew
    (hopen.not_member hb hnew)
  rw [h.layer.weight_eq hb ha hyold] at hdiscarded
  rw [hopen.weight_eq hb (hopen.ranked hb) hyold] at hjoined
  omega

/-- Any other head goes into the group around the next item at no cost. -/
theorem standing_enclose_group (h : s.Sound b done) (hb : b.Ranked) (hx : Next b done x)
    (hfree : Free b s.arena head) (below : List Nat)
    (hbare : ¬ (s.arena.draft head).isBareShadow = true) :
    standing b (s.enclose head below x).arena ≤ standing b s.arena + (b.weight x + 1) := by
  have hclose : s.arena.close head = (s.arena, .group head) := by
    unfold close
    rw [if_neg hbare]
  have hlayer := (h.enclose hx hfree below).layer
  have hopen := h.layer.openNext hx.holds hx.new
  have hnew := Free.openGroup h.layer.size_le x false
  have hkept := hfree.openGroup_of_ne (hx.holds.ne_group hfree.size_le) false
  rw [Sweep.arena_enclose hclose] at hlayer ⊢
  have hopened := h.layer.standing_openNext hb hx.holds hx.new
  have hjoined := standing_takeIn_group (hopen.ranked hb) (hlayer.ranked hb) hnew hkept
    (hopen.not_member hb hnew)
  omega

theorem covered_enclose (h : s.Sound b done) (hb : b.Ranked) (hc : Covered b done s.arena)
    (hx : Next b done x) (hfree : Free b s.arena head) (below : List Nat) :
    Covered b (done ++ [x]) (s.enclose head below x).arena := by
  refine hc.next ?_ ?_
  · rw [toll]
    by_cases hbare : (s.arena.draft head).isBareShadow = true
    · have hle := h.standing_enclose_bare hb hx hfree below hbare
      omega
    · have hle := h.standing_enclose_group hb hx hfree below hbare
      omega
  · unfold Sweep.enclose
    dsimp only
    rw [size_adopt, size_widen, size_openGroup, size_close]

theorem covered_step (h : s.Sound b done) (hb : b.Ranked) (hc : Covered b done s.arena)
    (hx : Next b done x) : Covered b (done ++ [x]) (s.step x).arena := by
  cases hheads : s.heads with
  | nil =>
    rw [step_nil hheads]
    exact h.covered_start hb hc hx s.heads
  | cons head below =>
    have hfree : Free b s.arena head := h.head head (by rw [hheads]; rfl)
    rw [step_cons hheads]
    split
    · exact h.covered_start hb hc hx below
    · split
      next hreach => exact h.covered_extend hb hc hx hfree hreach
      next => exact h.covered_enclose hb hc hx hfree below

end Sweep.Sound

/-! ### Merges -/

/-- A merge is a layer that the tolls of its items cover, of which the results are collected. -/
theorem exists_covered_merge {c : Arena} (hc : c.Ranked) (op : Operator) {left right : List Item}
    (hitems : ∀ x ∈ left ++ right, c.Holds x) :
    ∃ d, Layer c (c.sorted (left ++ right)) d ∧ Covered c (c.sorted (left ++ right)) d ∧
      c.merge op left right = ((d.results c.size).foldl markFree d, d.results c.size) := by
  cases op with
  | and =>
    have hrun := foldl_sound
      (P := fun done (s : Sweep) => s.Sound c done ∧ Covered c done s.arena)
      (fun _ _ _ h hx => ⟨h.1.step hx, h.1.covered_step hc h.2 hx⟩) hitems (s := ⟨c, []⟩)
      ⟨⟨.start c, fun _ hg => absurd hg (by simp)⟩, .start c⟩
    exact ⟨_, hrun.1.layer, hrun.2, rfl⟩
  | or =>
    have hrun := foldl_sound
      (P := fun done (u : Union) => u.Sound c done ∧ Covered c done u.arena)
      (fun _ _ _ h hx => ⟨h.1.step hx, h.1.covered_step hc h.2 hx⟩) hitems (s := ⟨c, none⟩)
      ⟨⟨.start c, fun _ hg => absurd hg (by simp)⟩, .start c⟩
    exact ⟨_, hrun.1.layer, hrun.2, rfl⟩

/-- What a merge leaves weighs no more than the tolls of its items, when the marks are set. -/
theorem Layer.sum_weight_le {c d : Arena} (h : Layer c done d) (hc : c.Ranked)
    (hcovered : Covered c done d) :
    ((d.results c.size).map ((d.results c.size).foldl markFree d).weight).sum ≤
      (done.map c.toll).sum := by
  have hd := h.ranked hc
  have hfree := (Grows.refl d).foldl_markFree (d.results c.size)
  have hsame : ∀ r ∈ d.results c.size,
      ((d.results c.size).foldl markFree d).weight r = d.weight r := by
    intro r hr
    obtain ⟨g, rfl, _, hlt⟩ := h.group_of_mem_results hr
    refine hfree.weight_eq hd (hd.foldl_markFree _) ?_
    rintro _ ⟨⟩
    exact hlt
  rw [List.map_congr_left hsame]
  exact (h.sum_results_le hd).trans hcovered.standing_le

end Outlier.Arena
