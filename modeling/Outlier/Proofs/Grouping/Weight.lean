import Mathlib.Algebra.BigOperators.Group.Finset.Piecewise
import Mathlib.Algebra.BigOperators.Intervals
import Mathlib.Algebra.Order.BigOperators.Group.Finset
import Outlier.Proofs.Grouping.Remains
import Outlier.Proofs.Grouping.Trees

/-! # Weights

The weight of an item is the number of nodes of the tree that is written for it, a candidate with
its own children. A group weighs one more than its members together (`weight_group`), however often
they are members elsewhere.

What a merge may still write is the weight of its groups that stand by themselves: those that lie in
no other and were not discarded (`standing`). Opening a group for an item adds the weight of the
item and one, an item that joins a group adds its weight, and a standing group that goes into
another takes its weight along. In the end the results weigh no more than what stands by itself
(`Layer.sum_results_le`). -/

namespace Outlier

namespace Anomaly

theorem nodes_eq (x : Anomaly) : x.nodes = nodesAll x.children + 1 := by
  cases x
  rw [nodes]

theorem nodesAll_eq_sum (l : List Anomaly) : nodesAll l = (l.map nodes).sum := by
  induction l with
  | nil => rw [nodesAll, List.map_nil, List.sum_nil]
  | cons x rest ih => rw [nodesAll, List.map_cons, List.sum_cons, ih]

theorem nodesAll_append (l l' : List Anomaly) : nodesAll (l ++ l') = nodesAll l + nodesAll l' := by
  rw [nodesAll_eq_sum, nodesAll_eq_sum, nodesAll_eq_sum, List.map_append, List.sum_append]

@[simp] theorem nodes_asChild (x : Anomaly) : x.asChild.nodes = x.nodes := by
  rw [nodes_eq, nodes_eq]
  rfl

theorem length_le_nodesAll (l : List Anomaly) : l.length ≤ nodesAll l := by
  induction l with
  | nil => exact Nat.zero_le _
  | cons x rest ih =>
    rw [nodesAll, nodes_eq, List.length_cons]
    omega

end Anomaly

namespace Arena

variable {a b : Arena} {done : List Item}

/-- The number of nodes that are written for an item. -/
def weight (a : Arena) (x : Item) : Nat := (a.node x).nodes

theorem weight_candidate (i : Nat) : a.weight (.candidate i) = (a.candidate i).nodes :=
  Anomaly.nodes_asChild _

theorem nodes_tree (ha : a.Ranked) (g : Nat) (isChild : Bool) :
    (a.tree g isChild).nodes = ((a.draft g).members.map a.weight).sum + 1 := by
  rw [Anomaly.nodes_eq, children_tree ha, Anomaly.nodesAll_eq_sum, List.map_map]
  rfl

theorem weight_group (ha : a.Ranked) (g : Nat) :
    a.weight (.group g) = ((a.draft g).members.map a.weight).sum + 1 :=
  nodes_tree ha g true

/-- Groups that hold none but each other weigh the same in two arenas in which they have the same
members. -/
theorem weight_congr {a' : Arena} (ha : a.Ranked) (ha' : a'.Ranked)
    (hcandidates : a'.candidates = a.candidates) {p : Nat → Prop}
    (hmembers : ∀ g, p g → (a'.draft g).members = (a.draft g).members)
    (hclosed : ∀ g h, p g → .group h ∈ (a.draft g).members → p h) {x : Item}
    (hx : ∀ g, x = .group g → p g) : a'.weight x = a.weight x := by
  cases x with
  | candidate i =>
    rw [weight_candidate, weight_candidate, candidate, candidate, hcandidates]
  | group g =>
    have hg : p g := hx g rfl
    clear hx
    induction g using Nat.strongRecOn with
    | ind g ih =>
      rw [weight_group ha', weight_group ha, hmembers g hg]
      refine congrArg (·.sum + 1) (List.map_congr_left fun y hy => ?_)
      cases y with
      | candidate i => rw [weight_candidate, weight_candidate, candidate, candidate, hcandidates]
      | group h => exact ih h (ha g h hy) (hclosed g h hg hy)

/-- What was there keeps its weight as the arena grows. -/
theorem Grows.weight_eq (h : Grows b a) (hb : b.Ranked) (ha : a.Ranked) {x : Item}
    (hx : b.Holds x) : a.weight x = b.weight x :=
  weight_congr hb ha h.candidates h.old_members
    (fun g k hg hk => Nat.lt_trans (hb g k hk) hg) hx

/-! ### What stands by itself -/

/-- The weight of a group that stands by itself, and nothing for the others. -/
def charge (a : Arena) (g : Nat) : Nat :=
  if (a.draft g).adopted || (a.draft g).discarded then 0 else a.weight (.group g)

/-- The weight of the new groups that stand by themselves. -/
def standing (b a : Arena) : Nat := ∑ g ∈ Finset.Ico b.size a.size, a.charge g

theorem charge_of_free {g : Nat} (hg : Free b a g) : a.charge g = a.weight (.group g) := by
  unfold charge
  rw [hg.adopted, hg.discarded]
  rfl

theorem charge_congr {a' : Arena} {g : Nat} (hadopted : (a'.draft g).adopted = (a.draft g).adopted)
    (hdiscarded : (a'.draft g).discarded = (a.draft g).discarded)
    (hweight : a'.weight (.group g) = a.weight (.group g)) : a'.charge g = a.charge g := by
  unfold charge
  rw [hadopted, hdiscarded, hweight]

@[simp] theorem standing_self (b : Arena) : standing b b = 0 := by
  rw [standing, Finset.Ico_self, Finset.sum_empty]

theorem standing_openGroup (hsize : b.size ≤ a.size) {x : Item} {shadow : Bool} (hx : b.Holds x)
    (ha : a.Ranked) (ha' : (a.openGroup x shadow).Ranked) :
    standing b (a.openGroup x shadow) = standing b a + (a.weight x + 1) := by
  have hgrows := (Grows.refl a).openGroup x shadow
  have hnew : (a.openGroup x shadow).charge a.size = a.weight x + 1 := by
    rw [charge_of_free (.openGroup hsize x shadow), weight_group ha', draft_openGroup,
      List.map_singleton, List.sum_singleton, hgrows.weight_eq ha ha' (hx.mono hsize)]
  have hold : ∀ g ∈ Finset.Ico b.size a.size, (a.openGroup x shadow).charge g = a.charge g := by
    intro g hg
    obtain ⟨hbg, hga⟩ := Finset.mem_Ico.1 hg
    refine charge_congr (a.adopted_openGroup_of_ne (hx.ne_group hbg) shadow) ?_ ?_
    · rw [draft_openGroup_eq a (Nat.ne_of_lt hga)]
    · refine hgrows.weight_eq ha ha' ?_
      rintro _ ⟨⟩
      exact hga
  unfold standing
  rw [size_openGroup, Finset.sum_Ico_succ_top hsize, hnew, Finset.sum_congr rfl hold]

section

variable {g : Nat} {x : Item} {s : Span}

theorem weight_takeIn_of_ne (ha : a.Ranked) (ha' : (a.takeIn g x s).Ranked)
    (hapart : ∀ k, .group g ∉ (a.draft k).members) {y : Item} (hy : y ≠ .group g) :
    (a.takeIn g x s).weight y = a.weight y := by
  refine weight_congr (p := (· ≠ g)) ha ha' (a.candidates_takeIn g x s) (fun k hk => ?_)
    (fun k l _ hl => ?_) fun k hk => ?_
  · rw [draft_takeIn_of_ne a hk]
  · rintro rfl
    exact hapart k hl
  · rintro rfl
    exact hy hk

theorem weight_takeIn_self (ha : a.Ranked) (ha' : (a.takeIn g x s).Ranked) (hg : g < a.size)
    (hapart : ∀ k, .group g ∉ (a.draft k).members) :
    (a.takeIn g x s).weight (.group g) = a.weight (.group g) + a.weight x := by
  have hmembers : ((a.takeIn g x s).draft g).members = (a.draft g).members ++ [x] := by
    rw [draft_takeIn_self a hg]
  have hkept : ∀ y ∈ (a.draft g).members ++ [x], (a.takeIn g x s).weight y = a.weight y := by
    intro y hy
    refine weight_takeIn_of_ne ha ha' hapart ?_
    rintro rfl
    exact absurd (ha' g g (hmembers ▸ hy)) (Nat.lt_irrefl g)
  rw [weight_group ha', weight_group ha, hmembers, List.map_congr_left hkept, List.map_append,
    List.sum_append, List.map_singleton, List.sum_singleton]
  omega

/-- What joins a group adds its weight there, and takes it along from where it stood by itself. -/
theorem charge_takeIn (ha : a.Ranked) (ha' : (a.takeIn g x s).Ranked) (hg : g < a.size)
    (hapart : ∀ k, .group g ∉ (a.draft k).members) {k : Nat} (hk : k < a.size) :
    (a.takeIn g x s).charge k + (if x = .group k then a.charge k else 0) ≤
      a.charge k + (if k = g then a.weight x else 0) := by
  have hadopted := a.adopted_takeIn g x s hk
  by_cases hx : x = .group k
  · have hzero : (a.takeIn g x s).charge k = 0 := by
      unfold charge
      rw [hadopted.2 (.inr hx), Bool.true_or, if_pos rfl]
    rw [hzero, if_pos hx]
    omega
  · have hsame : ((a.takeIn g x s).draft k).adopted = (a.draft k).adopted := by
      rw [Bool.eq_iff_iff, hadopted, or_iff_left hx]
    rw [if_neg hx]
    by_cases hkg : k = g
    · subst hkg
      have hdiscarded : ((a.takeIn k x s).draft k).discarded = (a.draft k).discarded := by
        rw [draft_takeIn_self a hg]
      rw [if_pos rfl, charge, charge, hsame, hdiscarded, weight_takeIn_self ha ha' hg hapart]
      split <;> omega
    · have hdiscarded : ((a.takeIn g x s).draft k).discarded = (a.draft k).discarded := by
        rw [draft_takeIn_of_ne a hkg]
      have hweight : (a.takeIn g x s).weight (.group k) = a.weight (.group k) :=
        weight_takeIn_of_ne ha ha' hapart fun e => hkg (Item.group.inj e)
      rw [if_neg hkg, charge_congr hsame hdiscarded hweight]

/-- What joins a group that stands by itself adds its weight, less what stood by itself before. -/
theorem standing_takeIn (ha : a.Ranked) (ha' : (a.takeIn g x s).Ranked) (hg : Free b a g)
    (hapart : ∀ k, .group g ∉ (a.draft k).members) :
    standing b (a.takeIn g x s) +
        ∑ k ∈ Finset.Ico b.size a.size, (if x = .group k then a.charge k else 0) ≤
      standing b a + a.weight x := by
  have hsum := Finset.sum_le_sum fun k (hk : k ∈ Finset.Ico b.size a.size) =>
    charge_takeIn ha ha' hg.lt_size hapart (Finset.mem_Ico.1 hk).2
  rw [Finset.sum_add_distrib, Finset.sum_add_distrib, Finset.sum_ite_eq',
    if_pos (Finset.mem_Ico.2 ⟨hg.size_le, hg.lt_size⟩)] at hsum
  unfold standing
  rw [size_takeIn]
  exact hsum

/-- A group that goes into another takes its weight along. -/
theorem standing_takeIn_group {k : Nat} (ha : a.Ranked) (ha' : (a.takeIn g (.group k) s).Ranked)
    (hg : Free b a g) (hk : Free b a k) (hapart : ∀ k, .group g ∉ (a.draft k).members) :
    standing b (a.takeIn g (.group k) s) ≤ standing b a := by
  have hsum := standing_takeIn ha ha' hg hapart
  simp only [Item.group.injEq] at hsum
  rw [Finset.sum_ite_eq, if_pos (Finset.mem_Ico.2 ⟨hk.size_le, hk.lt_size⟩),
    charge_of_free hk] at hsum
  omega

theorem standing_discard (ha : a.Ranked)
    (ha' : (a.update g ({ · with discarded := true })).Ranked) (hg : Free b a g)
    (hmembers : (a.draft g).members = [x]) :
    standing b (a.update g ({ · with discarded := true })) + (a.weight x + 1) = standing b a := by
  have hdraft := fun k => a.draft_update g k ({ · with discarded := true })
  have hpoint : ∀ k ∈ Finset.Ico b.size a.size,
      (a.update g ({ · with discarded := true })).charge k +
        (if k = g then a.weight x + 1 else 0) = a.charge k := by
    intro k _
    by_cases hkg : k = g
    · subst hkg
      have hmark : ((a.update k ({ · with discarded := true })).draft k).discarded = true := by
        rw [hdraft, if_pos ⟨rfl, hg.lt_size⟩]
      rw [if_pos rfl, charge_of_free hg, weight_group ha, hmembers, charge, hmark, Bool.or_true,
        if_pos rfl, List.map_singleton, List.sum_singleton, Nat.zero_add]
    · rw [if_neg hkg, Nat.add_zero]
      have hsame : (a.update g ({ · with discarded := true })).draft k = a.draft k := by
        rw [hdraft, if_neg fun e => hkg e.1.symm]
      refine charge_congr (by rw [hsame]) (by rw [hsame]) ?_
      refine weight_congr (p := fun _ => True) ha ha' rfl (fun l _ => ?_) (fun _ _ _ _ => trivial)
        fun _ _ => trivial
      rw [hdraft]
      split <;> rfl
  have hsum := Finset.sum_congr rfl hpoint
  rw [Finset.sum_add_distrib, Finset.sum_ite_eq',
    if_pos (Finset.mem_Ico.2 ⟨hg.size_le, hg.lt_size⟩)] at hsum
  unfold standing
  rw [size_update]
  exact hsum

end

/-! ### Results -/

/-- A result weighs no more than the group of which it is the result. -/
theorem Layer.weight_result_le (h : Layer b done a) (ha : a.Ranked) {g : Nat} (hg : b.size ≤ g)
    {r : Item} (hr : a.result? g = some r) : a.weight r ≤ a.charge g := by
  obtain ⟨hadopted, hbare, hor⟩ := result?_eq_some hr
  have hcharge : a.charge g = a.weight (.group g) := by
    unfold charge
    rw [hadopted, h.discarded_of_not_bare hg hbare]
    rfl
  rw [hcharge]
  rcases hor with rfl | ⟨hm, _⟩
  · exact Nat.le_refl _
  · rw [weight_group ha, hm, List.map_singleton, List.sum_singleton]
    exact Nat.le_succ _

/-- What is selected from a list weighs no more than the list, if each of its items does. -/
theorem sum_filterMap_le {α β : Type} {f : α → Option β} {w : β → Nat} {c : α → Nat} (l : List α)
    (h : ∀ x ∈ l, ∀ y, f x = some y → w y ≤ c x) :
    ((l.filterMap f).map w).sum ≤ (l.map c).sum := by
  induction l with
  | nil => exact Nat.le_refl _
  | cons x rest ih =>
    have hrest := ih fun y hy => h y (List.mem_cons_of_mem _ hy)
    rw [List.filterMap_cons, List.map_cons, List.sum_cons]
    split
    · omega
    next y hy =>
      have hx := h x List.mem_cons_self y hy
      rw [List.map_cons, List.sum_cons]
      omega

/-- The results weigh no more than what stands by itself. -/
theorem Layer.sum_results_le (h : Layer b done a) (ha : a.Ranked) :
    ((a.results b.size).map a.weight).sum ≤ standing b a := by
  refine (sum_filterMap_le (c := a.charge) _ fun g hg r hr => ?_).trans (Nat.le_of_eq ?_)
  · exact h.weight_result_le ha (List.mem_range'_1.1 hg).1 hr
  · rw [standing, Finset.sum_eq_multiset_sum]
    exact (Multiset.sum_coe _).symm

end Arena
end Outlier
