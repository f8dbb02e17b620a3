import Outlier.Grouping
import Outlier.Proofs.Grouping.Inside

/-! # Trees

A group is written as a tree of anomalies. Its nodes for nested groups have no component, those for
candidates have one, since a leaf selects by it; so the nodes that a pass has written can be told
from what a candidate owns itself (`Anomaly.Below`). In a ranked arena the nodes below the root are
exactly those for the items that lie in the group (`below_tree`). -/

namespace Outlier

/-- The anomaly `t` is written below the group anomaly `g`, at any depth. What a candidate owns does
not count: only an anomaly without component is a group. -/
inductive Anomaly.Below (t : Anomaly) : Anomaly → Prop where
  | child {g : Anomaly} (ht : t ∈ g.children) : Below t g
  | deeper {g c : Anomaly} (hc : c ∈ g.children) (hgroup : c.component? = none) (ht : Below t c) :
      Below t g

/-- The anomaly by its span alone, shown below a group. -/
def Anomaly.outline (t : Anomaly) : Anomaly :=
  { Anomaly.synthetic t.startTime t.endTime with isChild := true }

namespace Arena

variable {a : Arena}

/-- What is written for a member of a group. -/
def node (a : Arena) : Item → Anomaly
  | .candidate i => (a.candidate i).asChild
  | .group h => a.tree h true

theorem tree_eq (ha : a.Ranked) (g : Nat) (isChild : Bool) :
    a.tree g isChild =
      { Anomaly.synthetic (a.draft g).span.start (a.draft g).span.stop with
        isChild
        children := (a.draft g).members.map a.node } := by
  rw [tree]
  refine congrArg (fun cs => ({ Anomaly.synthetic (a.draft g).span.start (a.draft g).span.stop with
    isChild, children := cs } : Anomaly)) (List.map_congr_left fun x hx => ?_)
  cases x with
  | candidate i => rfl
  | group h => exact if_pos (ha g h hx)

theorem children_tree (ha : a.Ranked) (g : Nat) (isChild : Bool) :
    (a.tree g isChild).children = (a.draft g).members.map a.node := by
  rw [tree_eq ha]

theorem span_tree (ha : a.Ranked) (g : Nat) (isChild : Bool) :
    (a.tree g isChild).span = (a.draft g).span := by
  rw [tree_eq ha]
  rfl

theorem isChild_tree (ha : a.Ranked) (g : Nat) (isChild : Bool) :
    (a.tree g isChild).isChild = isChild := by
  rw [tree_eq ha]

theorem component?_tree (ha : a.Ranked) (g : Nat) (isChild : Bool) :
    (a.tree g isChild).component? = none := by
  rw [tree_eq ha]
  exact Table.get?_empty _

theorem span_node (ha : a.Ranked) (x : Item) : (a.node x).span = a.span x := by
  cases x with
  | candidate i => rfl
  | group h => exact span_tree ha h true

theorem isChild_node (ha : a.Ranked) (x : Item) : (a.node x).isChild = true := by
  cases x with
  | candidate i => rfl
  | group h => exact isChild_tree ha h true

/-- The candidates in the group have a component. -/
def Named (a : Arena) (g : Nat) : Prop :=
  ∀ i, a.Inside (.candidate i) g → (a.candidate i).component? ≠ none

theorem group_of_component? {g : Nat} (hn : a.Named g) {x : Item} (hx : a.Inside x g)
    (hc : (a.node x).component? = none) : ∃ h, x = .group h := by
  cases x with
  | candidate i => exact absurd hc (hn i hx)
  | group h => exact ⟨h, rfl⟩

/-- Below the root of a tree are the nodes for what lies in the group. -/
theorem below_tree (ha : a.Ranked) {g : Nat} (hn : a.Named g) (isChild : Bool) (t : Anomaly) :
    t.Below (a.tree g isChild) ↔ ∃ x, a.Inside x g ∧ t = a.node x := by
  constructor
  · intro ht
    induction g using Nat.strongRecOn generalizing isChild with
    | ind g ih =>
      have hchildren := children_tree ha g isChild
      rcases ht with ht | ⟨hc, hgroup, ht⟩
      · rw [hchildren] at ht
        obtain ⟨x, hx, rfl⟩ := List.mem_map.1 ht
        exact ⟨x, .member hx, rfl⟩
      · rw [hchildren] at hc
        obtain ⟨y, hy, rfl⟩ := List.mem_map.1 hc
        obtain ⟨h, rfl⟩ := group_of_component? hn (.member hy) hgroup
        obtain ⟨x, hx, rfl⟩ := ih h (ha g h hy) (fun i hi => hn i (.inner hy hi)) true ht
        exact ⟨x, .inner hy hx, rfl⟩
  · rintro ⟨x, hx, rfl⟩
    clear hn
    induction hx generalizing isChild with
    | @member g hx =>
      refine .child ?_
      rw [children_tree ha]
      exact List.mem_map.2 ⟨x, hx, rfl⟩
    | @inner g h hh _ ih =>
      refine .deeper (c := a.node (.group h)) ?_ (component?_tree ha h true) (ih true)
      rw [children_tree ha]
      exact List.mem_map.2 ⟨_, hh, rfl⟩

theorem below_trees (ha : a.Ranked) {tops : List Nat} (hn : ∀ k ∈ tops, a.Named k) (t : Anomaly) :
    (∃ top ∈ tops.map fun k => a.tree k false, t.Below top) ↔
      ∃ x, (∃ k ∈ tops, a.Inside x k) ∧ t = a.node x := by
  constructor
  · rintro ⟨top, htop, ht⟩
    obtain ⟨k, hk, rfl⟩ := List.mem_map.1 htop
    obtain ⟨x, hx, rfl⟩ := (below_tree ha (hn k hk) false t).1 ht
    exact ⟨x, ⟨k, hk, hx⟩, rfl⟩
  · rintro ⟨x, ⟨k, hk, hx⟩, rfl⟩
    exact ⟨_, List.mem_map.2 ⟨k, hk, rfl⟩, (below_tree ha (hn k hk) false _).2 ⟨x, hx, rfl⟩⟩

end Arena
end Outlier
