import Outlier.Grouping.Arena
import Outlier.Trigger.Expression

/-! # Merging two selections

Both operators sweep once over the items of the two sides in order of their starts. `Arena.orMerge`
makes one group of every run of items that overlap what came before. `Arena.andMerge` looks at each
item against the latest head, the group that was opened last:

* an item that starts after the head ends opens a new group;
* an item that ends after the head stretches it and joins it, and a shadow of the item becomes the
  new head;
* any other item is enclosed: a new group holds the item and the head, spans both and becomes the
  new head.

Shadows that nothing joins are dropped at the end. -/

namespace Outlier.Arena

/-- The state of a conjunctive sweep: the arena and the groups opened as heads, latest first. -/
structure Sweep where
  arena : Arena
  heads : List Nat := []

namespace Sweep

/-- Open a group as the latest head. -/
def start (s : Sweep) (x : Item) (shadow : Bool) : Sweep :=
  ⟨s.arena.openGroup x shadow, s.arena.size :: s.heads⟩

/-- The item starts after the head ends. -/
def breakOff (s : Sweep) (below : List Nat) (x : Item) : Sweep :=
  start { s with heads := below } x false

/-- The item ends after the head. -/
def extend (s : Sweep) (head : Nat) (x : Item) : Sweep :=
  let stretched := s.arena.stretch head (s.arena.span x).stop
  start { s with arena := stretched.adopt head x } x true

/-- The item lies inside the reach of the head. -/
def enclose (s : Sweep) (head : Nat) (below : List Nat) (x : Item) : Sweep :=
  let (arena, inner) := s.arena.close head
  let opened := arena.openGroup x false
  let wrapper := arena.size
  ⟨(opened.widen wrapper (opened.span inner)).adopt wrapper inner, wrapper :: below⟩

/-- One item of the sweep. -/
def step (s : Sweep) (x : Item) : Sweep :=
  match s.heads with
  | [] => s.start x false
  | head :: below =>
    let reach := (s.arena.draft head).span.stop
    let span := s.arena.span x
    if reach < span.start then s.breakOff below x
    else if reach < span.stop then s.extend head x
    else s.enclose head below x

variable {s : Sweep}

theorem step_nil (h : s.heads = []) (x : Item) : s.step x = s.start x false := by
  simp only [step, h]

theorem step_cons {head : Nat} {below : List Nat} (h : s.heads = head :: below) (x : Item) :
    s.step x =
      if (s.arena.draft head).span.stop < (s.arena.span x).start then s.breakOff below x
      else if (s.arena.draft head).span.stop < (s.arena.span x).stop then s.extend head x
      else s.enclose head below x := by
  simp only [step, h]

end Sweep

/-- The items of both sides that belong together in time, joined where they overlap. -/
def andMerge (a : Arena) (left right : List Item) : Arena × List Item :=
  ((a.sorted (left ++ right)).foldl Sweep.step ⟨a, []⟩).arena.collect a.size

/-- The state of a disjunctive sweep: the arena and the group that is still growing. -/
structure Union where
  arena : Arena
  current : Option Nat := none

namespace Union

/-- One item of the sweep: it joins the growing group when it starts within it, and opens a new one
otherwise. -/
def step (u : Union) (x : Item) : Union :=
  let span := u.arena.span x
  let fresh : Union := ⟨u.arena.openGroup x false, some u.arena.size⟩
  match u.current with
  | none => fresh
  | some g =>
    let reach := (u.arena.draft g).span.stop
    if span.start ≤ reach then ⟨(u.arena.stretch g (max reach span.stop)).adopt g x, some g⟩
    else fresh

end Union

/-- The items of both sides, one group for every run of overlapping ones. -/
def orMerge (a : Arena) (left right : List Item) : Arena × List Item :=
  ((a.sorted (left ++ right)).foldl Union.step ⟨a, none⟩).arena.collect a.size

/-- Merge two selections as the operator says. -/
def merge (a : Arena) : Operator → List Item → List Item → Arena × List Item
  | .and => a.andMerge
  | .or => a.orMerge

end Outlier.Arena
