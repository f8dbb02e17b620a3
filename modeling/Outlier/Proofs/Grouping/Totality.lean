import Outlier.Proofs.Grouping.Accounts
import Outlier.Proofs.Grouping.Checked

/-! # A pass never stops

The writing out of trees and listings stands here in a form that stops at what is not there and at
too many levels of nesting. Since the members of a group come before it, there are no more levels
than groups, and in a founded arena neither recursion stops (`tree?_of_lt`, `listBelow?_of_lt`).
With the same of an evaluation, a pass never stops, and all its merges are sound (`total_run`). -/

namespace Outlier

namespace Arena

variable {a : Arena} {x : Item} {g depth : Nat} {items : List Item}

/-! ### Trees -/

/-- The group anomaly for a group that has less than `depth` levels, each of them there. -/
def tree? (a : Arena) : Nat → Nat → Bool → Option Anomaly
  | 0, _, _ => none
  | depth + 1, g, isChild => do
    let d ← a.draft? g
    let children ← d.members.mapM fun
      | .candidate i => (a.candidate? i).map Anomaly.asChild
      | .group h => a.tree? depth h true
    some { Anomaly.synthetic d.span.start d.span.stop with isChild, children }

/-- A group at place `g` has at most `g` levels below it. -/
theorem tree?_of_lt (h : a.Founded) (hg : g < a.size) (hdepth : g < depth) (isChild : Bool) :
    a.tree? depth g isChild = some (a.tree g isChild) := by
  induction depth generalizing g isChild with
  | zero => exact absurd hdepth (Nat.not_lt_zero g)
  | succ depth ih =>
    rw [tree?, draft?_of_lt hg, tree_eq h.ranked, Option.bind_eq_bind, Option.bind_some]
    refine congrArg (· >>= _) (mapM_eq_some (f := a.node) fun x hx => ?_)
    have hunder := h.member g hg x hx
    cases x with
    | candidate i => exact congrArg (Option.map _) (candidate?_of_lt hunder)
    | group k =>
      have hk : k < g := hunder
      exact ih (by omega) (by omega) true

/-- A group in itself has no end of levels. -/
example : tree? { candidates := #[], groups := #[{ span := ⟨0, 9⟩, members := [.group 0] }] } 1 0
    false = none := rfl

/-! ### Listings -/

/-- Add all items below a group to a listing, if they are there and lie on less than `depth` levels.
-/
def listBelow? (a : Arena) : Nat → Nat → Listing → Option Listing
  | 0, _, _ => none
  | depth + 1, g, l => do
    let d ← a.draft? g
    d.members.foldlM (fun l x =>
      if x ∈ l.seen then some l
      else match x with
        | .candidate i => do
          let c ← a.candidate? i
          some ⟨x :: l.seen, l.listed ++ [c.asChild]⟩
        | .group h => do
          let d ← a.draft? h
          let outline := { Anomaly.synthetic d.span.start d.span.stop with isChild := true }
          a.listBelow? depth h ⟨x :: l.seen, l.listed ++ [outline]⟩) l

theorem listBelow?_of_lt (h : a.Founded) (hg : g < a.size) (hdepth : g < depth) (l : Listing) :
    a.listBelow? depth g l = some (a.listBelow g l) := by
  induction depth generalizing g l with
  | zero => exact absurd hdepth (Nat.not_lt_zero g)
  | succ depth ih =>
    rw [listBelow?, draft?_of_lt hg, listBelow_eq h.ranked]
    refine foldlM_eq_some (P := fun _ => True) (fun l _ x hx => ⟨?_, trivial⟩) trivial
    have hunder := h.member g hg x hx
    by_cases hseen : x ∈ l.seen
    · rw [if_pos hseen, if_pos hseen]
    · rw [if_neg hseen, if_neg hseen]
      cases x with
      | candidate i =>
        dsimp only
        rw [candidate?_of_lt hunder]
        rfl
      | group k =>
        have hk : k < g := hunder
        dsimp only
        rw [draft?_of_lt (by omega)]
        exact ih (by omega) (by omega) _

/-- Add all items below an item that remains to a listing. No group has more levels than there are
groups. -/
def listItem? (a : Arena) (l : Listing) : Item → Option Listing
  | .group g => a.listBelow? a.size g l
  | .candidate _ => some l

theorem listItem?_of_valid (h : a.Founded) (hx : a.Valid x) (l : Listing) :
    a.listItem? l x = some (a.listItem l x) := by
  cases x with
  | candidate i => rfl
  | group g => exact listBelow?_of_lt h hx hx l

end Arena

/-! ### Results -/

namespace Grouping

open Arena

variable {a : Arena} {items : List Item}

/-- Write out the items that remain, if all that lies in them is there. -/
def ofItems? (a : Arena) (items : List Item) : Option Grouping := do
  let groups ← items.mapM fun
    | .group g => (a.tree? a.size g false).map some
    | .candidate _ => some none
  let listing ← items.foldlM a.listItem? {}
  let ungrouped ← items.mapM fun
    | .candidate i => (a.candidate? i).map some
    | .group _ => some none
  some {
    groups := groups.filterMap id
    children := listing.listed
    ungrouped := ungrouped.filterMap id }

theorem ofItems?_of_supports (h : a.Supports items) :
    ofItems? a items = some (ofItems a items) := by
  have hgroups : (items.mapM fun
      | .group g => (a.tree? a.size g false).map some
      | .candidate _ => some none) = some (items.map fun
      | .group g => some (a.tree g false)
      | .candidate _ => none) := by
    refine mapM_eq_some fun x hx => ?_
    cases x with
    | candidate i => rfl
    | group g =>
      have hg : g < a.size := h.valid _ hx
      exact congrArg (Option.map some) (tree?_of_lt h.founded hg hg false)
  have hlisting : items.foldlM a.listItem? {} = some (items.foldl a.listItem {}) := by
    refine foldlM_eq_some (P := fun _ => True) (fun l _ x hx => ⟨?_, trivial⟩) trivial
    exact listItem?_of_valid h.founded (h.valid x hx) l
  have hungrouped : (items.mapM fun
      | .candidate i => (a.candidate? i).map some
      | .group _ => some none) = some (items.map fun
      | .candidate i => some (a.candidate i)
      | .group _ => none) := by
    refine mapM_eq_some fun x hx => ?_
    cases x with
    | candidate i => exact congrArg (Option.map some) (candidate?_of_lt (h.valid _ hx))
    | group g => rfl
  simp only [ofItems?, hgroups, hlisting, hungrouped, Option.bind_eq_bind, Option.bind_some,
    List.filterMap_map]
  rfl

end Grouping

namespace Grouper

/-- Group the candidates, unless something goes wrong. -/
def run? (g : Grouper) (candidates : List Anomaly) : Option Grouping :=
  if g.maxCandidates < candidates.length then
    some { ungrouped := candidates, bypassed := true }
  else do
    let (arena, items) ← (Arena.ofCandidates candidates).evaluate? g.expression
    Grouping.ofItems? arena items

variable (g : Grouper) (candidates : List Anomaly)

theorem founded_ofCandidates : (Arena.ofCandidates candidates).Founded :=
  ⟨nofun, nofun⟩

/-- **Nothing goes wrong in a pass.** It looks only at what is there, all its arenas are founded, no
merge leaves anything twice, and what it writes out has no more levels than there are groups. -/
theorem total_run :
    g.run? candidates = some (g.run candidates) ∧
      ∀ m ∈ (Arena.ofCandidates candidates).merges g.expression,
        m.arena.candidates = candidates.toArray ∧ m.Sound := by
  have hfounded := founded_ofCandidates candidates
  refine ⟨?_, fun m hm => ⟨?_, Arena.sound_of_mem_merges hfounded hm⟩⟩
  · unfold run? run
    split
    · rfl
    · rw [Arena.evaluate?_eq g.expression hfounded]
      exact Grouping.ofItems?_of_supports (Arena.supports_evaluate g.expression hfounded)
  · exact Arena.candidates_of_mem_merges hfounded.ranked hm

end Grouper
end Outlier
