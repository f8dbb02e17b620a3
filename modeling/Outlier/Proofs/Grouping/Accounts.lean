import Outlier.Proofs.Grouping.Evaluation
import Outlier.Proofs.Grouping.Listing
import Outlier.Proofs.Grouping.Trees

/-! # Every selected candidate is accounted for

A pass loses no candidate that the expression selects, takes up no other, and lists nothing twice
(`Grouper.accounts_run`). -/

namespace Outlier

/-! ### The arena of a pass -/

namespace Arena

/-- The arena in which a pass begins. -/
def ofCandidates (candidates : List Anomaly) : Arena := { candidates := candidates.toArray }

variable (candidates : List Anomaly)

theorem ranked_ofCandidates : (ofCandidates candidates).Ranked := by
  intro g h hh
  rw [draft_of_size_le _ (Nat.zero_le g)] at hh
  exact absurd hh List.not_mem_nil

theorem map_candidate_range (a : Arena) :
    (List.range a.candidates.size).map a.candidate = a.candidates.toList := by
  refine List.ext_getElem (by simp) fun i _ hi => ?_
  rw [List.getElem_map, List.getElem_range, candidate, Array.getElem_toList]
  exact Array.getElem_eq_getD default |>.symm

theorem candidate_ofCandidates (i : Nat) :
    (ofCandidates candidates).candidate i = candidates[i]?.getD default := by
  simp [candidate, ofCandidates, Array.getD_eq_getD_getElem?]

theorem selects_getElem? (e : Expression) (i : Nat) :
    (i < (ofCandidates candidates).candidates.size ∧
      e.selects ((ofCandidates candidates).candidate i) = true) ↔
      ∃ x, candidates[i]? = some x ∧ e.selects x = true := by
  rw [candidate_ofCandidates]
  show i < candidates.length ∧ _ ↔ _
  constructor
  · rintro ⟨hi, hs⟩
    rw [List.getElem?_eq_getElem hi, Option.getD_some] at hs
    exact ⟨_, List.getElem?_eq_getElem hi, hs⟩
  · rintro ⟨x, hx, hs⟩
    exact ⟨(List.getElem?_eq_some_iff.1 hx).1, by rwa [hx, Option.getD_some]⟩

theorem entry_group {a : Arena} (ha : a.Ranked) (h : Nat) :
    a.entry (.group h) = (a.node (.group h)).outline := by
  rw [node, tree_eq ha]
  rfl

theorem exists_map_group {items : List Item} (h : ∀ x ∈ items, ∃ g, x = .group g) :
    ∃ tops : List Nat, items = tops.map .group := by
  induction items with
  | nil => exact ⟨[], rfl⟩
  | cons x rest ih =>
    obtain ⟨g, rfl⟩ := h x List.mem_cons_self
    obtain ⟨tops, rfl⟩ := ih fun y hy => h y (List.mem_cons_of_mem _ hy)
    exact ⟨g :: tops, rfl⟩

/-- A selected candidate has a component. -/
theorem component?_of_selects {e : Expression} {x : Anomaly} (h : e.selects x = true) :
    x.component? ≠ none := by
  obtain ⟨stem, _, hs⟩ := List.any_eq_true.1 h
  intro hnone
  rw [hasStem, hnone] at hs
  exact absurd hs Bool.false_ne_true

variable {candidates}

theorem named_of_evaluate {e : Expression} {a : Arena} (ha : a.Ranked) {g : Nat}
    (hg : .group g ∈ (a.evaluate e).2) : (a.evaluate e).1.Named g := by
  intro i hi
  rw [(pass_evaluate e ha).toGrows.candidate]
  exact component?_of_selects ((within_evaluate e ha i).1 (.inr ⟨g, hg, hi⟩)).2

end Arena

namespace Grouper

/-- The arena to which a pass comes. -/
def arena (g : Grouper) (candidates : List Anomaly) : Arena :=
  ((Arena.ofCandidates candidates).evaluate g.expression).1

/-- The items that a pass leaves. -/
def items (g : Grouper) (candidates : List Anomaly) : List Item :=
  ((Arena.ofCandidates candidates).evaluate g.expression).2

variable (g : Grouper) {candidates : List Anomaly}

theorem run_eq (hlen : candidates.length ≤ g.maxCandidates) :
    g.run candidates = Grouping.ofItems (g.arena candidates) (g.items candidates) := by
  unfold run
  rw [if_neg (Nat.not_lt.2 hlen)]
  rfl

end Grouper

/-! ### A leaf at the root -/

namespace Arena

theorem map_candidate_filter (candidates : List Anomaly) (p : Anomaly → Bool) :
    ((List.range candidates.length).filter fun i => p ((ofCandidates candidates).candidate i)).map
      (ofCandidates candidates).candidate = candidates.filter p := by
  calc
    _ = ((List.range candidates.length).map (ofCandidates candidates).candidate).filter p :=
      List.filter_map.symm
    _ = candidates.filter p := congrArg (List.filter p) (map_candidate_range _)

end Arena

namespace Grouping

theorem ofItems_candidates (a : Arena) (places : List Nat) :
    ofItems a (places.map .candidate) = { ungrouped := places.map a.candidate } := by
  induction places with
  | nil => rfl
  | cons i rest ih =>
    obtain ⟨hgroups, hchildren, hungrouped, _⟩ := Grouping.mk.inj ih
    unfold ofItems
    refine Grouping.mk.injEq .. ▸ ⟨hgroups, hchildren, ?_, rfl⟩
    exact congrArg (a.candidate i :: ·) hungrouped

/-- Groups that remain are written as trees, and what is below them is listed. -/
theorem ofItems_groups (a : Arena) (tops : List Nat) :
    ofItems a (tops.map .group) =
      { groups := tops.map fun g => a.tree g false
        children := ((tops.map .group).foldl a.listItem {}).listed } := by
  have hitems : (ofItems a (tops.map .group)).groups = tops.map (fun g => a.tree g false) ∧
      (ofItems a (tops.map .group)).ungrouped = [] := by
    induction tops with
    | nil => exact ⟨rfl, rfl⟩
    | cons g rest ih => exact ⟨congrArg (a.tree g false :: ·) ih.1, ih.2⟩
  unfold ofItems at hitems ⊢
  exact Grouping.mk.injEq .. ▸ ⟨hitems.1, rfl, hitems.2, rfl⟩

end Grouping

/-- A leaf makes no groups; it leaves the candidates it selects, in their order. -/
theorem Grouper.run_leaf (g : Grouper) {candidates : List Anomaly}
    (hlen : candidates.length ≤ g.maxCandidates) {stem : String} (he : g.expression = .leaf stem) :
    g.run candidates = { ungrouped := candidates.filter (Arena.hasStem stem) } := by
  rw [g.run_eq hlen, Grouper.arena, Grouper.items, he]
  refine (Grouping.ofItems_candidates _ _).trans ?_
  exact congrArg (fun l => ({ ungrouped := l } : Grouping))
    (Arena.map_candidate_filter candidates (Arena.hasStem stem))

/-! ### An operator at the root -/

/-- The grouping `r` accounts for the candidates that `e` selects. `tops` are the groups in the
arena `a` that lie inside no other, and `listing` are the items below them. -/
structure Grouping.Accounts (r : Grouping) (e : Expression) (candidates : List Anomaly) (a : Arena)
    (tops : List Nat) (listing : List Item) : Prop where
  bypassed : r.bypassed = false
  ungrouped : r.ungrouped = []
  groups : r.groups = tops.map fun g => a.tree g false
  children : r.children = listing.map a.entry
  lt_size : ∀ g ∈ tops, g < a.size
  nodup_tops : tops.Nodup
  nodup_listing : listing.Nodup
  /-- Listed is what lies in the groups. -/
  mem_listing : ∀ x, x ∈ listing ↔ ∃ g ∈ tops, a.Inside x g
  /-- The candidates among it are those that the expression selects. -/
  selected : ∀ i, .candidate i ∈ listing ↔ ∃ x, candidates[i]? = some x ∧ e.selects x = true
  candidate : ∀ i x, candidates[i]? = some x → a.candidate i = x
  /-- No group that lies inside no other is listed. -/
  apart : ∀ g ∈ tops, .group g ∉ listing
  /-- The trees are made of the items listed. -/
  below : ∀ t : Anomaly, (∃ top ∈ r.groups, t.Below top) ↔ ∃ x ∈ listing, t = a.node x
  /-- A nested group is listed by its span alone. -/
  outline : ∀ h, .group h ∈ listing → a.entry (.group h) = (a.node (.group h)).outline
  isChild_groups : ∀ top ∈ r.groups, top.isChild = false
  isChild_below : ∀ top ∈ r.groups, ∀ t : Anomaly, t.Below top → t.isChild = true

theorem Grouping.Accounts.named {r : Grouping} {e : Expression} {candidates : List Anomaly}
    {a : Arena} {tops : List Nat} {listing : List Item} (h : r.Accounts e candidates a tops listing)
    {k : Nat} (hk : k ∈ tops) : a.Named k := by
  intro i hi
  obtain ⟨x, hx, hs⟩ := (h.selected i).1 ((h.mem_listing _).2 ⟨k, hk, hi⟩)
  rw [h.candidate i x hx]
  exact Arena.component?_of_selects hs

/-- What is below the groups without having a component is the tree of a nested group. -/
theorem Grouping.Accounts.exists_group {r : Grouping} {e : Expression} {candidates : List Anomaly}
    {a : Arena} {tops : List Nat} {listing : List Item} (h : r.Accounts e candidates a tops listing)
    {x : Item} (hx : x ∈ listing) (hc : (a.node x).component? = none) :
    ∃ k, x = .group k ∧ ∃ top ∈ tops, a.Inside (.group k) top := by
  obtain ⟨top, htop, hin⟩ := (h.mem_listing x).1 hx
  obtain ⟨k, rfl⟩ := Arena.group_of_component? (h.named htop) hin hc
  exact ⟨k, rfl, top, htop, hin⟩

namespace Grouper

theorem pass_run (g : Grouper) (candidates : List Anomaly) :
    Arena.Pass (Arena.ofCandidates candidates) (g.items candidates) (g.arena candidates) :=
  Arena.pass_evaluate g.expression (Arena.ranked_ofCandidates candidates)

theorem ranked_arena (g : Grouper) (candidates : List Anomaly) : (g.arena candidates).Ranked :=
  (g.pass_run candidates).ranked (Arena.ranked_ofCandidates candidates)

theorem candidate_arena (g : Grouper) (candidates : List Anomaly) (i : Nat) :
    (g.arena candidates).candidate i = candidates[i]?.getD default := by
  rw [(g.pass_run candidates).toGrows.candidate]
  exact Arena.candidate_ofCandidates candidates i

theorem within_items (g : Grouper) (candidates : List Anomaly) (i : Nat) :
    (g.arena candidates).Within (g.items candidates) (.candidate i) ↔
      ∃ x, candidates[i]? = some x ∧ g.expression.selects x = true := by
  rw [← Arena.selects_getElem?]
  exact Arena.within_evaluate g.expression (Arena.ranked_ofCandidates candidates) i

theorem named_arena (g : Grouper) {candidates : List Anomaly} {k : Nat}
    (hk : .group k ∈ g.items candidates) : (g.arena candidates).Named k :=
  Arena.named_of_evaluate (Arena.ranked_ofCandidates candidates) hk

theorem exists_tops (g : Grouper) (candidates : List Anomaly) {op : Operator} {l r : Expression}
    (he : g.expression = .join op l r) :
    ∃ tops : List Nat, g.items candidates = tops.map .group := by
  refine Arena.exists_map_group fun x hx => ?_
  rw [items, he] at hx
  exact Arena.group_of_mem_join op l r (Arena.ranked_ofCandidates candidates) hx

/-- Below the groups that an operator leaves lie the candidates that it selects. -/
theorem accounts_join (g : Grouper) {candidates : List Anomaly}
    (hlen : candidates.length ≤ g.maxCandidates) {op : Operator} {l r : Expression}
    (he : g.expression = .join op l r) :
    ∃ tops listing, (g.run candidates).Accounts g.expression candidates (g.arena candidates) tops
      listing := by
  have ha := g.ranked_arena candidates
  have hpass := g.pass_run candidates
  obtain ⟨tops, htops⟩ := g.exists_tops candidates he
  have hmem : ∀ k, .group k ∈ g.items candidates ↔ k ∈ tops := by
    intro k
    rw [htops]
    simp
  have hrun : g.run candidates =
      { groups := tops.map fun k => (g.arena candidates).tree k false
        children := ((tops.map .group).foldl (g.arena candidates).listItem {}).listed } := by
    rw [g.run_eq hlen, htops]
    exact Grouping.ofItems_groups _ _
  obtain ⟨listing, hnodup, hlisted, hlisting⟩ := Arena.listing_foldl ha (tops.map .group)
  have hinside : ∀ x, x ∈ listing ↔ ∃ k ∈ tops, (g.arena candidates).Inside x k := by
    intro x
    rw [hlisting]
    simp
  have hbelow : ∀ t : Anomaly, (∃ top ∈ (g.run candidates).groups, t.Below top) ↔
      ∃ x ∈ listing, t = (g.arena candidates).node x := by
    intro t
    rw [hrun]
    refine (Arena.below_trees ha (fun k hk => g.named_arena ((hmem k).2 hk)) t).trans ?_
    simp only [hinside]
  refine ⟨tops, listing, ?_⟩
  constructor
  case bypassed => rw [hrun]
  case ungrouped => rw [hrun]
  case groups => rw [hrun]
  case children =>
    rw [hrun]
    exact hlisted
  case lt_size => exact fun k hk => (hpass.group k ((hmem k).2 hk)).2
  case nodup_tops => exact List.Nodup.of_map _ (htops ▸ hpass.nodup)
  case nodup_listing => exact hnodup
  case mem_listing => exact hinside
  case selected =>
    intro i
    rw [hinside, ← g.within_items candidates i, htops]
    simp [Arena.Within]
  case candidate =>
    intro i x hx
    rw [candidate_arena, hx, Option.getD_some]
  case apart =>
    intro k hk hm
    obtain ⟨k', hk', hin⟩ := (hinside _).1 hm
    exact hpass.apart k k' ((hmem k).2 hk) ((hmem k').2 hk') hin
  case below => exact hbelow
  case outline => exact fun h _ => Arena.entry_group ha h
  case isChild_groups =>
    intro top htop
    rw [hrun] at htop
    obtain ⟨k, _, rfl⟩ := List.mem_map.1 htop
    exact Arena.isChild_tree ha k false
  case isChild_below =>
    intro top htop t ht
    obtain ⟨x, _, rfl⟩ := (hbelow t).1 ⟨top, htop, ht⟩
    exact Arena.isChild_node ha x

end Grouper

/-- **Grouping loses, invents and lists twice nothing.** A leaf at the root leaves the candidates it
selects as they are. An operator leaves groups, below which lie exactly the candidates that some
leaf of the expression selects; each of these, and each nested group, is listed once. -/
theorem Grouper.accounts_run (g : Grouper) {candidates : List Anomaly}
    (hlen : candidates.length ≤ g.maxCandidates) :
    match g.expression with
    | .leaf stem => g.run candidates = { ungrouped := candidates.filter (Arena.hasStem stem) }
    | .join _ _ _ => ∃ tops listing, (g.run candidates).Accounts g.expression candidates
        (g.arena candidates) tops listing := by
  cases he : g.expression with
  | leaf stem => exact g.run_leaf hlen he
  | join op l r =>
    have haccounts := g.accounts_join hlen he
    rw [he] at haccounts
    exact haccounts

/-- Two overlapping anomalies under a nested condition that selects the first one twice. -/
theorem Grouper.accounts_overlapping :
    let g : Grouper :=
      { expression := .join .or (.leaf "web") (.join .and (.leaf "web") (.leaf "db")) }
    let candidates : List Anomaly :=
      [(Anomaly.stored 1 7 0 10).withProperty Anomaly.componentProperty "web:load",
        (Anomaly.stored 2 7 5 20).withProperty Anomaly.componentProperty "db:load"]
    candidates.length ≤ g.maxCandidates ∧
      ∃ tops listing, (g.run candidates).Accounts g.expression candidates (g.arena candidates) tops
        listing := by
  intro g candidates
  have hlen : 2 ≤ 1000 := by decide
  exact ⟨hlen, g.accounts_run hlen⟩

end Outlier
