import Outlier.Proofs.Grouping.Accounts

/-! # The spans of groups are exact hulls

Whatever the condition and the candidates, the span of a group reaches exactly from the least start
to the greatest end of its children, and so of the candidates below it (`Grouper.hulls_run`). -/

namespace Outlier

namespace Arena

variable {a : Arena}

/-- If all groups are the hulls of their members, they are the hulls of their candidates. -/
theorem isHull_candidates (ha : a.Ranked) (hexact : ∀ g < a.size, a.Exact g) {g : Nat}
    (hg : g < a.size) :
    (a.draft g).span.IsHull fun s => ∃ i, a.Inside (.candidate i) g ∧ (a.candidate i).span = s := by
  induction g using Nat.strongRecOn with
  | ind g ih =>
    have hmembers := (hexact g hg).trans
      (q := fun x s => ∃ i, (x = .candidate i ∨ ∃ h, x = .group h ∧ a.Inside (.candidate i) h) ∧
        (a.candidate i).span = s) fun x hx => ?_
    · refine hmembers.congr fun s => ?_
      constructor
      · rintro ⟨x, hx, i, rfl | ⟨h, rfl, hi⟩, hs⟩
        · exact ⟨i, .member hx, hs⟩
        · exact ⟨i, .inner hx hi, hs⟩
      · rintro ⟨i, hi, hs⟩
        rcases inside_iff.1 hi with hi | ⟨h, hh, hi⟩
        · exact ⟨_, hi, i, .inl rfl, hs⟩
        · exact ⟨_, hh, i, .inr ⟨h, rfl, hi⟩, hs⟩
    · cases x with
      | candidate i =>
        refine (Span.isHull_self _).congr fun s => ?_
        simp [span, eq_comm]
      | group h =>
        have hhg := ha g h hx
        refine (ih h hhg (by omega)).congr fun s => ?_
        simp

end Arena

/-- A group anomaly has children, and its span is the hull of them and of the candidates below. -/
structure Anomaly.IsHull (t : Anomaly) : Prop where
  children_ne_nil : t.children ≠ []
  children : t.span.IsHull fun s => ∃ c ∈ t.children, c.span = s
  candidates : t.span.IsHull fun s => ∃ c : Anomaly, c.Below t ∧ c.component? ≠ none ∧ c.span = s

theorem Arena.isHull_tree {a : Arena} (ha : a.Ranked) (hexact : ∀ g < a.size, a.Exact g) {g : Nat}
    (hg : g < a.size) (hn : a.Named g) (isChild : Bool) : (a.tree g isChild).IsHull where
  children_ne_nil := by
    rw [children_tree ha]
    exact fun h => (hexact g hg).ne_nil (List.map_eq_nil_iff.1 h)
  children := by
    rw [span_tree ha, children_tree ha]
    refine Span.IsHull.congr (hexact g hg) fun s => ?_
    simp only [List.mem_map, exists_exists_and_eq_and, span_node ha]
  candidates := by
    rw [span_tree ha]
    refine (isHull_candidates ha hexact hg).congr fun s => ?_
    constructor
    · rintro ⟨i, hi, hs⟩
      exact ⟨_, (below_tree ha hn isChild _).2 ⟨_, hi, rfl⟩, hn i hi, hs⟩
    · rintro ⟨c, hc, hcomp, hs⟩
      obtain ⟨x, hx, rfl⟩ := (below_tree ha hn isChild c).1 hc
      cases x with
      | candidate i => exact ⟨i, hx, hs⟩
      | group h => exact absurd (component?_tree ha h true) hcomp

namespace Grouper

variable (g : Grouper) (candidates : List Anomaly)

theorem exact_arena : ∀ k < (g.arena candidates).size, (g.arena candidates).Exact k := by
  intro k hk
  exact (g.pass_run candidates).exact k (Nat.zero_le k) hk

/-- Without an operator at the root, or with too many candidates, there are no groups. -/
theorem groups_run_cases :
    ((g.run candidates).groups = [] ∧ (g.run candidates).children = []) ∨
      ∃ tops listing, (g.run candidates).Accounts g.expression candidates (g.arena candidates) tops
        listing := by
  by_cases hlen : candidates.length ≤ g.maxCandidates
  · cases he : g.expression with
    | leaf stem =>
      rw [g.run_leaf hlen he]
      exact .inl ⟨rfl, rfl⟩
    | join op l r => exact .inr (he ▸ g.accounts_join hlen he)
  · left
    rw [run, if_pos (Nat.lt_of_not_le hlen)]
    exact ⟨rfl, rfl⟩

/-- **Group spans are exact hulls.** Every group anomaly of a grouping, at any depth, has children
and spans exactly from the least start to the greatest end of them, and so of the candidates below
it. The copies of the nested groups in the list of children are their outlines. No anomaly has to
end after it starts. -/
theorem hulls_run :
    (∀ top ∈ (g.run candidates).groups, top.IsHull ∧
      ∀ t : Anomaly, t.Below top → t.component? = none → t.IsHull) ∧
    ∀ c : Anomaly, c.component? = none → (c ∈ (g.run candidates).children ↔
      ∃ top ∈ (g.run candidates).groups, ∃ t : Anomaly, t.Below top ∧ t.component? = none ∧
        c = t.outline) := by
  have ha := g.ranked_arena candidates
  have hexact := g.exact_arena candidates
  rcases g.groups_run_cases candidates with ⟨hgroups, hchildren⟩ | ⟨tops, listing, h⟩
  · rw [hgroups, hchildren]
    simp
  · refine ⟨fun top htop => ⟨?_, fun t ht hcomp => ?_⟩, fun c hcomp => ?_⟩
    · rw [h.groups] at htop
      obtain ⟨k, hk, rfl⟩ := List.mem_map.1 htop
      exact Arena.isHull_tree ha hexact (h.lt_size k hk) (h.named hk) false
    · obtain ⟨x, hx, rfl⟩ := (h.below t).1 ⟨top, htop, ht⟩
      obtain ⟨k, rfl, outer, houter, hin⟩ := h.exists_group hx hcomp
      have hk : k < (g.arena candidates).size := by
        have hlt := ha.lt hin
        have hsize := h.lt_size outer houter
        omega
      exact Arena.isHull_tree ha hexact hk (fun i hi => h.named houter i (hin.trans hi)) true
    · rw [h.children, List.mem_map]
      constructor
      · rintro ⟨x, hx, rfl⟩
        have hnode : ((g.arena candidates).node x).component? = none := by
          cases x with
          | candidate i => exact hcomp
          | group k => exact Arena.component?_tree ha k true
        obtain ⟨k, rfl, _⟩ := h.exists_group hx hnode
        obtain ⟨top, htop, hbelow⟩ := (h.below _).2 ⟨_, hx, rfl⟩
        exact ⟨top, htop, _, hbelow, hnode, h.outline k hx⟩
      · rintro ⟨top, htop, t, ht, hnode, rfl⟩
        obtain ⟨x, hx, rfl⟩ := (h.below t).1 ⟨top, htop, ht⟩
        obtain ⟨k, rfl, _⟩ := h.exists_group hx hnode
        exact ⟨_, hx, h.outline k hx⟩

end Grouper

end Outlier
