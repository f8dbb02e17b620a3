import Mathlib
import Outlier.Proofs.Grouping.Accounts
import Outlier.Proofs.Grouping.Toll

/-! # How much a pass writes

Groups own copies of their members. An item of a merge can be put in two groups, so each operator
can double what the operators below it have made: for one operator the output is linear in the
candidates, with nested operators it grows with a power of two (`Grouper.nodesAll_runFlat_le`). Each
factor of the bound comes from one clause of `Grown`, which evaluation keeps by induction on the
expression: how many groups an expression leaves, what they weigh, and how many were opened for
them. -/

namespace Outlier

/-- Is the item a group? -/
def Item.isGroup : Item → Bool
  | .candidate _ => false
  | .group _ => true

namespace Arena

variable {a b c d : Arena} {left right items : List Item}

/-- The number of nodes of all candidates. -/
def mass (a : Arena) : Nat := Anomaly.nodesAll a.candidates.toList

/-- All candidates as items. -/
def pool (a : Arena) : List Item := (List.range a.candidates.size).map .candidate

theorem mem_pool {i : Nat} : .candidate i ∈ a.pool ↔ i < a.candidates.size := by
  simp [pool]

theorem sum_weight_pool (a : Arena) : (a.pool.map a.weight).sum = a.mass := by
  have hnodes : a.pool.map a.weight =
      ((List.range a.candidates.size).map a.candidate).map Anomaly.nodes := by
    rw [pool, List.map_map, List.map_map]
    exact List.map_congr_left fun i _ => a.weight_candidate i
  rw [hnodes, map_candidate_range, ← Anomaly.nodesAll_eq_sum, mass]

theorem length_pool_le (a : Arena) : a.pool.length ≤ a.mass := by
  have hle := Anomaly.length_le_nodesAll a.candidates.toList
  rw [Array.length_toList] at hle
  rw [pool, List.length_map, List.length_range]
  exact hle

theorem Grows.mass_eq (h : Grows b a) : a.mass = b.mass := by
  rw [mass, mass, h.candidates]

theorem sum_toll (b : Arena) (l : List Item) :
    (l.map b.toll).sum = 2 * (l.map b.weight).sum + l.length := by
  induction l with
  | nil => rfl
  | cons x rest ih =>
    rw [List.map_cons, List.map_cons, List.sum_cons, List.sum_cons, List.length_cons, ih, toll]
    omega

theorem sum_le_of_subperm {α : Type} {l l' : List α} (h : l.Subperm l') (f : α → Nat) :
    (l.map f).sum ≤ (l'.map f).sum := by
  obtain ⟨k, hperm, hsub⟩ := h
  rw [← (hperm.map f).sum_eq]
  exact (hsub.map f).sum_le_sum fun _ _ => Nat.zero_le _

/-! ### Evaluation -/

/-- The items of a merge are candidates, each of them once, and groups that the sides leave. -/
theorem sorted_subperm (hitems : ∀ i, .candidate i ∈ items → i < c.candidates.size) :
    (c.sorted items).Subperm (c.pool ++ items.filter Item.isGroup) := by
  refine List.subperm_of_subset (c.nodup_sorted items) fun x hx => ?_
  rw [List.mem_append]
  rw [mem_sorted] at hx
  cases x with
  | candidate i => exact .inl (mem_pool.2 (hitems i hx))
  | group g => exact .inr (List.mem_filter.2 ⟨hx, rfl⟩)

/-- How much the evaluation of an expression with `k` operators that began in `b` has made when it
has come to `a` and leaves `items`. -/
structure Grown (b : Arena) (k : Nat) (items : List Item) (a : Arena) : Prop where
  candidate : ∀ i, .candidate i ∈ items → i < b.candidates.size
  /-- Each operator leaves at most one group more for a candidate. -/
  count : (items.filter Item.isGroup).length ≤ k * b.mass
  /-- The tolls of a merge are twice what the groups of its sides weigh, one for each of these and
  three times the candidates, which comes to `4 * 2 ^ k - (k + 4)` over `k` operators. -/
  weight : ((items.filter Item.isGroup).map a.weight).sum + (k + 4) * b.mass ≤ 4 * 2 ^ k * b.mass
  size : a.size + b.mass ≤ b.size + 2 ^ k * b.mass

theorem Grown.leaf (a : Arena) (stem : String) : Grown a 0 (a.select stem) a := by
  have hnone : (a.select stem).filter Item.isGroup = [] := by
    refine List.filter_eq_nil_iff.2 fun x hx => ?_
    obtain ⟨i, rfl, _⟩ := mem_select.1 hx
    exact Bool.false_ne_true
  constructor
  case candidate =>
    intro i hi
    obtain ⟨j, hj, hlt, _⟩ := mem_select.1 hi
    exact (Item.candidate.inj hj) ▸ hlt
  case count =>
    rw [hnone]
    exact Nat.zero_le _
  case weight =>
    rw [hnone, List.map_nil, List.sum_nil]
    omega
  case size => omega

/-- The sum of two powers of two is at most one more than their product. -/
theorem two_pow_add_le (k l : Nat) : 2 ^ k + 2 ^ l ≤ 2 ^ k * 2 ^ l + 1 := by
  obtain ⟨x, hx⟩ := Nat.exists_eq_add_of_le' (Nat.one_le_two_pow (n := k))
  obtain ⟨y, hy⟩ := Nat.exists_eq_add_of_le' (Nat.one_le_two_pow (n := l))
  rw [hx, hy]
  nlinarith

section

variable {k l : Nat} (hl : Pass b left a) (hr : Pass a right c) (hb : b.Ranked)
  (gl : Grown b k left a) (gr : Grown a l right c)

include hl hr hb gl gr

theorem Grown.sorted_le :
    (c.sorted (left ++ right)).length ≤ (k + l + 1) * b.mass ∧
      ((c.sorted (left ++ right)).map c.toll).sum + (k + l + 13) * b.mass ≤
        8 * (2 ^ k + 2 ^ l) * b.mass := by
  have ha := hl.ranked hb
  have hc := hr.ranked ha
  have hmass : a.mass = b.mass := hl.toGrows.mass_eq
  have hmass' : c.mass = b.mass := hr.toGrows.mass_eq.trans hmass
  have hitems : ∀ i, .candidate i ∈ left ++ right → i < c.candidates.size := by
    intro i hi
    rw [hr.candidates]
    rcases List.mem_append.1 hi with hi | hi
    · rw [hl.candidates]
      exact gl.candidate i hi
    · exact gr.candidate i hi
  have hsub := sorted_subperm hitems
  rw [List.filter_append] at hsub
  have hkept : (left.filter Item.isGroup).map c.weight = (left.filter Item.isGroup).map a.weight :=
    List.map_congr_left fun x hx =>
      hr.toGrows.weight_eq ha hc (hl.holds x (List.mem_filter.1 hx).1)
  have hpool := c.length_pool_le
  have htollPool := c.sum_toll c.pool
  have htollLeft := c.sum_toll (left.filter Item.isGroup)
  have htollRight := c.sum_toll (right.filter Item.isGroup)
  have hcountLeft := gl.count
  have hcountRight := gr.count
  have hweightLeft := gl.weight
  have hweightRight := gr.weight
  rw [hmass'] at hpool
  rw [sum_weight_pool, hmass'] at htollPool
  rw [hkept] at htollLeft
  rw [hmass] at hcountRight hweightRight
  constructor
  · have hlength := hsub.length_le
    rw [List.length_append, List.length_append] at hlength
    linarith
  · have htoll := sum_le_of_subperm hsub c.toll
    rw [List.map_append, List.map_append, List.sum_append, List.sum_append] at htoll
    linarith

/-- A merge of what two evaluations leave counts as one operator more. -/
theorem Grown.join (hd : Layer c (c.sorted (left ++ right)) d)
    (hcovered : Covered c (c.sorted (left ++ right)) d) :
    Grown b (k + l + 1) (d.results c.size) ((d.results c.size).foldl markFree d) := by
  have hc := hr.ranked (hl.ranked hb)
  obtain ⟨hlength, htoll⟩ := Grown.sorted_le hl hr hb gl gr
  have hgroups := hd.sum_weight_le hc hcovered
  have hopened := hcovered.size_le
  have hsub : ((d.results c.size).filter Item.isGroup).Sublist (d.results c.size) :=
    List.filter_sublist
  have hpow := Nat.mul_le_mul_right b.mass (two_pow_add_le k l)
  have hdouble : 2 ^ (k + l + 1) = 2 * (2 ^ k * 2 ^ l) := by ring
  constructor
  case candidate =>
    intro i hi
    obtain ⟨g, hg, _⟩ := hd.group_of_mem_results hi
    exact absurd hg (by simp)
  case count =>
    have hresults : (d.results c.size).length ≤ d.size - c.size := by
      have hle := List.length_filterMap_le d.result? (List.range' c.size (d.size - c.size))
      rwa [List.length_range'] at hle
    have hle := hsub.length_le
    omega
  case weight =>
    have hle := sum_le_of_subperm hsub.subperm ((d.results c.size).foldl markFree d).weight
    rw [hdouble]
    linarith
  case size =>
    have hsizeLeft := gl.size
    have hsizeRight := gr.size
    have hk := Nat.mul_le_mul_right b.mass (Nat.lt_two_pow_self (n := k))
    have hl' := Nat.mul_le_mul_right b.mass (Nat.lt_two_pow_self (n := l))
    rw [hl.toGrows.mass_eq] at hsizeRight
    rw [size_foldl_markFree, hdouble]
    linarith

end

/-- An expression makes no more than its number of operators allows. -/
theorem grown_evaluate (e : Expression) {a : Arena} (ha : a.Ranked) :
    Grown a e.operators (a.evaluate e).2 (a.evaluate e).1 := by
  induction e generalizing a with
  | leaf stem => exact .leaf a stem
  | join op l r ihl ihr =>
    have hl := pass_evaluate l ha
    have hr := pass_evaluate r (hl.ranked ha)
    obtain ⟨d, hd, hcovered, hmerge⟩ :=
      exists_covered_merge (hr.ranked (hl.ranked ha)) op (hl.holds_append hr)
    rw [evaluate_join, hmerge]
    exact .join hl hr ha (ihl ha) (ihr (hl.ranked ha)) hd hcovered

end Arena

/-! ### The output of a pass -/

/-- What is listed below the groups are candidates and groups, each of them once. -/
theorem Grouping.Accounts.listing_subperm {r : Grouping} {e : Expression}
    {candidates : List Anomaly} {a : Arena} {tops : List Nat} {listing : List Item}
    (h : r.Accounts e candidates a tops listing) (ha : a.Ranked)
    (hgrows : Arena.Grows (.ofCandidates candidates) a) :
    listing.Subperm (a.pool ++ (List.range a.size).map .group) := by
  refine List.subperm_of_subset h.nodup_listing fun x hx => ?_
  cases x with
  | candidate i =>
    obtain ⟨y, hy, _⟩ := (h.selected i).1 hx
    have hlt : i < a.candidates.size := by
      rw [hgrows.candidates]
      exact (List.getElem?_eq_some_iff.1 hy).1
    exact List.mem_append_left _ (Arena.mem_pool.2 hlt)
  | group k =>
    obtain ⟨top, htop, hin⟩ := (h.mem_listing _).1 hx
    have hlt := Nat.lt_trans (ha.lt hin) (h.lt_size top htop)
    exact List.mem_append_right _ (List.mem_map.2 ⟨k, List.mem_range.2 hlt, rfl⟩)

namespace Grouper

variable (g : Grouper) {candidates : List Anomaly} {op : Operator} {l r : Expression}

theorem grown_run (candidates : List Anomaly) :
    Arena.Grown (.ofCandidates candidates) g.expression.operators (g.items candidates)
      (g.arena candidates) :=
  Arena.grown_evaluate g.expression (Arena.ranked_ofCandidates candidates)

theorem nodesAll_groups (hlen : candidates.length ≤ g.maxCandidates)
    (he : g.expression = .join op l r) :
    Anomaly.nodesAll (g.run candidates).groups =
      (((g.items candidates).filter Item.isGroup).map (g.arena candidates).weight).sum := by
  obtain ⟨tops, htops⟩ := g.exists_tops candidates he
  have hall : (tops.map Item.group).filter Item.isGroup = tops.map Item.group :=
    List.filter_eq_self.2 fun x hx => by
      obtain ⟨k, _, rfl⟩ := List.mem_map.1 hx
      rfl
  rw [g.run_eq hlen, htops, Grouping.ofItems_groups, hall, Anomaly.nodesAll_eq_sum, List.map_map,
    List.map_map]
  refine congrArg List.sum (List.map_congr_left fun k _ => ?_)
  have ha := g.ranked_arena candidates
  exact (Arena.nodes_tree ha k false).trans (Arena.weight_group ha k).symm

/-- Listed below the groups are candidates and nested groups, each once and these by their span. -/
theorem nodesAll_children_le (hlen : candidates.length ≤ g.maxCandidates)
    (he : g.expression = .join op l r) :
    Anomaly.nodesAll (g.run candidates).children ≤
      Anomaly.nodesAll candidates + (g.arena candidates).size := by
  obtain ⟨tops, listing, haccounts⟩ := g.accounts_join hlen he
  let a := g.arena candidates
  have ha : a.Ranked := g.ranked_arena candidates
  have hgrows : Arena.Grows (.ofCandidates candidates) a := (g.pass_run candidates).toGrows
  have hsub := haccounts.listing_subperm ha hgrows
  have hpool : a.pool.map (fun x => (a.entry x).nodes) = a.pool.map a.weight := by
    refine List.map_congr_left fun x hx => ?_
    obtain ⟨i, _, rfl⟩ := List.mem_map.1 hx
    rfl
  have hspans : ((List.range a.size).map Item.group).map (fun x => (a.entry x).nodes) =
      List.replicate a.size 1 := by
    rw [List.map_map]
    refine List.eq_replicate_iff.2 ⟨by simp, fun n hn => ?_⟩
    obtain ⟨h, _, rfl⟩ := List.mem_map.1 hn
    exact Anomaly.nodes_eq _
  have hmass : a.mass = Anomaly.nodesAll candidates := hgrows.mass_eq
  have hle := Arena.sum_le_of_subperm hsub fun x => (a.entry x).nodes
  rw [List.map_append, List.sum_append, hpool, hspans, a.sum_weight_pool, List.sum_replicate_nat,
    hmass, Nat.mul_one] at hle
  rw [haccounts.children, Anomaly.nodesAll_eq_sum, List.map_map]
  exact hle

theorem nodesAll_join_le (hlen : candidates.length ≤ g.maxCandidates)
    (he : g.expression = .join op l r) :
    Anomaly.nodesAll (g.runFlat candidates) ≤
      5 * (2 ^ g.expression.operators - 1) * Anomaly.nodesAll candidates := by
  obtain ⟨tops, listing, haccounts⟩ := g.accounts_join hlen he
  have hgrown := g.grown_run candidates
  have hgroups := g.nodesAll_groups hlen he
  have hchildren := g.nodesAll_children_le hlen he
  have hflat : Anomaly.nodesAll (g.runFlat candidates) =
      Anomaly.nodesAll (g.run candidates).groups +
        Anomaly.nodesAll (g.run candidates).children := by
    rw [runFlat, Grouping.flat, haccounts.ungrouped, List.append_nil, Anomaly.nodesAll_append]
  have hmass : (Arena.ofCandidates candidates).mass = Anomaly.nodesAll candidates := rfl
  have hempty : (Arena.ofCandidates candidates).size = 0 := rfl
  have hweight := hgrown.weight
  have hsize := hgrown.size
  have hk : 1 ≤ g.expression.operators := by
    rw [he]
    exact Nat.le_add_left ..
  have hroot := Nat.mul_le_mul_right (Anomaly.nodesAll candidates) hk
  rw [hmass] at hweight hsize
  rw [hempty] at hsize
  obtain ⟨m, hm⟩ := Nat.exists_eq_add_of_le' (Nat.one_le_two_pow (n := g.expression.operators))
  rw [hm] at hweight hsize ⊢
  rw [Nat.add_sub_cancel]
  linarith

end Grouper

/-- **The output is bounded by the candidates and the number of operators.** Counted with all their
children, the anomalies that a pass with `k` operators gives are at most `5 * (2 ^ k - 1)` times
those it was given: five times with one operator, and about twice as many for each further one. -/
theorem Grouper.nodesAll_runFlat_le (g : Grouper) (candidates : List Anomaly)
    (hk : 1 ≤ g.expression.operators) :
    Anomaly.nodesAll (g.runFlat candidates) ≤
      5 * (2 ^ g.expression.operators - 1) * Anomaly.nodesAll candidates := by
  by_cases hlen : candidates.length ≤ g.maxCandidates
  · cases he : g.expression with
    | leaf stem =>
      rw [he] at hk
      exact absurd hk (Nat.not_succ_le_zero 0)
    | join op l r =>
      rw [← he]
      exact g.nodesAll_join_le hlen he
  · have hflat : g.runFlat candidates = candidates := by
      rw [runFlat, run, if_pos (Nat.lt_of_not_le hlen)]
      rfl
    have hpow : 2 ≤ 2 ^ g.expression.operators := Nat.le_pow hk
    rw [hflat]
    exact Nat.le_mul_of_pos_left _ (by omega)

/-- One overlap under one operator. -/
theorem Grouper.nodesAll_runFlat_overlapping :
    let g : Grouper := { expression := .join .and (.leaf "web") (.leaf "db") }
    let candidates : List Anomaly :=
      [(Anomaly.stored 1 7 0 10).withProperty Anomaly.componentProperty "web:load",
        (Anomaly.stored 2 7 5 20).withProperty Anomaly.componentProperty "db:load"]
    1 ≤ g.expression.operators ∧
      Anomaly.nodesAll (g.runFlat candidates) ≤
        5 * (2 ^ g.expression.operators - 1) * Anomaly.nodesAll candidates := by
  intro g candidates
  exact ⟨Nat.le_refl 1, g.nodesAll_runFlat_le candidates (Nat.le_refl 1)⟩

/-- Already with two operators, five times the number of operators is not enough: the inner one
makes a group of every two neighbours, and the outer one puts each of these in two groups. -/
theorem Grouper.nodesAll_runFlat_staircase :
    let g : Grouper :=
      { expression := .join .and (.join .and (.leaf "db") (.leaf "db")) (.leaf "db") }
    let candidates : List Anomaly :=
      [(1, 0, 1), (2, 1, 2), (3, 1, 3), (4, 1, 4), (5, 4, 5), (6, 4, 6), (7, 4, 7), (8, 4, 8),
        (9, 8, 9)].map fun (id, start, stop) =>
          (Anomaly.stored id 7 start stop).withProperty Anomaly.componentProperty "db:load"
    1 ≤ g.expression.operators ∧ candidates.length ≤ g.maxCandidates ∧
      5 * g.expression.operators * Anomaly.nodesAll candidates <
        Anomaly.nodesAll (g.runFlat candidates) := by
  intro g candidates
  exact ⟨by decide, by decide, by cbv⟩

end Outlier
