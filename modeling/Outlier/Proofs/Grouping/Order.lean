import Outlier.Proofs.Grouping.Accounts
import Outlier.Proofs.Grouping.Renaming

/-! # The order of the candidates

A pass names candidates by their places, so that candidates in another order are renamed candidates.
An expression leaves the renamed items, for an operator in the same order (`Renamed.evaluate`,
`Renamed.items_join`): two candidates never start together, and groups come in the order in which
they were made. What is written for the items does not tell the names, so that a condition with an
operator at its root gives the same whatever the order of the candidates (`Grouper.run_perm`). -/

namespace Outlier
namespace Arena

variable {σ : Nat → Nat} {a b : Arena}

/-! ### Evaluation -/

/-- What the expression leaves in the second arena is what it leaves in the first, renamed; only
items that start at different times may stand in another order. -/
structure Renamed.Leaves (σ : Nat → Nat) (a b : Arena) (e : Expression) : Prop where
  arena : Renamed σ (a.evaluate e).1 (b.evaluate e).1
  items : SameByKey (fun x => ((b.evaluate e).1.span x).start) (b.evaluate e).2
    ((a.evaluate e).2.map (Item.rename σ))

namespace Renamed

theorem ranked (h : Renamed σ a b) (ha : a.Ranked) : b.Ranked := by
  intro g k hk
  rw [h.draft] at hk
  obtain ⟨x, hx, hxk⟩ := List.mem_map.1 hk
  cases x with
  | candidate i => exact absurd hxk (by simp [Item.rename])
  | group l =>
    obtain rfl : l = k := Item.group.inj hxk
    exact ha g l hx

theorem mem_select_iff (h : Renamed σ a b) (stem : String) (x : Item) :
    x ∈ b.select stem ↔ x ∈ (a.select stem).map (Item.rename σ) := by
  rw [mem_select, List.mem_map]
  constructor
  · rintro ⟨j, rfl, hj, hs⟩
    obtain ⟨i, hi, rfl⟩ := (h.range j).1 hj
    rw [h.candidate] at hs
    exact ⟨.candidate i, mem_select.2 ⟨i, rfl, hi, hs⟩, rfl⟩
  · rintro ⟨y, hy, rfl⟩
    obtain ⟨i, rfl, hi, hs⟩ := mem_select.1 hy
    refine ⟨σ i, rfl, (h.range _).2 ⟨i, hi, rfl⟩, ?_⟩
    rw [h.candidate]
    exact hs

theorem select (h : Renamed σ a b) (stem : String) :
    SameByKey (fun x => (b.span x).start) (b.select stem)
      ((a.select stem).map (Item.rename σ)) := by
  have hnodup : ((a.select stem).map (Item.rename σ)).Nodup :=
    (a.pass_select stem).nodup.map h.rename_injective
  refine .of_nodup (b.pass_select stem).nodup hnodup (h.mem_select_iff stem) ?_
  intro x hx y hy hxy
  obtain ⟨x', hx', rfl⟩ := List.mem_map.1 ((h.mem_select_iff stem x).1 hx)
  obtain ⟨y', hy', rfl⟩ := List.mem_map.1 ((h.mem_select_iff stem y).1 hy)
  obtain ⟨i, rfl, hi, _⟩ := mem_select.1 hx'
  obtain ⟨j, rfl, hj, _⟩ := mem_select.1 hy'
  rw [h.span, h.span] at hxy
  rw [h.distinct i hi j hj hxy]

theorem join (hb : b.Ranked) (op : Operator) {l r : Expression} (hl : Leaves σ a b l)
    (hr : Leaves σ (a.evaluate l).1 (b.evaluate l).1 r) :
    Renamed σ (a.evaluate (.join op l r)).1 (b.evaluate (.join op l r)).1 ∧
      (b.evaluate (.join op l r)).2 = (a.evaluate (.join op l r)).2.map (Item.rename σ) := by
  have hleft := pass_evaluate l hb
  have hright := pass_evaluate r (hleft.ranked hb)
  have hspan : ∀ x ∈ (b.evaluate l).2, (((b.evaluate l).1.evaluate r).1.span x).start =
      ((b.evaluate l).1.span x).start := by
    intro x hx
    rw [hright.toGrows.span_eq (hleft.holds x hx)]
  have hitems := (hl.items.congr hspan).append hr.items
  rw [← List.map_append] at hitems
  rw [evaluate_join, evaluate_join]
  exact hr.arena.merge op hitems

theorem evaluate (e : Expression) (h : Renamed σ a b) (hb : b.Ranked) : Leaves σ a b e := by
  induction e generalizing a b with
  | leaf stem => exact ⟨h, h.select stem⟩
  | join op l r ihl ihr =>
    have hl := ihl h hb
    have hr := ihr hl.arena ((pass_evaluate l hb).ranked hb)
    obtain ⟨harena, hitems⟩ := join hb op hl hr
    refine ⟨harena, ?_⟩
    rw [hitems]
    exact .refl _

theorem items_join (h : Renamed σ a b) (hb : b.Ranked) (op : Operator) (l r : Expression) :
    (b.evaluate (.join op l r)).2 = (a.evaluate (.join op l r)).2.map (Item.rename σ) := by
  have hl := h.evaluate l hb
  have hr := hl.arena.evaluate r ((pass_evaluate l hb).ranked hb)
  exact (join hb op hl hr).2

/-! ### Writing out -/

theorem tree (h : Renamed σ a b) (ha : a.Ranked) (g : Nat) (isChild : Bool) :
    b.tree g isChild = a.tree g isChild := by
  have hb := h.ranked ha
  induction g using Nat.strongRecOn generalizing isChild with
  | ind g ih =>
    have hnode : ∀ x ∈ (a.draft g).members, b.node (x.rename σ) = a.node x := by
      intro x hx
      cases x with
      | candidate i => exact congrArg Anomaly.asChild (h.candidate i)
      | group k => exact ih k (ha g k hx) true
    have hspan : (b.draft g).span = (a.draft g).span := h.span (.group g)
    have hnodes : ((a.draft g).members.map (Item.rename σ)).map b.node =
        (a.draft g).members.map a.node := by
      rw [List.map_map]
      exact List.map_congr_left hnode
    rw [tree_eq ha, tree_eq hb, h.members, hspan, hnodes]

theorem entry (h : Renamed σ a b) (ha : a.Ranked) (x : Item) :
    b.entry (x.rename σ) = a.entry x := by
  cases x with
  | candidate i => exact congrArg Anomaly.asChild (h.candidate i)
  | group g =>
    show b.entry (.group g) = a.entry (.group g)
    rw [entry_group (h.ranked ha), entry_group ha]
    exact congrArg Anomaly.outline (h.tree ha g true)

end Renamed

/-- Two listings that differ by the names of the candidates. -/
structure Listing.Renamed (σ : Nat → Nat) (l m : Listing) : Prop where
  seen : m.seen = l.seen.map (Item.rename σ)
  listed : m.listed = l.listed

namespace Renamed

variable {l m : Listing}

theorem mem_seen_iff (h : Renamed σ a b) (hl : l.Renamed σ m) (x : Item) :
    x.rename σ ∈ m.seen ↔ x ∈ l.seen := by
  rw [hl.seen, List.mem_map]
  constructor
  · rintro ⟨y, hy, hyx⟩
    obtain rfl : y = x := h.rename_injective y x hyx
    exact hy
  · intro hx
    exact ⟨x, hx, rfl⟩

/-- Adding a new item, given that this works for the groups before `g`. -/
theorem listMember (h : Renamed σ a b) (ha : a.Ranked) {g : Nat}
    (hbelow : ∀ k < g, ∀ l m : Listing, l.Renamed σ m →
      (a.listBelow k l).Renamed σ (b.listBelow k m))
    (hl : l.Renamed σ m) {x : Item} (hx : ∀ k, x = .group k → k < g) :
    (a.listMember l x).Renamed σ (b.listMember m (x.rename σ)) := by
  have hcons : Listing.Renamed σ ⟨x :: l.seen, l.listed ++ [a.entry x]⟩
      ⟨x.rename σ :: m.seen, m.listed ++ [b.entry (x.rename σ)]⟩ := by
    refine ⟨?_, ?_⟩
    · rw [hl.seen]
      rfl
    · rw [hl.listed, h.entry ha]
  cases x with
  | candidate i => exact hcons
  | group k => exact hbelow k (hx k rfl) _ _ hcons

theorem listBelow (h : Renamed σ a b) (ha : a.Ranked) (g : Nat) (l m : Listing)
    (hl : l.Renamed σ m) : (a.listBelow g l).Renamed σ (b.listBelow g m) := by
  have hb := h.ranked ha
  induction g using Nat.strongRecOn generalizing l m with
  | ind g ih =>
    rw [listBelow_eq ha, listBelow_eq hb, h.members]
    refine foldl_renamed (R := Listing.Renamed σ) (fun l m x hx hl => ?_) hl
    by_cases hseen : x ∈ l.seen
    · rw [if_pos hseen, if_pos ((h.mem_seen_iff hl x).2 hseen)]
      exact hl
    · rw [if_neg hseen, if_neg fun hm => hseen ((h.mem_seen_iff hl x).1 hm)]
      exact h.listMember ha ih hl fun k hk => ha g k (hk ▸ hx)

theorem listItem (h : Renamed σ a b) (ha : a.Ranked) (hl : l.Renamed σ m) (x : Item) :
    (a.listItem l x).Renamed σ (b.listItem m (x.rename σ)) := by
  cases x with
  | candidate i => exact hl
  | group g => exact h.listBelow ha g l m hl

/-- What is written for items does not tell the names of the candidates. -/
theorem ofItems (h : Renamed σ a b) (ha : a.Ranked) (items : List Item) :
    Grouping.ofItems b (items.map (Item.rename σ)) = Grouping.ofItems a items := by
  have hlisting : Listing.Renamed σ (items.foldl a.listItem {})
      ((items.map (Item.rename σ)).foldl b.listItem {}) :=
    foldl_renamed (R := Listing.Renamed σ) (fun _ _ x _ hl => h.listItem ha hl x) ⟨rfl, rfl⟩
  have hgroups : (Grouping.ofItems b (items.map (Item.rename σ))).groups =
      (Grouping.ofItems a items).groups := by
    show List.filterMap _ (items.map _) = _
    rw [List.filterMap_map]
    refine List.filterMap_congr fun x _ => ?_
    cases x with
    | candidate i => rfl
    | group g => exact congrArg some (h.tree ha g false)
  have hungrouped : (Grouping.ofItems b (items.map (Item.rename σ))).ungrouped =
      (Grouping.ofItems a items).ungrouped := by
    show List.filterMap _ (items.map _) = _
    rw [List.filterMap_map]
    refine List.filterMap_congr fun x _ => ?_
    cases x with
    | candidate i => exact congrArg some (h.candidate i)
    | group g => rfl
  exact Grouping.mk.injEq .. ▸ ⟨hgroups, hlisting.listed, hungrouped, rfl⟩

end Renamed

/-! ### Candidates in another order -/

/-- The place in the second list of the candidate at a place of the first. -/
def placeIn (l' l : List Anomaly) (i : Nat) : Nat :=
  match l[i]? with
  | some x => l'.idxOf x
  | none => i

section

variable {l l' : List Anomaly} {i : Nat}

theorem placeIn_of_lt (hi : i < l.length) : placeIn l' l i = l'.idxOf l[i] := by
  unfold placeIn
  rw [List.getElem?_eq_getElem hi]

theorem placeIn_of_le (hi : l.length ≤ i) : placeIn l' l i = i := by
  unfold placeIn
  rw [List.getElem?_eq_none hi]

theorem placeIn_lt (hperm : l.Perm l') (hi : i < l.length) : placeIn l' l i < l'.length := by
  rw [placeIn_of_lt hi]
  exact List.idxOf_lt_length_of_mem (hperm.mem_iff.1 (List.getElem_mem hi))

theorem getElem?_placeIn (hperm : l.Perm l') (i : Nat) : l'[placeIn l' l i]? = l[i]? := by
  by_cases hi : i < l.length
  · rw [placeIn_of_lt hi, List.getElem?_eq_getElem hi]
    exact List.getElem?_idxOf (hperm.mem_iff.1 (List.getElem_mem hi))
  · have hlen := hperm.length_eq
    have hle : l.length ≤ i := by omega
    have hle' : l'.length ≤ i := by omega
    rw [placeIn_of_le hle, List.getElem?_eq_none hle, List.getElem?_eq_none hle']

theorem placeIn_injective (hperm : l.Perm l') (hnodup : l.Nodup) (i j : Nat)
    (hij : placeIn l' l i = placeIn l' l j) : i = j := by
  have hget : l[i]? = l[j]? := by
    rw [← getElem?_placeIn hperm i, hij, getElem?_placeIn hperm j]
  by_cases hi : i < l.length
  · exact (List.getElem?_inj hi hnodup).1 hget
  · have hle : l.length ≤ i := by omega
    rw [List.getElem?_eq_none hle, eq_comm, List.getElem?_eq_none_iff] at hget
    rw [placeIn_of_le hle, placeIn_of_le hget] at hij
    exact hij

theorem exists_placeIn (hperm : l.Perm l') (hnodup : l'.Nodup) {j : Nat} (hj : j < l'.length) :
    ∃ i < l.length, placeIn l' l i = j := by
  obtain ⟨i, hi, hget⟩ := List.mem_iff_getElem.1 (hperm.mem_iff.2 (List.getElem_mem hj))
  refine ⟨i, hi, ?_⟩
  rw [placeIn_of_lt hi, hget]
  exact hnodup.idxOf_getElem j hj

/-- Candidates that start together are at the same place. -/
theorem eq_of_startTime_eq (hstarts : (l.map (·.startTime)).Nodup) {j : Nat} (hi : i < l.length)
    (hj : j < l.length) (hij : ((ofCandidates l).candidate i).startTime =
      ((ofCandidates l).candidate j).startTime) : i = j := by
  have hget : ∀ k (hk : k < l.length),
      (l.map (·.startTime))[k]? = some ((ofCandidates l).candidate k).startTime := by
    intro k hk
    rw [candidate_ofCandidates, List.getElem?_map, List.getElem?_eq_getElem hk]
    rfl
  have hsame : (l.map (·.startTime))[i]? = (l.map (·.startTime))[j]? := by
    rw [hget i hi, hget j hj, hij]
  have hlt : i < (l.map (·.startTime)).length := by
    rw [List.length_map]
    exact hi
  exact (List.getElem?_inj hlt hstarts).1 hsame

/-- Candidates in another order are renamed candidates. -/
theorem renamed_ofCandidates (hperm : l.Perm l') (hstarts : (l.map (·.startTime)).Nodup) :
    Renamed (placeIn l' l) (ofCandidates l) (ofCandidates l') := by
  have hnodup : l.Nodup := List.Nodup.of_map _ hstarts
  constructor
  case groups => exact Array.map_empty.symm
  case candidate =>
    intro i
    rw [candidate_ofCandidates, candidate_ofCandidates, getElem?_placeIn hperm]
  case injective => exact placeIn_injective hperm hnodup
  case range =>
    intro j
    constructor
    · exact exists_placeIn hperm (hperm.nodup_iff.1 hnodup)
    · rintro ⟨i, hi, rfl⟩
      exact placeIn_lt hperm hi
  case distinct => exact fun i hi j hj hij => eq_of_startTime_eq hstarts hi hj hij

end

end Arena

/-- **Grouping does not depend on the order of the candidates.** When no two of them start together,
a condition with an operator at its root gives the same groups, the same trees below them and the
same listing, each in the same order. -/
theorem Grouper.run_perm (g : Grouper) {candidates candidates' : List Anomaly}
    (hperm : candidates.Perm candidates') (hstarts : (candidates.map (·.startTime)).Nodup)
    (hlen : candidates.length ≤ g.maxCandidates) {op : Operator} {l r : Expression}
    (he : g.expression = .join op l r) : g.run candidates = g.run candidates' := by
  have hlen' : candidates'.length ≤ g.maxCandidates := hperm.length_eq ▸ hlen
  have hranked := Arena.ranked_ofCandidates candidates
  have hranked' := Arena.ranked_ofCandidates candidates'
  have hrenamed := Arena.renamed_ofCandidates hperm hstarts
  have harena := (hrenamed.evaluate g.expression hranked').arena
  have hitems : g.items candidates' =
      (g.items candidates).map (Item.rename (Arena.placeIn candidates' candidates)) := by
    unfold items
    rw [he]
    exact hrenamed.items_join hranked' op l r
  rw [g.run_eq hlen, g.run_eq hlen', hitems]
  exact (harena.ofItems (g.ranked_arena candidates) (g.items candidates)).symm

/-- Two overlapping anomalies in either order, under a nested condition. -/
theorem Grouper.run_perm_overlapping :
    let g : Grouper :=
      { expression := .join .or (.leaf "web") (.join .and (.leaf "web") (.leaf "db")) }
    let x := (Anomaly.stored 1 7 0 10).withProperty Anomaly.componentProperty "web:load"
    let y := (Anomaly.stored 2 7 5 20).withProperty Anomaly.componentProperty "db:load"
    g.run [x, y] = g.run [y, x] := by
  intro g x y
  have hlen : 2 ≤ 1000 := by decide
  have hstarts : [(0 : Int64), 5].Nodup := by decide
  exact g.run_perm (List.Perm.swap y x []) hstarts hlen rfl

end Outlier
