import Outlier.Grouping
import Outlier.Proofs.Grouping.Remains
import Outlier.Proofs.Grouping.Sweep

/-! # What an expression leaves

`Pass b items a` says what holds when the evaluation of an expression that began in `b` has come to
`a` and leaves `items`. Evaluation by induction on the expression gives it (`pass_evaluate`),
together with the candidates that lie in the items: those that a leaf of the expression selects
(`within_evaluate`). -/

namespace Outlier

/-- Does some leaf of the expression select the anomaly? -/
def Expression.selects (e : Expression) (x : Anomaly) : Bool :=
  e.leaves.any fun stem => Arena.hasStem stem x

namespace Arena

variable {a b c : Arena}

/-! ### Marking as free -/

theorem draft_markFree (a : Arena) (x : Item) (h : Nat) :
    (a.markFree x).draft h = { a.draft h with adopted := ((a.markFree x).draft h).adopted } := by
  cases x with
  | candidate i => rfl
  | group g =>
    rw [markFree, draft_update]
    split <;> rfl

theorem size_foldl_markFree (items : List Item) (a : Arena) :
    (items.foldl markFree a).size = a.size := by
  induction items generalizing a with
  | nil => rfl
  | cons x rest ih => exact (ih _).trans (a.size_markFree x)

theorem members_foldl_markFree (items : List Item) (a : Arena) (g : Nat) :
    ((items.foldl markFree a).draft g).members = (a.draft g).members := by
  induction items generalizing a with
  | nil => rfl
  | cons x rest ih =>
    refine (ih _).trans ?_
    rw [draft_markFree]

theorem Ranked.foldl_markFree (h : a.Ranked) (items : List Item) :
    (items.foldl markFree a).Ranked := by
  intro g k hk
  rw [members_foldl_markFree] at hk
  exact h g k hk

theorem Grows.markFree (h : Grows b a) (x : Item) : Grows b (a.markFree x) := by
  cases x with
  | candidate i => exact h
  | group g => exact h.update g fun _ => ⟨rfl, rfl⟩

theorem Grows.foldl_markFree (h : Grows b a) (items : List Item) :
    Grows b (items.foldl Arena.markFree a) := by
  induction items generalizing a with
  | nil => exact h
  | cons x rest ih => exact ih (h.markFree x)

/-! ### The invariant -/

/-- What holds when a pass that began in `b` has come to `a` and leaves `items`. -/
structure Pass (b : Arena) (items : List Item) (a : Arena) : Prop extends Grows b a where
  /-- The groups left are new. -/
  group : ∀ g, .group g ∈ items → b.size ≤ g ∧ g < a.size
  /-- New groups have candidates and earlier new groups as members. -/
  member : ∀ g, b.size ≤ g → ∀ h, .group h ∈ (a.draft g).members → b.size ≤ h ∧ h < g
  exact : ∀ g, b.size ≤ g → g < a.size → a.Exact g
  nodup : items.Nodup
  /-- No group left lies in another. -/
  apart : ∀ g h, .group g ∈ items → .group h ∈ items → ¬ a.Inside (.group g) h

namespace Pass

variable {left right items done : List Item}

theorem holds (h : Pass b items a) : ∀ x ∈ items, a.Holds x := by
  rintro _ hx g rfl
  exact (h.group g hx).2

theorem ranked (h : Pass b items a) (hb : b.Ranked) : a.Ranked := by
  intro g k hk
  by_cases hg : g < b.size
  · rw [h.old_members g hg] at hk
    exact hb g k hk
  · exact (h.member g (by omega) k hk).2

/-- What lies in a new group is a candidate or a new group. -/
theorem size_le_of_inside (h : Pass b items a) {g : Nat} (hg : b.size ≤ g) {k : Nat}
    (hk : a.Inside (.group k) g) : b.size ≤ k := by
  induction hk with
  | @member g hm => exact (h.member g hg k hm).1
  | @inner g l hl _ ih => exact ih (h.member g hg l hl).1

theorem apart_append (hl : Pass b left a) (hr : Pass a right c) (hb : b.Ranked) {g k : Nat}
    (hg : .group g ∈ left ++ right) (hk : .group k ∈ left ++ right) :
    ¬ c.Inside (.group g) k := by
  intro hin
  have ha := hl.ranked hb
  have hc := hr.ranked ha
  rcases List.mem_append.1 hk with hk | hk
  · have hka := (hl.group k hk).2
    rcases List.mem_append.1 hg with hg | hg
    · exact hl.apart g k hg hk ((hr.toGrows.inside_iff hc ha hka).1 hin)
    · have hgk := hc.lt hin
      have hga := (hr.group g hg).1
      omega
  · rcases List.mem_append.1 hg with hg | hg
    · have hag := hr.size_le_of_inside (hr.group k hk).1 hin
      have hga := (hl.group g hg).2
      omega
    · exact hr.apart g k hg hk hin

/-- What two passes leave one after the other, in the arena of the second. -/
theorem holds_append (hl : Pass b left a) (hr : Pass a right c) :
    ∀ x ∈ left ++ right, c.Holds x := by
  intro x hx
  rcases List.mem_append.1 hx with hx | hx
  · exact (hl.holds x hx).mono hr.size_le
  · exact hr.holds x hx

section

variable {d : Arena} (hl : Pass b left a) (hr : Pass a right c)
  (hdone : ∀ x, x ∈ done ↔ x ∈ left ++ right) (h : Layer c done d)

include hl hr hdone

/-- The groups among the items of a merge are new to the passes before it. -/
theorem size_le_of_mem_done {g : Nat} (hg : .group g ∈ done) : b.size ≤ g := by
  have hsize := hl.size_le
  rcases List.mem_append.1 ((hdone _).1 hg) with hg | hg
  · exact (hl.group g hg).1
  · have hag := (hr.group g hg).1
    omega

include h

theorem group_ofLayer {g : Nat} (hg : .group g ∈ d.results c.size) : b.size ≤ g ∧ g < d.size := by
  obtain ⟨k, hk, hor, hlt⟩ := h.group_of_mem_results hg
  obtain rfl : g = k := Item.group.inj hk
  refine ⟨?_, hlt⟩
  rcases hor with hd | hcg
  · exact hl.size_le_of_mem_done hr hdone hd
  · have hba := hl.size_le
    have hac := hr.size_le
    omega

theorem size_le_of_member {g : Nat} (hg : b.size ≤ g) {k : Nat}
    (hk : .group k ∈ (d.draft g).members) : b.size ≤ k := by
  have hba := hl.size_le
  have hac := hr.size_le
  by_cases hgc : g < c.size
  · rw [h.old_members g hgc] at hk
    by_cases hga : g < a.size
    · rw [hr.old_members g hga] at hk
      exact (hl.member g hg k hk).1
    · have hak := (hr.member g (by omega) k hk).1
      omega
  · rcases h.member g (by omega) _ hk with hd | ⟨l, hkl, hcl, _⟩
    · exact hl.size_le_of_mem_done hr hdone hd
    · have hkl : k = l := Item.group.inj hkl
      omega

omit hdone in
theorem exact_ofLayer (hb : b.Ranked) {g : Nat} (hg : b.size ≤ g) (hlt : g < d.size) :
    d.Exact g := by
  have ha := hl.ranked hb
  have hc := hr.ranked ha
  by_cases hga : g < a.size
  · exact (hr.toGrows.trans h.toGrows).exact hga (hl.exact g hg hga) (ha.holds hga)
  · by_cases hgc : g < c.size
    · exact h.toGrows.exact hgc (hr.exact g (by omega) hgc) (hc.holds hgc)
    · exact h.exact g (by omega) hlt

/-- A merge of what two passes leave makes one pass of them. -/
theorem ofLayer (hb : b.Ranked) :
    Pass b (d.results c.size) ((d.results c.size).foldl markFree d) := by
  have hc := hr.ranked (hl.ranked hb)
  have hd := h.ranked hc
  have hfree := (Grows.refl d).foldl_markFree (d.results c.size)
  have hranked := hd.foldl_markFree (d.results c.size)
  refine ⟨(hl.toGrows.trans hr.toGrows).trans (h.toGrows.trans hfree), fun g hg => ?_,
    fun g hg k hk => ⟨?_, hranked g k hk⟩, fun g hg hlt => ?_, h.nodup_results, fun g k hg hk => ?_⟩
  · rw [size_foldl_markFree]
    exact hl.group_ofLayer hr hdone h hg
  · rw [members_foldl_markFree] at hk
    exact hl.size_le_of_member hr hdone h hg hk
  · rw [size_foldl_markFree] at hlt
    exact hfree.exact hlt (hl.exact_ofLayer hr h hb hg hlt) (hd.holds hlt)
  · rw [hfree.inside_iff hranked hd (hl.group_ofLayer hr hdone h hk).2]
    refine h.not_inside_results hc (fun g k hg hk => ?_) hg hk
    have hkc : k < c.size := h.old_done _ hk k rfl
    rw [h.toGrows.inside_iff hd hc hkc]
    exact hl.apart_append hr hb ((hdone _).1 hg) ((hdone _).1 hk)

theorem within_ofLayer (hb : b.Ranked) (i : Nat) :
    ((d.results c.size).foldl markFree d).Within (d.results c.size) (.candidate i) ↔
      a.Within left (.candidate i) ∨ c.Within right (.candidate i) := by
  have ha := hl.ranked hb
  have hc := hr.ranked ha
  have hd := h.ranked hc
  have hranked := (hl.ofLayer hr hdone h hb).ranked hb
  have hresults : ∀ x ∈ d.results c.size, d.Holds x := by
    intro x hx g hg
    obtain ⟨k, hk, _, hlt⟩ := h.group_of_mem_results hx
    exact (Item.group.inj (hg.symm.trans hk)) ▸ hlt
  calc
    _ ↔ d.Within (d.results c.size) (.candidate i) :=
      ((Grows.refl d).foldl_markFree _).within_iff hranked hd hresults
    _ ↔ d.Within done (.candidate i) := h.within_results nofun
    _ ↔ c.Within done (.candidate i) := h.toGrows.within_iff hd hc h.old_done
    _ ↔ c.Within (left ++ right) (.candidate i) := within_congr hdone
    _ ↔ c.Within left (.candidate i) ∨ c.Within right (.candidate i) := within_append
    _ ↔ _ := or_congr_left (hr.toGrows.within_iff hc ha hl.holds)

end

end Pass

/-! ### Evaluation -/

/-- A merge is a layer on the arena it begins in, of which the results are collected. -/
theorem exists_layer_merge (c : Arena) (op : Operator) {left right : List Item}
    (hitems : ∀ x ∈ left ++ right, c.Holds x) :
    ∃ d, Layer c (c.sorted (left ++ right)) d ∧
      c.merge op left right = ((d.results c.size).foldl markFree d, d.results c.size) := by
  cases op with
  | and => exact ⟨_, layer_andSweep c hitems, rfl⟩
  | or => exact ⟨_, layer_orSweep c hitems, rfl⟩

theorem mem_select {stem : String} {x : Item} :
    x ∈ a.select stem ↔
      ∃ i, x = .candidate i ∧ i < a.candidates.size ∧ hasStem stem (a.candidate i) = true := by
  simp only [select, List.mem_map, List.mem_filter, List.mem_range]
  constructor
  · rintro ⟨i, ⟨hi, hs⟩, rfl⟩
    exact ⟨i, rfl, hi, hs⟩
  · rintro ⟨i, rfl, hi, hs⟩
    exact ⟨i, ⟨hi, hs⟩, rfl⟩

theorem pass_select (a : Arena) (stem : String) : Pass a (a.select stem) a := by
  have hno : ∀ g, .group g ∉ a.select stem := by
    intro g hg
    obtain ⟨i, hi, _⟩ := mem_select.1 hg
    exact absurd hi (by simp)
  refine ⟨.refl a, fun g hg => absurd hg (hno g), fun g hg k hk => ?_, fun g hg hlt => ?_, ?_,
    fun g _ hg => absurd hg (hno g)⟩
  · have hlt := lt_size_of_mem hk
    omega
  · omega
  · exact (List.nodup_range.filter _).map fun i j hij => Item.candidate.inj hij

theorem evaluate_join (a : Arena) (op : Operator) (l r : Expression) :
    a.evaluate (.join op l r) =
      ((a.evaluate l).1.evaluate r).1.merge op (a.evaluate l).2 ((a.evaluate l).1.evaluate r).2 :=
  rfl

theorem pass_evaluate (e : Expression) {a : Arena} (ha : a.Ranked) :
    Pass a (a.evaluate e).2 (a.evaluate e).1 := by
  induction e generalizing a with
  | leaf stem => exact a.pass_select stem
  | join op l r ihl ihr =>
    have hl := ihl ha
    have hr := ihr (hl.ranked ha)
    obtain ⟨d, hd, hmerge⟩ := exists_layer_merge _ op (hl.holds_append hr)
    rw [evaluate_join, hmerge]
    exact hl.ofLayer hr (fun _ => mem_sorted) hd ha

/-- The candidates that lie in what an expression leaves are those that it selects. -/
theorem within_evaluate (e : Expression) {a : Arena} (ha : a.Ranked) (i : Nat) :
    (a.evaluate e).1.Within (a.evaluate e).2 (.candidate i) ↔
      i < a.candidates.size ∧ e.selects (a.candidate i) = true := by
  induction e generalizing a with
  | leaf stem =>
    have hleaf : (Expression.leaf stem).selects (a.candidate i) = hasStem stem (a.candidate i) :=
      Bool.or_false _
    rw [hleaf]
    constructor
    · rintro (hi | ⟨g, hg, _⟩)
      · obtain ⟨j, hj, hsel⟩ := mem_select.1 hi
        obtain rfl := Item.candidate.inj hj
        exact hsel
      · obtain ⟨j, hj, _⟩ := mem_select.1 hg
        exact absurd hj (by simp)
    · intro hi
      exact .inl (mem_select.2 ⟨i, rfl, hi⟩)
  | join op l r ihl ihr =>
    have hl := pass_evaluate l ha
    have hr := pass_evaluate r (hl.ranked ha)
    obtain ⟨d, hd, hmerge⟩ := exists_layer_merge _ op (hl.holds_append hr)
    have hselects : (Expression.join op l r).selects (a.candidate i) =
        (l.selects (a.candidate i) || r.selects (a.candidate i)) := List.any_append
    rw [evaluate_join, hmerge, hl.within_ofLayer hr (fun _ => mem_sorted) hd ha, ihl ha,
      ihr (hl.ranked ha), hl.candidates, hl.toGrows.candidate, hselects, Bool.or_eq_true,
      and_or_left]

/-- An operator leaves groups only. -/
theorem group_of_mem_join (op : Operator) (l r : Expression) {a : Arena} (ha : a.Ranked) {x : Item}
    (hx : x ∈ (a.evaluate (.join op l r)).2) : ∃ g, x = .group g := by
  have hl := pass_evaluate l ha
  have hr := pass_evaluate r (hl.ranked ha)
  obtain ⟨d, hd, hmerge⟩ := exists_layer_merge _ op (hl.holds_append hr)
  rw [evaluate_join, hmerge] at hx
  obtain ⟨g, hg, _⟩ := hd.group_of_mem_results hx
  exact ⟨g, hg⟩

/-! ### Merges on the way -/

/-- A merge of an evaluation: the arena in which it begins, and what both sides leave. -/
structure Merging where
  arena : Arena
  op : Operator
  left : List Item
  right : List Item

/-- The merges that the evaluation of an expression makes, in their order. -/
def merges (a : Arena) : Expression → List Merging
  | .leaf _ => []
  | .join op l r =>
    let (b, left) := a.evaluate l
    let (c, right) := b.evaluate r
    a.merges l ++ b.merges r ++ [⟨c, op, left, right⟩]

theorem mem_merges_join {op : Operator} {l r : Expression} {m : Merging} :
    m ∈ a.merges (.join op l r) ↔
      m ∈ a.merges l ∨ m ∈ (a.evaluate l).1.merges r ∨
        m = ⟨((a.evaluate l).1.evaluate r).1, op, (a.evaluate l).2,
          ((a.evaluate l).1.evaluate r).2⟩ := by
  simp [merges]

end Arena
end Outlier
