import Mathlib
import Outlier.Proofs.Grouping.Accounts
import Outlier.Proofs.Grouping.Nesting

/-! # Wrappers

A wrapper is a group whose only member is a group. A merge leaves the member in place of a wrapper,
but only if that lies in no other group. A conjunctive merge opens a wrapper for a group that opens
a run, and takes it into another group when the next item is enclosed; such a wrapper stays
(`Link.Wraps`). Others do not: a group of a disjunctive merge lies in no other, and in place of a
bare shadow its member is taken in. So a pass leaves no wrapper just when none of its conjunctive
merges has such a link (`Grouper.collapsed_run`). -/

namespace Outlier

namespace Arena

variable {a b c d : Arena} {done es outer items items' left right : List Item} {lead x : Item}
  {role : Role} {g n : Nat}

/-! ### Wrappers in an arena -/

/-- The only member of the group is a group. -/
def Wraps (a : Arena) (g : Nat) : Prop := ∃ h, (a.draft g).members = [.group h]

/-- One of the items is a wrapper, or one lies in them. -/
def HasWrapper (a : Arena) (items : List Item) : Prop := ∃ g, a.Within items (.group g) ∧ a.Wraps g

theorem hasWrapper_append :
    a.HasWrapper (left ++ right) ↔ a.HasWrapper left ∨ a.HasWrapper right := by
  simp only [HasWrapper, within_append, or_and_right, exists_or]

theorem hasWrapper_congr (h : ∀ y, y ∈ items ↔ y ∈ items') :
    a.HasWrapper items ↔ a.HasWrapper items' := by
  simp only [HasWrapper, within_congr h]

theorem Ranked.lt_of_within (ha : a.Ranked) (hitems : ∀ y ∈ items, b.Holds y)
    (h : a.Within items (.group g)) : g < b.size := by
  rcases h with h | ⟨k, hk, hin⟩
  · exact hitems _ h g rfl
  · have hgk := ha.lt hin
    have hkb := hitems _ hk k rfl
    omega

theorem Grows.hasWrapper_iff (hg : Grows b a) (ha : a.Ranked) (hb : b.Ranked)
    (hitems : ∀ y ∈ items, b.Holds y) : a.HasWrapper items ↔ b.HasWrapper items := by
  unfold HasWrapper
  refine exists_congr fun g => ?_
  rw [hg.within_iff ha hb hitems]
  refine and_congr_right fun hin => ?_
  rw [Wraps, Wraps, hg.old_members g (hb.lt_of_within hitems hin)]

namespace Layer

/-- What is left of a merge has a wrapper if the items have one, or if a wrapper has been taken into
another group. -/
theorem hasWrapper_results (h : Layer b done a) (hb : b.Ranked) :
    a.HasWrapper (a.results b.size) ↔ a.HasWrapper done ∨
      ∃ g, b.size ≤ g ∧ (a.draft g).adopted = true ∧ a.Wraps g := by
  constructor
  · rintro ⟨g, hin, hwraps⟩
    by_cases hg : b.size ≤ g
    · refine .inr ⟨g, hg, ?_, hwraps⟩
      by_contra hfree
      have hnot := h.not_inside_of_free hb hg (Bool.eq_false_iff.2 hfree)
      rcases hin with hr | ⟨k, _, hin⟩
      · obtain ⟨s, hs, _, hsr⟩ := mem_results.1 hr
        obtain ⟨_, _, hself | ⟨hm, _⟩⟩ := result?_eq_some hsr
        · obtain rfl := Item.group.inj hself
          obtain ⟨inner, hm⟩ := hwraps
          have hinner : g = inner := Item.group.inj (eq_of_result?_eq_some hsr hm)
          exact h.member_ne hg (Nat.le_refl g) (hm ▸ List.mem_singleton_self _)
            (hinner ▸ rfl)
        · exact hnot s (.member (hm ▸ List.mem_singleton_self _))
      · exact hnot k hin
    · have hold : b.Holds (.group g) := fun k hk => Item.group.inj hk ▸ Nat.lt_of_not_le hg
      exact .inl ⟨g, (h.within_results hold).1 hin, hwraps⟩
  · rintro (⟨g, hin, hwraps⟩ | ⟨g, hg, hadopted, hwraps⟩)
    · exact ⟨g, h.within_results_of_within hin, hwraps⟩
    · obtain ⟨k, hk, hm⟩ := (h.adopted_iff g hg).1 hadopted
      have hbare := h.not_bare_of_group_mem hg hk hm
      exact ⟨g, h.within_results_of_inside hk hbare (.member hm), hwraps⟩

/-- What is left of a merge has a wrapper if its sides have one, or if the merge has taken one into
another group. -/
theorem hasWrapper_collected (h : Layer c (c.sorted items) d) (hc : c.Ranked) :
    ((d.results c.size).foldl markFree d).HasWrapper (d.results c.size) ↔
      c.HasWrapper items ∨ ∃ g, c.size ≤ g ∧ (d.draft g).adopted = true ∧ d.Wraps g := by
  have hd := h.ranked hc
  have hresults : ∀ x ∈ d.results c.size, d.Holds x := by
    intro x hx g hg
    obtain ⟨k, hk, _, hlt⟩ := h.group_of_mem_results hx
    exact (Item.group.inj (hg.symm.trans hk)) ▸ hlt
  calc
    _ ↔ d.HasWrapper (d.results c.size) :=
      ((Grows.refl d).foldl_markFree _).hasWrapper_iff (hd.foldl_markFree _) hd hresults
    _ ↔ d.HasWrapper (c.sorted items) ∨ _ := h.hasWrapper_results hc
    _ ↔ c.HasWrapper (c.sorted items) ∨ _ :=
      or_congr_left (h.toGrows.hasWrapper_iff hd hc h.old_done)
    _ ↔ _ := or_congr_left (hasWrapper_congr fun _ => mem_sorted)

end Layer

/-! ### The disjunctive sweep -/

/-- The groups of the disjunctive sweep have items as members. -/
theorem not_adopted_orSweep (a : Arena) (hitems : ∀ y ∈ items, a.Holds y) (hg : a.size ≤ g) :
    (((a.sorted items).foldl Union.step ⟨a, none⟩).arena.draft g).adopted = false := by
  have hlayer := layer_orSweep a hitems
  obtain ⟨shares, hledger⟩ := exists_ledger_orSweep a hitems
  rw [Bool.eq_false_iff]
  intro hadopted
  obtain ⟨k, hk, hm⟩ := (hlayer.adopted_iff g hg).1 hadopted
  have hlt := lt_size_of_mem hm
  have hkey : k ∈ shares.flatMap Share.groups := by
    rw [hledger.groups, List.mem_range'_1]
    omega
  obtain ⟨e, he, hke⟩ := List.mem_flatMap.1 hkey
  obtain ⟨k', hgroups, hmembers, _⟩ := hledger.share e he
  rw [hgroups, List.mem_singleton] at hke
  rw [hke, hmembers] at hm
  have hitem := hledger.mem_flatten he hm
  rw [flatten_runs] at hitem
  exact absurd rfl ((hlayer.old_done _ hitem).ne_group hg)

/-! ### The conjunctive sweep -/

/-- A group opens the link, and items that it encloses come before a record. -/
def Link.Wraps (k : Link) : Prop :=
  k.role = .opening ∧ (∃ g, k.lead = .group g) ∧ k.enclosed ≠ []

namespace Nests

/-- The innermost of the nested groups has the lead alone, unless a record leads the link. -/
theorem exists_inner (h : Nests b a lead role es outer) (hrole : role ≠ .record) (hes : es ≠ []) :
    ∃ g, b.size ≤ g ∧ a.Within outer (.group g) ∧ (a.draft g).members = [lead] := by
  induction h with
  | lead => exact absurd rfl hes
  | record e h => exact absurd h hrole
  | @group e g es outer hnests _ hg hm ih =>
    by_cases hnil : es = []
    · refine ⟨g, hg, .inl (by simp), ?_⟩
      rw [hm, hnests.eq_singleton hnil]
    · obtain ⟨k, hk, hin, hmembers⟩ := ih hnil
      refine ⟨k, hk, .inr ⟨g, by simp, ?_⟩, hmembers⟩
      rw [inside_iff, hm]
      exact hin

theorem of_singleton (h : Nests b a lead role es [x]) : es = [] ∧ x = lead := by
  cases h
  exact ⟨rfl, rfl⟩

/-- Of the nested groups, only the innermost one may have a single member. -/
theorem of_within (h : Nests b a lead role es outer) (ha : a.Ranked)
    (hold : ∀ y ∈ lead :: es, b.Holds y) (hn : b.size ≤ n) (hin : a.Within outer (.group n))
    (hx : (a.draft n).members = [x]) : x = lead ∧ role ≠ .record ∧ es ≠ [] := by
  induction h with
  | lead =>
    have hlt := ha.lt_of_within hold hin
    omega
  | record e =>
    have hlt := ha.lt_of_within (fun y hy => hold y (by simpa [or_comm] using hy)) hin
    omega
  | @group e g es outer hnests hes hg hm ih =>
    have hes' : es ++ [e] ≠ [] := List.append_ne_nil_of_right_ne_nil _ (List.cons_ne_nil _ _)
    have hfirst : ∀ y ∈ lead :: es, b.Holds y := fun y hy => hold y (List.mem_append_left [e] hy)
    have hlast : ∀ y ∈ [e], b.Holds y := fun y hy =>
      hold y (List.mem_append_right (lead :: es) hy)
    have hcases : a.Within [e] (.group n) ∨ a.Within [.group g] (.group n) :=
      within_append.1 hin
    rcases hcases with he | hself | ⟨k, hk, hbelow⟩
    · have hlt := ha.lt_of_within hlast he
      omega
    · obtain rfl := Item.group.inj (List.mem_singleton.1 hself)
      rw [← hm, hx] at hnests
      obtain ⟨hnil, hlead⟩ := hnests.of_singleton
      exact ⟨hlead, fun hr => hes hr hnil, hes'⟩
    · obtain rfl := Item.group.inj (List.mem_singleton.1 hk)
      rw [inside_iff, hm] at hbelow
      obtain ⟨hlead, hrole, _⟩ := ih hfirst hbelow
      exact ⟨hlead, hrole, hes'⟩

end Nests

/-- What leads a link opens a run or is a record. -/
theorem opening_of_not_record {k : Link} (hk : k ∈ a.links items) (hrole : k.role ≠ .record) :
    k.role = .opening := by
  have hmem : (k.lead, k.role) ∈ (a.links items).map fun k => (k.lead, k.role) :=
    List.mem_map_of_mem hk
  rw [links, map_lead, List.mem_filter] at hmem
  cases hcase : k.role with
  | opening => rfl
  | record => exact absurd hcase hrole
  | enclosed => simp [hcase] at hmem

/-- If a wrapper lies in what a link makes, the link has one. -/
theorem wraps_of_inside {k : Link} (hk : k ∈ a.links items) (hmakes : k.Makes a c n)
    (hranked : c.Ranked) (hitems : ∀ y ∈ items, a.Holds y) (hg : a.size ≤ g)
    (hin : c.Inside (.group g) n) (hwraps : c.Wraps g) : k.Wraps := by
  obtain ⟨inner, hinner⟩ := hwraps
  have hholds : ∀ x ∈ k.items, a.Holds x := fun x hx => hitems x (mem_of_mem_links hk hx)
  obtain ⟨hown, hclosing⟩ := List.forall_mem_append.1 hholds
  obtain ⟨outer, hnests, hmembers⟩ := hmakes.nested
  rw [inside_iff, hmembers, within_append] at hin
  rcases hin with hin | hin
  · obtain ⟨hlead, hrole, hes⟩ := hnests.of_within hranked hown hg hin hinner
    exact ⟨opening_of_not_record hk hrole, ⟨inner, hlead.symm⟩, hes⟩
  · have hlt := hranked.lt_of_within hclosing hin
    omega

/-- If a link has a wrapper, one lies in what it makes. -/
theorem exists_wraps_inside {k : Link} (hk : k.Wraps) (hmakes : k.Makes a c n) :
    ∃ g, a.size ≤ g ∧ c.Inside (.group g) n ∧ c.Wraps g := by
  obtain ⟨hrole, ⟨inner, hlead⟩, hes⟩ := hk
  obtain ⟨outer, hnests, hmembers⟩ := hmakes.nested
  obtain ⟨g, hg, hin, hinner⟩ := hnests.exists_inner (by simp [hrole]) hes
  refine ⟨g, hg, ?_, inner, hlead ▸ hinner⟩
  rw [inside_iff, hmembers, within_append]
  exact .inl hin

/-- The wrappers that the conjunctive sweep takes into other groups are those of its links. -/
theorem wraps_andSweep (ha : a.Ranked) (hitems : ∀ y ∈ items, a.Holds y)
    (hc : ((a.sorted items).foldl Sweep.step ⟨a, []⟩).arena = c) :
    (∃ g, a.size ≤ g ∧ (c.draft g).adopted = true ∧ c.Wraps g) ↔ ∃ k ∈ a.links items, k.Wraps := by
  have hlayer : Layer a (a.sorted items) c := hc ▸ layer_andSweep a hitems
  obtain ⟨pieces, hlinks, hresults, hpieces⟩ :=
    exists_pieces_of_forall₂ (hc ▸ settled_andSweep a hitems)
  constructor
  · rintro ⟨g, hg, hadopted, hwraps⟩
    obtain ⟨outer, houter, hm⟩ := (hlayer.adopted_iff g hg).1 hadopted
    obtain ⟨s, hs, hlt, hin, r, hr⟩ := hlayer.exists_result (S := c.Inside (.group g))
      (fun _ _ _ hm hx => .inner hm hx) houter (lt_size_of_mem hm)
      (hlayer.not_bare_of_group_mem hg houter hm) (.member hm)
    have hmem : r ∈ pieces.map Piece.result := hresults ▸ mem_results.2 ⟨s, hs, hlt, hr⟩
    obtain ⟨p, hp, rfl⟩ := List.mem_map.1 hmem
    obtain ⟨t, _, ht, hmakes⟩ := hpieces p hp
    obtain rfl : s = t := hlayer.result?_inj hs hmakes.size_le hr ht
    have hlink : p.link ∈ a.links items :=
      List.mem_of_mem_filter (hlinks ▸ List.mem_map_of_mem hp)
    exact ⟨p.link, hlink, wraps_of_inside hlink hmakes (hlayer.ranked ha) hitems hg hin hwraps⟩
  · rintro ⟨k, hk, hwraps⟩
    have hbare : k.isBare = false := by simp [Link.isBare, hwraps.1]
    have hmem : k ∈ pieces.map Piece.link := by
      rw [hlinks, List.mem_filter, hbare]
      exact ⟨hk, rfl⟩
    obtain ⟨p, hp, rfl⟩ := List.mem_map.1 hmem
    obtain ⟨s, _, _, hmakes⟩ := hpieces p hp
    obtain ⟨g, hg, hin, hinner⟩ := exists_wraps_inside hwraps hmakes
    refine ⟨g, hg, ?_, hinner⟩
    by_contra hfree
    exact hlayer.not_inside_of_free ha hg (Bool.eq_false_iff.2 hfree) s hin

/-! ### Merges and evaluations -/

/-- The merge takes a wrapper into another group. -/
def Merging.Wraps (m : Merging) : Prop :=
  m.op = .and ∧ ∃ k ∈ m.arena.links (m.left ++ m.right), k.Wraps

theorem hasWrapper_merge (hc : c.Ranked) (op : Operator)
    (hitems : ∀ x ∈ left ++ right, c.Holds x) :
    (c.merge op left right).1.HasWrapper (c.merge op left right).2 ↔
      c.HasWrapper (left ++ right) ∨ Merging.Wraps ⟨c, op, left, right⟩ := by
  cases op with
  | and =>
    refine ((layer_andSweep c hitems).hasWrapper_collected hc).trans (or_congr_right ?_)
    rw [wraps_andSweep hc hitems rfl]
    exact (and_iff_right rfl).symm
  | or =>
    refine ((layer_orSweep c hitems).hasWrapper_collected hc).trans (or_congr_right ?_)
    constructor
    · rintro ⟨g, hg, hadopted, _⟩
      exact absurd ((not_adopted_orSweep c hitems hg).symm.trans hadopted) Bool.false_ne_true
    · exact fun h => absurd h.1 nofun

theorem hasWrapper_evaluate (e : Expression) (ha : a.Ranked) :
    (a.evaluate e).1.HasWrapper (a.evaluate e).2 ↔ ∃ m ∈ a.merges e, m.Wraps := by
  induction e generalizing a with
  | leaf stem =>
    constructor
    · rintro ⟨g, hg | ⟨k, hk, _⟩, _⟩
      · obtain ⟨i, hi, _⟩ := mem_select.1 hg
        exact absurd hi (by simp)
      · obtain ⟨i, hi, _⟩ := mem_select.1 hk
        exact absurd hi (by simp)
    · rintro ⟨m, hm, _⟩
      exact absurd hm List.not_mem_nil
  | join op l r ihl ihr =>
    have hl := pass_evaluate l ha
    have hb := hl.ranked ha
    have hr := pass_evaluate r hb
    have hc := hr.ranked hb
    rw [evaluate_join, hasWrapper_merge hc op (hl.holds_append hr), hasWrapper_append,
      hr.toGrows.hasWrapper_iff hc hb hl.holds, ihl ha, ihr hb]
    simp only [mem_merges_join, or_and_right, exists_or, exists_eq_left, or_assoc]

end Arena

/-! ### Groupings -/

/-- The only child of the anomaly is a group. -/
def Anomaly.IsWrapper (t : Anomaly) : Prop := ∃ c : Anomaly, t.children = [c] ∧ c.component? = none

/-- No group of the grouping is a wrapper, at any depth. -/
def Grouping.Collapsed (r : Grouping) : Prop :=
  ∀ top ∈ r.groups, ¬ top.IsWrapper ∧
    ∀ t : Anomaly, t.Below top → t.component? = none → ¬ t.IsWrapper

theorem Arena.isWrapper_tree {a : Arena} (ha : a.Ranked) {g : Nat} (hn : a.Named g)
    (isChild : Bool) : (a.tree g isChild).IsWrapper ↔ a.Wraps g := by
  unfold Anomaly.IsWrapper
  rw [children_tree ha]
  constructor
  · rintro ⟨c, hc, hcomp⟩
    obtain ⟨x, hx, rfl⟩ := List.map_eq_singleton_iff.1 hc
    obtain ⟨h, rfl⟩ := group_of_component? hn (.member (hx ▸ List.mem_singleton_self x)) hcomp
    exact ⟨h, hx⟩
  · rintro ⟨h, hm⟩
    rw [hm]
    exact ⟨_, rfl, component?_tree ha h true⟩

namespace Grouper

variable (g : Grouper) {candidates : List Anomaly}

/-- The groups of a pass show the wrappers of its arena. -/
theorem collapsed_iff (hlen : candidates.length ≤ g.maxCandidates) {op : Operator}
    {l r : Expression} (he : g.expression = .join op l r) :
    (g.run candidates).Collapsed ↔ ¬ (g.arena candidates).HasWrapper (g.items candidates) := by
  have ha := g.ranked_arena candidates
  obtain ⟨tops, htops⟩ := g.exists_tops candidates he
  have hn : ∀ k ∈ tops, (g.arena candidates).Named k := fun k hk =>
    g.named_arena (htops ▸ List.mem_map_of_mem hk)
  rw [g.run_eq hlen, htops, Grouping.ofItems_groups]
  constructor
  · rintro h ⟨n, hn' | ⟨k, hk, hin⟩, hwraps⟩
    · obtain ⟨k, hk, hkn⟩ := List.mem_map.1 hn'
      obtain rfl := Item.group.inj hkn
      exact (h _ (List.mem_map_of_mem hk)).1 ((Arena.isWrapper_tree ha (hn k hk) false).2 hwraps)
    · obtain ⟨k', hk', hkk⟩ := List.mem_map.1 hk
      obtain rfl := Item.group.inj hkk
      have hnamed : (g.arena candidates).Named n := fun i hi => hn k' hk' i (hin.trans hi)
      exact (h _ (List.mem_map_of_mem hk')).2 _
        ((Arena.below_tree ha (hn k' hk') false _).2 ⟨_, hin, rfl⟩)
        (Arena.component?_tree ha n true) ((Arena.isWrapper_tree ha hnamed true).2 hwraps)
  · intro h top htop
    obtain ⟨k, hk, rfl⟩ := List.mem_map.1 htop
    have hmem : Item.group k ∈ tops.map Item.group := List.mem_map_of_mem hk
    refine ⟨fun hwraps => h ⟨k, .inl hmem, ?_⟩, fun t ht hcomp hwraps => ?_⟩
    · exact (Arena.isWrapper_tree ha (hn k hk) false).1 hwraps
    · obtain ⟨x, hin, rfl⟩ := (Arena.below_tree ha (hn k hk) false t).1 ht
      obtain ⟨n, rfl⟩ := Arena.group_of_component? (hn k hk) hin hcomp
      have hnamed : (g.arena candidates).Named n := fun i hi => hn k hk i (hin.trans hi)
      exact h ⟨n, .inr ⟨k, hmem, hin⟩, (Arena.isWrapper_tree ha hnamed true).1 hwraps⟩

/-- **Wrappers that stay.** No group of a grouping has a single member that is a group, at any
depth, if and only if no merge on the way has taken a wrapper into another group: in no conjunctive
merge, a group opens a link and encloses the item that comes next. -/
theorem collapsed_run (candidates : List Anomaly) :
    (g.run candidates).Collapsed ↔
      g.maxCandidates < candidates.length ∨
        ∀ m ∈ (Arena.ofCandidates candidates).merges g.expression, ¬ m.Wraps := by
  by_cases hlen : candidates.length ≤ g.maxCandidates
  · rw [or_iff_right (Nat.not_lt.2 hlen)]
    cases he : g.expression with
    | leaf stem =>
      rw [g.run_leaf hlen he]
      simp [Grouping.Collapsed, Arena.merges]
    | join op l r =>
      rw [g.collapsed_iff hlen he, arena, items,
        Arena.hasWrapper_evaluate _ (Arena.ranked_ofCandidates candidates), he]
      simp only [not_exists, not_and]
  · have hmany : g.maxCandidates < candidates.length := Nat.lt_of_not_le hlen
    refine iff_of_true ?_ (.inl hmany)
    rw [run, if_pos hmany]
    exact fun top htop => absurd htop List.not_mem_nil

/-- A group that encloses the second anomaly stays in a group of its own. -/
theorem not_collapsed_enclosing :
    let g : Grouper :=
      { expression := .join .and (.join .or (.leaf "a") (.leaf "a")) (.leaf "b") }
    let candidates : List Anomaly :=
      [(Anomaly.stored 1 7 0 100).withProperty Anomaly.componentProperty "a",
        (Anomaly.stored 2 7 10 20).withProperty Anomaly.componentProperty "b"]
    candidates.length ≤ g.maxCandidates ∧ ¬ (g.run candidates).Collapsed := by
  intro g candidates
  have hgroups : (g.run candidates).groups.any (fun top => top.children.any fun w =>
      w.component? = none && w.children.length = 1 && w.children.all (·.component? = none)) =
        true := by cbv
  refine ⟨by decide, fun h => ?_⟩
  obtain ⟨top, htop, hany⟩ := List.any_eq_true.1 hgroups
  obtain ⟨w, hw, hwraps⟩ := List.any_eq_true.1 hany
  simp only [Bool.and_eq_true, decide_eq_true_eq, List.all_eq_true] at hwraps
  obtain ⟨⟨hcomp, hlen⟩, hall⟩ := hwraps
  obtain ⟨c, hc⟩ := List.length_eq_one_iff.1 hlen
  exact (h top htop).2 w (.child hw) hcomp ⟨c, hc, hall c (hc ▸ List.mem_singleton_self c)⟩

end Grouper

end Outlier
