import Mathlib.Data.List.Forall2
import Mathlib.Data.List.Pairwise
import Outlier.Proofs.Grouping.Evaluation
import Outlier.Proofs.Grouping.Runs

/-! # Conjunction refines disjunction

Both merges cut their items into the same runs. A disjunctive merge leaves one group for a run; what
a conjunctive merge leaves for it takes the same items and covers the same time
(`andMerge_refines_orMerge`). -/

namespace Outlier.Arena

variable {a a' b : Arena} {done : List Item} {x y r : Item}

/-! ### What a result takes in -/

/-- In a merge that began in `b` and has come to `a`, the item `x` of `b` is `r`, or `r` is a new
group that takes it in, at any depth. -/
inductive Takes (b a : Arena) (x : Item) : Item → Prop where
  | self (hx : b.Holds x) : Takes b a x x
  | member {g : Nat} {y : Item} (hg : b.size ≤ g) (hy : y ∈ (a.draft g).members)
      (h : Takes b a x y) : Takes b a x (.group g)

theorem takes_of_holds (hr : b.Holds r) : Takes b a x r ↔ x = r := by
  constructor
  · rintro (_ | ⟨hg, _, _⟩)
    · rfl
    · exact absurd rfl (hr.ne_group hg)
  · rintro rfl
    exact .self hr

theorem takes_group {g : Nat} (hg : b.size ≤ g) :
    Takes b a x (.group g) ↔ ∃ y ∈ (a.draft g).members, Takes b a x y := by
  constructor
  · rintro (hx | ⟨_, hy, h⟩)
    · exact absurd rfl (hx.ne_group hg)
    · exact ⟨_, hy, h⟩
  · rintro ⟨y, hy, h⟩
    exact .member hg hy h

theorem Takes.congr (h : Takes b a x r) (hm : ∀ g, (a'.draft g).members = (a.draft g).members) :
    Takes b a' x r := by
  induction h with
  | self hx => exact .self hx
  | member hg hy _ ih => exact .member hg (hm _ ▸ hy) ih

namespace Layer

/-- The span of a new group is the hull of the items it takes in. -/
theorem isHull_takes (h : Layer b done a) {g : Nat} (hg : b.size ≤ g) (hlt : g < a.size) :
    (a.draft g).span.IsHull fun s => ∃ x, Takes b a x (.group g) ∧ b.span x = s := by
  induction g using Nat.strongRecOn with
  | ind g ih =>
    have hmembers := (h.exact g hg hlt).trans
      (q := fun y s => ∃ x, Takes b a x y ∧ b.span x = s) fun y hy => ?_
    · refine hmembers.congr fun s => ?_
      simp only [takes_group hg]
      constructor
      · rintro ⟨y, hy, x, hx, hs⟩
        exact ⟨x, ⟨y, hy, hx⟩, hs⟩
      · rintro ⟨x, ⟨y, hy, hx⟩, hs⟩
        exact ⟨y, hy, x, hx, hs⟩
    · rcases h.member g hg y hy with hd | ⟨k, rfl, hk, hkg⟩
      · have hy := h.old_done y hd
        rw [h.span_eq hy]
        refine (Span.isHull_self _).congr fun s => ?_
        simp [takes_of_holds hy, eq_comm]
      · exact ih k hkg hk (by omega)

theorem isHull_result (h : Layer b done a) (hr : r ∈ a.results b.size) :
    (a.span r).IsHull fun s => ∃ x, Takes b a x r ∧ b.span x = s := by
  obtain ⟨g, rfl, hold | hnew, hlt⟩ := h.group_of_mem_results hr
  · have hg := h.old_done _ hold
    rw [h.span_eq hg]
    refine (Span.isHull_self _).congr fun s => ?_
    simp [takes_of_holds hg, eq_comm]
  · exact h.isHull_takes hnew hlt

/-- Every item is taken in by a result. -/
theorem exists_takes (h : Layer b done a) (hx : x ∈ done) :
    ∃ r ∈ a.results b.size, Takes b a x r := by
  obtain ⟨g, hg, hbare, hm⟩ := h.recorded x hx
  obtain ⟨k, hk, hlt, htakes, r, hr⟩ :=
    h.exists_result (S := fun k => Takes b a x (.group k)) (fun _ _ hk hm hx => .member hk hm hx)
      hg (lt_size_of_mem hm) hbare (.member hg hm (.self (h.old_done x hx)))
  refine ⟨r, mem_results.2 ⟨k, hk, hlt, hr⟩, ?_⟩
  obtain ⟨_, _, rfl | ⟨hm, _⟩⟩ := result?_eq_some hr
  · exact htakes
  · obtain ⟨y, hy, hxy⟩ := (takes_group hk).1 htakes
    rw [hm, List.mem_singleton] at hy
    exact hy ▸ hxy

end Layer

/-! ### What a merge leaves of a run -/

/-- The results among the groups of a share. -/
def Share.results (e : Share) (a : Arena) : List Item := e.groups.filterMap a.result?

/-- The result among the groups of a share that has one. -/
def Share.whole (e : Share) (a : Arena) : Item := (e.results a).headD default

namespace Ledger

variable {P : Share → Arena → Prop} {rs : List (List Item)} {shares : List Share} {e : Share}

theorem results_eq (h : Ledger P b a rs shares) :
    a.results b.size = shares.flatMap fun e => e.results a := by
  rw [results, ← h.groups, List.filterMap_flatMap]
  rfl

/-- Every new group was opened for a run. -/
theorem exists_share (h : Ledger P b a rs shares) {g : Nat} (hg : b.size ≤ g) (hlt : g < a.size) :
    ∃ e ∈ shares, g ∈ e.groups := by
  rw [← List.mem_flatMap, h.groups, List.mem_range'_1]
  omega

theorem mem_results (h : Ledger P b a rs shares) :
    r ∈ a.results b.size ↔ ∃ e ∈ shares, r ∈ e.results a := by
  rw [h.results_eq, List.mem_flatMap]

theorem mem_flatten (h : Ledger P b a rs shares) (he : e ∈ shares) (hx : x ∈ e.run) :
    x ∈ rs.flatten := by
  rw [← h.runs]
  exact List.mem_flatten.2 ⟨e.run, List.mem_map.2 ⟨e, he, rfl⟩, hx⟩

theorem eq_of_mem (h : Ledger P b a rs shares) (hnodup : rs.flatten.Nodup) {e' : Share}
    (he : e ∈ shares) (he' : e' ∈ shares) (hx : x ∈ e.run) (hx' : x ∈ e'.run) : e = e' := by
  rw [← h.runs, ← List.flatMap_def, List.nodup_flatMap] at hnodup
  have hsymm : Std.Symm (Function.onFun List.Disjoint Share.run) :=
    ⟨fun _ _ hd _ hx hx' => hd hx' hx⟩
  by_contra hne
  exact hnodup.2.forall he he' hne hx hx'

section

variable (h : Ledger Share.Closed b a rs shares) (hlayer : Layer b rs.flatten a)

include h hlayer

/-- A new group for a run takes in items of that run alone. -/
theorem mem_run_of_takes (he : e ∈ shares) (hx : Takes b a x r)
    (hr : r ∈ e.run ∨ ∃ g ∈ e.groups, r = .group g) : x ∈ e.run := by
  induction hx with
  | self hx =>
    rcases hr with hr | ⟨g, hg, rfl⟩
    · exact hr
    · exact absurd rfl (hx.ne_group (h.mem_groups he hg).1)
  | @member g y hg hy _ ih =>
    rcases hr with hr | ⟨k, hk, hgk⟩
    · exact absurd rfl ((hlayer.old_done _ (h.mem_flatten he hr)).ne_group hg)
    · obtain rfl := Item.group.inj hgk
      exact ih (h.share e he g hk y hy)

theorem mem_run_of_result (he : e ∈ shares) (hr : r ∈ e.results a) (hx : Takes b a x r) :
    x ∈ e.run := by
  obtain ⟨g, hg, hgr⟩ := List.mem_filterMap.1 hr
  refine h.mem_run_of_takes hlayer he hx ?_
  obtain ⟨_, _, rfl | ⟨hm, _⟩⟩ := result?_eq_some hgr
  · exact .inr ⟨g, hg, rfl⟩
  · exact h.share e he g hg r (hm ▸ List.mem_singleton_self _)

/-- The items of a run are those that its results take in. -/
theorem mem_run_iff (hnodup : rs.flatten.Nodup) (he : e ∈ shares) :
    x ∈ e.run ↔ ∃ r ∈ e.results a, Takes b a x r := by
  constructor
  · intro hx
    obtain ⟨r, hr, htakes⟩ := hlayer.exists_takes (h.mem_flatten he hx)
    obtain ⟨e', he', hr⟩ := h.mem_results.1 hr
    have hx' := h.mem_run_of_result hlayer he' hr htakes
    exact ⟨r, h.eq_of_mem hnodup he he' hx hx' ▸ hr, htakes⟩
  · rintro ⟨r, hr, htakes⟩
    exact h.mem_run_of_result hlayer he hr htakes

end

/-- The only group of a run has a result: its member if that is a single group, and else itself. -/
theorem results_single (h : Ledger Share.Single b a rs shares) (hlayer : Layer b rs.flatten a)
    (he : e ∈ shares) :
    e.results a = [e.whole a] ∧ ∃ g, b.size ≤ g ∧ (a.draft g).members = e.run ∧
      e.whole a = match e.run with | [.group inner] => .group inner | _ => .group g := by
  obtain ⟨g, hgroups, hmembers, hshadow⟩ := h.share e he
  obtain ⟨hg, hlt⟩ := h.mem_groups he (hgroups ▸ List.mem_singleton_self g)
  have hbare : (a.draft g).isBareShadow = false := by
    rw [Draft.isBareShadow, hshadow, Bool.false_and]
  have hdiscarded := hlayer.discarded_of_not_bare hg hbare
  have hadopted : (a.draft g).adopted = false := by
    rw [Bool.eq_false_iff, Ne, hlayer.adopted_iff g hg]
    rintro ⟨k, hk, hm⟩
    obtain ⟨e', he', hk'⟩ := h.exists_share hk (lt_size_of_mem hm)
    obtain ⟨k', hgroups', hmembers', _⟩ := h.share e' he'
    rw [hgroups', List.mem_singleton] at hk'
    rw [hk', hmembers'] at hm
    exact absurd rfl ((hlayer.old_done _ (h.mem_flatten he' hm)).ne_group hg)
  have hresults : e.results a =
      [match e.run with | [.group inner] => .group inner | _ => .group g] := by
    rw [Share.results, hgroups, List.filterMap_cons,
      result?_of_free hadopted hdiscarded hbare, hmembers]
    rfl
  rw [Share.whole, hresults]
  exact ⟨rfl, g, hg, hmembers, rfl⟩

/-- With one group for each run, a merge leaves one result for each run. -/
theorem results_eq_map (h : Ledger Share.Single b a rs shares) (hlayer : Layer b rs.flatten a) :
    a.results b.size = shares.map fun e => e.whole a := by
  rw [h.results_eq, List.map_eq_flatMap]
  exact List.flatMap_congr fun e he => (h.results_single hlayer he).1

end Ledger

/-! ### The two merges -/

theorem span_foldl_markFree (items : List Item) (a : Arena) (y : Item) :
    (items.foldl markFree a).span y = a.span y := by
  induction items generalizing a with
  | nil => rfl
  | cons x rest ih =>
    refine (ih _).trans ?_
    cases y with
    | candidate i => cases x <;> rfl
    | group g =>
      simp only [span]
      rw [draft_markFree]

/-- A run of items, with what the two merges leave of it. -/
structure Run where
  items : List Item
  /-- What the disjunctive merge leaves. -/
  whole : Item
  /-- What the conjunctive merge leaves. -/
  parts : List Item

/-- The conjunctive merge, which has come to `c`, refines the disjunctive one, which has come to
`d`, on a run of items of the arena `a`. -/
structure Run.Refined (run : Run) (a c d : Arena) : Prop where
  /-- The disjunctive merge has made one group of exactly the items of the run, and leaves it, or
  the only item when that is a group already. -/
  whole : ∃ g, a.size ≤ g ∧ (d.draft g).members = run.items ∧
    run.whole = match run.items with | [.group inner] => .group inner | _ => .group g
  /-- What the conjunctive merge leaves takes in items of the run, and no others. -/
  part : ∀ r ∈ run.parts, (∃ x, Takes a c x r) ∧ ∀ x, Takes a c x r → x ∈ run.items
  /-- It takes in all items of the run. -/
  covered : ∀ x ∈ run.items, ∃ r ∈ run.parts, Takes a c x r
  /-- It covers the same time. -/
  hull : (d.span run.whole).IsHull fun s => ∃ r ∈ run.parts, c.span r = s

/-- Two lists with the same keys can be read side by side. -/
theorem exists_zip {α β κ : Type} {f : α → κ} {g : β → κ} {l : List α} {l' : List β}
    (h : l.map f = l'.map g) :
    ∃ z : List (α × β), z.map Prod.fst = l ∧ z.map Prod.snd = l' ∧ ∀ p ∈ z, f p.1 = g p.2 := by
  have hlen : l.length = l'.length := by simpa using congrArg List.length h
  refine ⟨l.zip l', List.map_fst_zip (Nat.le_of_eq hlen), List.map_snd_zip (Nat.le_of_eq hlen.symm),
    fun p hp => ?_⟩
  have hall : List.Forall₂ Eq (l.map f) (l'.map g) := by
    rw [List.forall₂_eq_eq_eq]
    exact h
  rw [List.forall₂_map_left_iff, List.forall₂_map_right_iff, List.forall₂_iff_zip] at hall
  exact hall.2 hp

namespace Run.Refined

variable {run : Run} {c c' d d' : Arena}

theorem congr (h : run.Refined a c d) (hmc : ∀ g, (c'.draft g).members = (c.draft g).members)
    (hsc : ∀ y, c'.span y = c.span y) (hmd : ∀ g, (d'.draft g).members = (d.draft g).members)
    (hsd : ∀ y, d'.span y = d.span y) : run.Refined a c' d' where
  whole := by
    obtain ⟨g, hg, hm, hwhole⟩ := h.whole
    exact ⟨g, hg, (hmd g).trans hm, hwhole⟩
  part r hr := by
    obtain ⟨⟨x, hx⟩, hall⟩ := h.part r hr
    exact ⟨⟨x, hx.congr hmc⟩, fun y hy => hall y (hy.congr fun g => (hmc g).symm)⟩
  covered x hx := by
    obtain ⟨r, hr, htakes⟩ := h.covered x hx
    exact ⟨r, hr, htakes.congr hmc⟩
  hull := by
    rw [hsd]
    simp only [hsc]
    exact h.hull

end Run.Refined

/-- A run, with the shares that the two sweeps have for it. -/
theorem refined_of_shares {c d : Arena} {rs : List (List Item)} {shares shares' : List Share}
    {e e' : Share} (hnodup : rs.flatten.Nodup)
    (hd : Ledger Share.Single a d rs shares) (hlayerd : Layer a rs.flatten d) (he : e ∈ shares)
    (hc : Ledger Share.Closed a c rs shares') (hlayerc : Layer a rs.flatten c) (he' : e' ∈ shares')
    (hrun : e.run = e'.run) : Run.Refined ⟨e.run, e.whole d, e'.results c⟩ a c d where
  whole := (hd.results_single hlayerd he).2
  part r hr := by
    have hmem : r ∈ c.results a.size := hc.mem_results.2 ⟨e', he', hr⟩
    obtain ⟨_, ⟨x, hx, _⟩, _⟩ := (hlayerc.isHull_result hmem).start_attained
    exact ⟨⟨x, hx⟩, fun y hy => hrun ▸ hc.mem_run_of_result hlayerc he' hr hy⟩
  covered x hx := (hc.mem_run_iff hlayerc hnodup he').1 (hrun ▸ hx)
  hull := by
    obtain ⟨hresults, _⟩ := hd.results_single hlayerd he
    have hmem : e.whole d ∈ d.results a.size :=
      hd.mem_results.2 ⟨e, he, hresults ▸ List.mem_singleton_self _⟩
    have htakes : ∀ x, Takes a d x (e.whole d) ↔ ∃ r ∈ e'.results c, Takes a c x r := by
      intro x
      calc
        _ ↔ ∃ r ∈ e.results d, Takes a d x r := by simp [hresults]
        _ ↔ x ∈ e.run :=
          ((hd.mono fun _ => Share.Single.closed).mem_run_iff hlayerd hnodup he).symm
        _ ↔ _ := by rw [hrun, hc.mem_run_iff hlayerc hnodup he']
    have hwhole : (d.span (e.whole d)).IsHull
        fun s => ∃ r, r ∈ e'.results c ∧ ∃ x, Takes a c x r ∧ a.span x = s := by
      refine (hlayerd.isHull_result hmem).congr fun s => ?_
      simp only [htakes]
      constructor
      · rintro ⟨x, ⟨r, hr, hx⟩, hs⟩
        exact ⟨r, hr, x, hx, hs⟩
      · rintro ⟨r, hr, x, hx, hs⟩
        exact ⟨x, ⟨r, hr, hx⟩, hs⟩
    exact hwhole.of_covers fun r hr => hlayerc.isHull_result (hc.mem_results.2 ⟨e', he', hr⟩)

section

variable (a : Arena) {left right : List Item} (hitems : ∀ x ∈ left ++ right, a.Holds x)

include hitems

/-- A disjunctive merge collects the results of groups that were opened one for each run. -/
theorem exists_ledger_orMerge :
    ∃ d shares, Layer a (a.runs (left ++ right)).flatten d ∧
      Ledger Share.Single a d (a.runs (left ++ right)) shares ∧
      a.orMerge left right = ((d.results a.size).foldl markFree d, d.results a.size) := by
  obtain ⟨shares, hledger⟩ := exists_ledger_orSweep a hitems
  have hlayer := layer_orSweep a hitems
  exact ⟨_, shares, (a.flatten_runs _).symm ▸ hlayer, hledger, rfl⟩

theorem exists_ledger_andMerge :
    ∃ c shares, Layer a (a.runs (left ++ right)).flatten c ∧
      Ledger Share.Closed a c (a.runs (left ++ right)) shares ∧
      a.andMerge left right = ((c.results a.size).foldl markFree c, c.results a.size) := by
  obtain ⟨shares, hledger⟩ := exists_ledger_andSweep a hitems
  have hlayer := layer_andSweep a hitems
  exact ⟨_, shares, (a.flatten_runs _).symm ▸ hlayer, hledger, rfl⟩

end

/-- **Conjunction refines disjunction.** Both merges of the same items of an arena, candidates and
groups that are there, cut the items, sorted and without repeats, into the same runs. The
disjunctive merge leaves one result for each run, in the order of the runs; what the conjunctive
merge leaves for the run takes in the same items and covers the same time. -/
theorem andMerge_refines_orMerge (a : Arena) {left right : List Item}
    (hitems : ∀ x ∈ left ++ right, a.Holds x) :
    (a.runs (left ++ right)).flatten = a.sorted (left ++ right) ∧
      ∃ runs : List Run,
        runs.map Run.items = a.runs (left ++ right) ∧
        runs.map Run.whole = (a.orMerge left right).2 ∧
        runs.flatMap Run.parts = (a.andMerge left right).2 ∧
        ∀ run ∈ runs, run.Refined a (a.andMerge left right).1 (a.orMerge left right).1 := by
  have hflatten := a.flatten_runs (left ++ right)
  have hnodup : (a.runs (left ++ right)).flatten.Nodup := hflatten ▸ a.nodup_sorted _
  obtain ⟨d, shares, hlayerd, hd, hor⟩ := exists_ledger_orMerge a hitems
  obtain ⟨c, shares', hlayerc, hc, hand⟩ := exists_ledger_andMerge a hitems
  obtain ⟨z, hz, hz', hruns⟩ := exists_zip (hd.runs.trans hc.runs.symm)
  rw [hor, hand]
  refine ⟨hflatten, z.map fun p => ⟨p.1.run, p.1.whole d, p.2.results c⟩, ?_, ?_, ?_, ?_⟩
  · rw [List.map_map, ← hd.runs, ← hz, List.map_map]
    rfl
  · rw [List.map_map, hd.results_eq_map hlayerd, ← hz, List.map_map]
    rfl
  · rw [List.flatMap_map, hc.results_eq, ← hz', List.flatMap_map]
  · intro run hrun
    obtain ⟨p, hp, rfl⟩ := List.mem_map.1 hrun
    have he : p.1 ∈ shares := hz ▸ List.mem_map_of_mem hp
    have he' : p.2 ∈ shares' := hz' ▸ List.mem_map_of_mem hp
    refine (refined_of_shares hnodup hd hlayerd he hc hlayerc he' (hruns p hp)).congr ?_ ?_ ?_ ?_
    · exact members_foldl_markFree _ _
    · exact span_foldl_markFree _ _
    · exact members_foldl_markFree _ _
    · exact span_foldl_markFree _ _

/-- A group and a candidate that lies in it overlap; another candidate comes later. -/
theorem andMerge_refines_overlapping :
    let a : Arena :=
      { candidates := #[Anomaly.stored 1 7 0 10, Anomaly.stored 2 7 5 20, Anomaly.stored 3 7 30 40]
        groups := #[{ span := ⟨0, 20⟩, members := [.candidate 0, .candidate 1] }] }
    let left : List Item := [.group 0, .candidate 1]
    let right : List Item := [.candidate 1, .candidate 2]
    (∀ x ∈ left ++ right, a.Holds x) ∧
      ([[.group 0, .candidate 1], [.candidate 2]] : List (List Item)).flatten =
        a.sorted (left ++ right) ∧
      ∃ runs : List Run,
        runs.map Run.items = [[.group 0, .candidate 1], [.candidate 2]] ∧
        runs.map Run.whole = (a.orMerge left right).2 ∧
        runs.flatMap Run.parts = (a.andMerge left right).2 ∧
        ∀ run ∈ runs, run.Refined a (a.andMerge left right).1 (a.orMerge left right).1 := by
  intro a left right
  have hitems : ∀ x ∈ left ++ right, a.Holds x := by
    rintro x hx g rfl
    have hg : g = 0 := by simpa [left, right] using hx
    rw [hg]
    decide
  have hsorted : a.sorted (left ++ right) = [.group 0, .candidate 1, .candidate 2] := by
    have hdistinct : (left ++ right).eraseDups = [.group 0, .candidate 1, .candidate 2] := by decide
    rw [sorted, hdistinct]
    exact List.mergeSort_of_pairwise (by decide)
  have hruns : a.runs (left ++ right) = [[.group 0, .candidate 1], [.candidate 2]] := by
    rw [runs, hsorted]
    decide
  rw [← hruns]
  exact ⟨hitems, a.andMerge_refines_orMerge hitems⟩

end Outlier.Arena
