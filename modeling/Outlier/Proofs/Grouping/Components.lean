import Mathlib.Data.List.Induction
import Mathlib.Data.Set.List
import Mathlib.Logic.Relation
import Mathlib.Tactic.Choose
import Outlier.Proofs.Grouping.Hulls
import Outlier.Proofs.Grouping.Refinement

/-! # Disjunction groups by overlap

If no anomaly ends before it starts, the runs of the disjunctive merge are the connected components
of overlap. A run grows by an item that meets one of its items, and a run that is complete ends
before the next one starts; a list is cut like that (`Chained`) in one way only, whatever the order
of its items (`Chained.forall₂_perm`). So the groups for a disjunction of two leaves depend neither
on the order of the leaves nor on that of the candidates (`Grouper.components_written`). -/

namespace Outlier

open Relation (ReflTransGen)

/-! ### Chains of spans -/

/-- The closed spans share a moment. -/
def Span.Meets (s t : Span) : Prop := s.start ≤ t.stop ∧ t.start ≤ s.stop

theorem Span.Meets.symm {s t : Span} (h : s.Meets t) : t.Meets s := ⟨h.2, h.1⟩

theorem Anomaly.overlaps_iff (x y : Anomaly) : x.overlaps y = true ↔ x.span.Meets y.span := by
  simp [overlaps, Span.Meets, span]

section

variable {α β : Type} {span : α → Span} {pieces pieces' : List (List α)} {p q l l' : List α}
  {x y : α}

/-- Two members of the list whose spans meet. -/
structure Touches (span : α → Span) (l : List α) (x y : α) : Prop where
  left : x ∈ l
  right : y ∈ l
  meets : (span x).Meets (span y)

instance : Std.Symm (Touches span l) := ⟨fun _ _ h => ⟨h.right, h.left, h.meets.symm⟩⟩

theorem linked_mono (hl : ∀ z ∈ l, z ∈ l') (h : ReflTransGen (Touches span l) x y) :
    ReflTransGen (Touches span l') x y :=
  ReflTransGen.mono (fun _ _ hlink => ⟨hl _ hlink.left, hl _ hlink.right, hlink.meets⟩) x y h

/-- Every piece is linked up by spans that meet, and ends before the later ones start. -/
structure Chained (span : α → Span) (pieces : List (List α)) : Prop where
  ne_nil : ∀ p ∈ pieces, p ≠ []
  linked : ∀ p ∈ pieces, ∀ x ∈ p, ∀ y ∈ p, ReflTransGen (Touches span p) x y
  apart : pieces.Pairwise fun p q => ∀ x ∈ p, ∀ y ∈ q, (span x).stop < (span y).start

namespace Chained

theorem nil : Chained span [] := ⟨nofun, nofun, .nil⟩

theorem tail (h : Chained span (p :: pieces)) : Chained span pieces where
  ne_nil q hq := h.ne_nil q (List.mem_cons_of_mem p hq)
  linked q hq := h.linked q (List.mem_cons_of_mem p hq)
  apart := (List.pairwise_cons.1 h.apart).2

/-- A member that starts after all others end is a piece of its own. -/
theorem concat (h : Chained span pieces)
    (hlate : ∀ p ∈ pieces, ∀ y ∈ p, (span y).stop < (span x).start) :
    Chained span (pieces ++ [[x]]) where
  ne_nil p hp := by
    rcases List.mem_append.1 hp with hp | hp
    · exact h.ne_nil p hp
    · rw [List.mem_singleton.1 hp]
      exact List.cons_ne_nil _ _
  linked p hp := by
    rcases List.mem_append.1 hp with hp | hp
    · exact h.linked p hp
    · rw [List.mem_singleton.1 hp]
      intro y hy z hz
      rw [List.mem_singleton.1 hy, List.mem_singleton.1 hz]
  apart := by
    refine List.pairwise_append.2 ⟨h.apart, List.pairwise_singleton _ _, ?_⟩
    intro p hp q hq y hy z hz
    rw [List.mem_singleton.1 hq] at hz
    rw [List.mem_singleton.1 hz]
    exact hlate p hp y hy

/-- A member that meets one of the last piece, and starts no earlier, belongs to it. -/
theorem extend (h : Chained span (pieces ++ [p])) (hmeets : ∃ y ∈ p, (span x).Meets (span y))
    (hstart : ∀ y ∈ p, (span y).start ≤ (span x).start) : Chained span (pieces ++ [p ++ [x]]) where
  ne_nil q hq := by
    rcases List.mem_append.1 hq with hq | hq
    · exact h.ne_nil q (List.mem_append_left _ hq)
    · rw [List.mem_singleton.1 hq]
      exact List.append_ne_nil_of_right_ne_nil _ (List.cons_ne_nil _ _)
  linked q hq := by
    rcases List.mem_append.1 hq with hq | hq
    · exact h.linked q (List.mem_append_left _ hq)
    · rw [List.mem_singleton.1 hq]
      obtain ⟨z, hz, hmeets⟩ := hmeets
      have hlast : x ∈ p ++ [x] := List.mem_append_right _ (List.mem_singleton_self x)
      have hto : ∀ y ∈ p ++ [x], ReflTransGen (Touches span (p ++ [x])) y z := by
        intro y hy
        rcases List.mem_append.1 hy with hy | hy
        · exact linked_mono (fun _ => List.mem_append_left _) (h.linked p (by simp) y hy z hz)
        · rw [List.mem_singleton.1 hy]
          exact .single ⟨hlast, List.mem_append_left _ hz, hmeets⟩
      intro y hy y' hy'
      exact (hto y hy).trans (Std.Symm.symm _ _ (hto y' hy'))
  apart := by
    obtain ⟨hpieces, -, hlast⟩ := List.pairwise_append.1 h.apart
    refine List.pairwise_append.2 ⟨hpieces, List.pairwise_singleton _ _, ?_⟩
    intro q hq r hr y hy z hz
    rw [List.mem_singleton.1 hr] at hz
    have hbefore := hlast q hq p (List.mem_singleton_self p) y hy
    rcases List.mem_append.1 hz with hz | hz
    · exact hbefore z hz
    · obtain ⟨w, hw, -⟩ := hmeets
      rw [List.mem_singleton.1 hz]
      exact Std.lt_of_lt_of_le (hbefore w hw) (hstart w hw)

theorem map {span' : β → Span} {f : α → β} (h : Chained span pieces)
    (hspan : ∀ x ∈ pieces.flatten, span' (f x) = span x) :
    Chained span' (pieces.map (List.map f)) where
  ne_nil q hq := by
    obtain ⟨p, hp, rfl⟩ := List.mem_map.1 hq
    exact fun hnil => h.ne_nil p hp (List.map_eq_nil_iff.1 hnil)
  linked q hq y hy z hz := by
    obtain ⟨p, hp, rfl⟩ := List.mem_map.1 hq
    obtain ⟨x, hx, rfl⟩ := List.mem_map.1 hy
    obtain ⟨x', hx', rfl⟩ := List.mem_map.1 hz
    have hmem {w : α} (hw : w ∈ p) : w ∈ pieces.flatten := List.mem_flatten.2 ⟨p, hp, hw⟩
    refine (h.linked p hp x hx x' hx').lift f fun w w' hlink => ?_
    refine ⟨List.mem_map_of_mem hlink.left, List.mem_map_of_mem hlink.right, ?_⟩
    rw [hspan w (hmem hlink.left), hspan w' (hmem hlink.right)]
    exact hlink.meets
  apart := by
    refine List.pairwise_map.2 (h.apart.imp_of_mem fun {p q} hp hq hbefore y hy z hz => ?_)
    obtain ⟨x, hx, rfl⟩ := List.mem_map.1 hy
    obtain ⟨x', hx', rfl⟩ := List.mem_map.1 hz
    rw [hspan x (List.mem_flatten.2 ⟨p, hp, hx⟩), hspan x' (List.mem_flatten.2 ⟨q, hq, hx'⟩)]
    exact hbefore x hx x' hx'

theorem not_meets (h : Chained span pieces) (hp : p ∈ pieces) (hq : q ∈ pieces) (hne : p ≠ q)
    (hx : x ∈ p) (hy : y ∈ q) : ¬ (span x).Meets (span y) := by
  have happart : pieces.Pairwise fun p q => ∀ x ∈ p, ∀ y ∈ q, ¬ (span x).Meets (span y) :=
    h.apart.imp fun hbefore x hx y hy hmeets =>
      Std.not_le.2 (hbefore x hx y hy) hmeets.2
  have hsymm : Std.Symm fun p q : List α => ∀ x ∈ p, ∀ y ∈ q, ¬ (span x).Meets (span y) :=
    ⟨fun _ _ hnot y hy x hx hmeets => hnot x hx y hy hmeets.symm⟩
  exact happart.forall hp hq hne x hx y hy

/-- The pieces are the connected components of all members. -/
theorem mem_iff (h : Chained span pieces) (hp : p ∈ pieces) (hx : x ∈ p) :
    y ∈ p ↔ ReflTransGen (Touches span pieces.flatten) x y := by
  constructor
  · intro hy
    exact linked_mono (fun z hz => List.mem_flatten.2 ⟨p, hp, hz⟩) (h.linked p hp x hx y hy)
  · intro hchain
    induction hchain with
    | refl => exact hx
    | @tail z w _ hlink hz =>
      obtain ⟨q, hq, hw⟩ := List.mem_flatten.1 hlink.right
      by_cases hpq : p = q
      · exact hpq ▸ hw
      · exact absurd hlink.meets (h.not_meets hp hq hpq hz hw)

/-- No member of the first piece is in a later one, unless it ends before it starts. -/
theorem not_mem_flatten (h : Chained span (p :: pieces)) (hx : x ∈ p)
    (hspan : (span x).start ≤ (span x).stop) : x ∉ pieces.flatten := by
  intro hlater
  obtain ⟨q, hq, hxq⟩ := List.mem_flatten.1 hlater
  exact Std.not_le.2 ((List.pairwise_cons.1 h.apart).1 q hq x hx x hxq) hspan

theorem filter_flatten [DecidableEq α] (h : Chained span (p :: pieces))
    (hspan : ∀ x ∈ p, (span x).start ≤ (span x).stop) :
    (p :: pieces).flatten.filter (· ∈ p) = p := by
  have hfirst : p.filter (· ∈ p) = p := List.filter_eq_self.2 fun _ hx => decide_eq_true hx
  have hrest : pieces.flatten.filter (· ∈ p) = [] := by
    refine List.filter_eq_nil_iff.2 fun x hx hmem => ?_
    have hmem : x ∈ p := of_decide_eq_true hmem
    exact h.not_mem_flatten hmem (hspan x hmem) hx
  rw [List.flatten_cons, List.filter_append, hfirst, hrest, List.append_nil]

/-- The first pieces of two lists of the same members have a member in common. -/
theorem exists_mem_first (h : Chained span (p :: pieces)) (h' : Chained span (q :: pieces'))
    (hspan : ∀ x ∈ p ++ q, (span x).start ≤ (span x).stop)
    (hperm : (p :: pieces).flatten.Perm (q :: pieces').flatten) : ∃ x ∈ p, x ∈ q := by
  obtain ⟨x, hx⟩ := List.exists_mem_of_ne_nil p (h.ne_nil p List.mem_cons_self)
  obtain ⟨y, hy⟩ := List.exists_mem_of_ne_nil q (h'.ne_nil q List.mem_cons_self)
  have hx' : x ∈ q ++ pieces'.flatten := hperm.mem_iff.1 (List.mem_append_left _ hx)
  have hy' : y ∈ p ++ pieces.flatten := hperm.mem_iff.2 (List.mem_append_left _ hy)
  rcases List.mem_append.1 hx' with hxq | hxlater
  · exact ⟨x, hx, hxq⟩
  rcases List.mem_append.1 hy' with hyp | hylater
  · exact ⟨y, hyp, hy⟩
  obtain ⟨r, hr, hxr⟩ := List.mem_flatten.1 hxlater
  obtain ⟨r', hr', hyr⟩ := List.mem_flatten.1 hylater
  have hyx := (List.pairwise_cons.1 h'.apart).1 r hr y hy x hxr
  have hxy := (List.pairwise_cons.1 h.apart).1 r' hr' x hx y hyr
  have hxspan := hspan x (List.mem_append_left _ hx)
  have hyspan := hspan y (List.mem_append_right _ hy)
  exact absurd hxspan (Std.not_le.2
    (Std.lt_of_lt_of_le hxy (Std.le_trans hyspan (Std.le_of_lt hyx))))

/-- Members are cut into such pieces in one way, up to their order within the pieces. -/
theorem forall₂_perm [DecidableEq α] (h : Chained span pieces) (h' : Chained span pieces')
    (hspan : ∀ x ∈ pieces.flatten, (span x).start ≤ (span x).stop)
    (hperm : pieces.flatten.Perm pieces'.flatten) : List.Forall₂ List.Perm pieces pieces' := by
  induction pieces generalizing pieces' with
  | nil =>
    cases pieces' with
    | nil => exact .nil
    | cons q rest =>
      have hnil : (q :: rest).flatten = [] := hperm.nil_eq.symm
      exact absurd (List.append_eq_nil_iff.1 hnil).1 (h'.ne_nil q List.mem_cons_self)
  | cons p pieces ih =>
    cases pieces' with
    | nil => exact absurd (List.append_eq_nil_iff.1 hperm.eq_nil).1 (h.ne_nil p List.mem_cons_self)
    | cons q pieces' =>
      have hspan' : ∀ x ∈ q, (span x).start ≤ (span x).stop := fun x hx =>
        hspan x (hperm.mem_iff.2 (List.mem_append_left _ hx))
      have hspanp : ∀ x ∈ p, (span x).start ≤ (span x).stop := fun x hx =>
        hspan x (List.mem_append_left _ hx)
      obtain ⟨x, hx, hx'⟩ := h.exists_mem_first h'
        (fun z hz => (List.mem_append.1 hz).elim (hspanp z) (hspan' z)) hperm
      have hmem : ∀ y, y ∈ p ↔ y ∈ q := by
        intro y
        rw [h.mem_iff List.mem_cons_self hx, h'.mem_iff List.mem_cons_self hx']
        exact ⟨linked_mono fun _ => hperm.mem_iff.1, linked_mono fun _ => hperm.mem_iff.2⟩
      have hfirst : p.Perm q := by
        have hfilter := hperm.filter (· ∈ p)
        rw [h.filter_flatten hspanp] at hfilter
        simp only [hmem] at hfilter
        rwa [h'.filter_flatten hspan'] at hfilter
      have hrest : pieces.flatten.Perm pieces'.flatten :=
        (List.perm_append_left_iff p).1 (hperm.trans (hfirst.symm.append_right _))
      have hspanrest := fun x hx => hspan x (List.mem_append_right p hx)
      exact .cons hfirst (ih h.tail h'.tail hspanrest hrest)

end Chained

end

/-! ### The runs of a merge -/

namespace Arena

theorem chained_cut (a : Arena) {items : List Item}
    (hsorted : items.Pairwise fun x y => (a.span x).start ≤ (a.span y).start)
    (hspan : ∀ x ∈ items, (a.span x).start ≤ (a.span x).stop) : Chained a.span (a.cut items) := by
  induction items using List.reverseRecOn with
  | nil => exact .nil
  | append_singleton done x ih =>
    obtain ⟨hdone, -, hstart⟩ := List.pairwise_append.1 hsorted
    have h := ih hdone fun y hy => hspan y (List.mem_append_left _ hy)
    have hmem {run : List Item} (hrun : run ∈ a.cut done) {y : Item} (hy : y ∈ run) : y ∈ done :=
      a.flatten_cut done ▸ List.mem_flatten.2 ⟨run, hrun, hy⟩
    have hstart {run : List Item} (hrun : run ∈ a.cut done) (y : Item) (hy : y ∈ run) :
        (a.span y).start ≤ (a.span x).start :=
      hstart y (hmem hrun hy) x (List.mem_singleton_self x)
    rw [cut_concat]
    rcases List.eq_nil_or_concat (a.cut done) with hnil | ⟨rs, run, hcut⟩
    · rw [hnil]
      exact Chained.nil.concat nofun
    · have hrun : run ∈ a.cut done := by simp [hcut]
      rw [hcut, List.concat_eq_append] at h ⊢
      cases hmeets : a.meets run x with
      | true =>
        rw [addToRuns_of_meets hmeets]
        refine h.extend ?_ (hstart hrun)
        obtain ⟨y, hy, hle⟩ := List.any_eq_true.1 hmeets
        have hxspan := hspan x (List.mem_append_right _ (List.mem_singleton_self x))
        exact ⟨y, hy, of_decide_eq_true hle, Std.le_trans (hstart hrun y hy) hxspan⟩
      | false =>
        rw [addToRuns_of_not_meets hmeets]
        have hlast : ∀ y ∈ run, (a.span y).stop < (a.span x).start := fun y hy =>
          Std.not_le.1 (of_decide_eq_false (by simpa using List.any_eq_false.1 hmeets y hy))
        refine h.concat fun p hp y hy => ?_
        rcases List.mem_append.1 hp with hp | hp
        · obtain ⟨z, hz⟩ := List.exists_mem_of_ne_nil run (h.ne_nil run (by simp))
          obtain ⟨-, -, hbefore⟩ := List.pairwise_append.1 h.apart
          have hyz := hbefore p hp run (List.mem_singleton_self run) y hy z hz
          exact Std.lt_of_lt_of_le hyz (hstart hrun z hz)
        · exact hlast y (List.mem_singleton.1 hp ▸ hy)

/-- A disjunctive merge of candidates makes one group for each run, with the run as its members. -/
theorem members_orMerge (a : Arena) {left right : List Item}
    (h : ∀ x ∈ left ++ right, ∃ i, x = .candidate i) :
    ∃ tops : List Nat, (a.orMerge left right).2 = tops.map .group ∧
      (tops.map fun k => ((a.orMerge left right).1.draft k).members) = a.runs (left ++ right) := by
  have hitems : ∀ x ∈ left ++ right, a.Holds x := by
    rintro x hx g rfl
    obtain ⟨i, hi⟩ := h _ hx
    cases hi
  obtain ⟨d, shares, hlayer, hledger, hor⟩ := exists_ledger_orMerge a hitems
  have hwhole : ∀ e ∈ shares, ∃ k, e.whole d = .group k ∧ (d.draft k).members = e.run := by
    intro e he
    obtain ⟨-, k, -, hmembers, hwhole⟩ := hledger.results_single hlayer he
    refine ⟨k, hwhole.trans ?_, hmembers⟩
    split
    next inner hrun =>
      have hx := hledger.mem_flatten he (hrun ▸ List.mem_singleton_self (Item.group inner))
      rw [flatten_runs] at hx
      obtain ⟨i, hi⟩ := h _ (mem_sorted.1 hx)
      cases hi
    · rfl
  choose! place hplace hmembers using hwhole
  refine ⟨shares.map place, ?_, ?_⟩
  · rw [hor, List.map_map]
    exact (hledger.results_eq_map hlayer).trans (List.map_congr_left hplace)
  · rw [hor, ← hledger.runs, List.map_map]
    refine List.map_congr_left fun e he => ?_
    exact (members_foldl_markFree _ _ _).trans (hmembers e he)

theorem exists_place_select {a : Arena} {l r : String} {x : Item}
    (hx : x ∈ a.select l ++ a.select r) : ∃ i, x = .candidate i := by
  rcases List.mem_append.1 hx with hx | hx
  all_goals
    obtain ⟨i, hi, -⟩ := mem_select.1 hx
    exact ⟨i, hi⟩

theorem exists_map_candidate {runs : List (List Item)}
    (h : ∀ x ∈ runs.flatten, ∃ i, x = .candidate i) :
    ∃ parts : List (List Nat), runs = parts.map (List.map .candidate) := by
  have hrange : runs ∈ Set.range (List.map (List.map Item.candidate)) := by
    rw [Set.range_list_map, Set.range_list_map]
    intro run hrun x hx
    obtain ⟨i, hi⟩ := h x (List.mem_flatten.2 ⟨run, hrun, hx⟩)
    exact ⟨i, hi.symm⟩
  obtain ⟨parts, hparts⟩ := hrange
  exact ⟨parts, hparts.symm⟩

end Arena

/-! ### The candidates that two leaves select -/

/-- Two candidates that the expression selects overlap. -/
def Expression.Overlap (e : Expression) (candidates : List Anomaly) (i j : Nat) : Prop :=
  ∃ x y, candidates[i]? = some x ∧ candidates[j]? = some y ∧ e.selects x = true ∧
    e.selects y = true ∧ x.overlaps y = true

/-- The runs of the candidates that two leaves select. -/
def runsOr (candidates : List Anomaly) (l r : String) : List (List Item) :=
  (Arena.ofCandidates candidates).runs
    ((Arena.ofCandidates candidates).select l ++ (Arena.ofCandidates candidates).select r)

section

variable {candidates : List Anomaly} {l r : String} {x : Item}

theorem mem_runsOr : x ∈ (runsOr candidates l r).flatten ↔ ∃ i y, x = .candidate i ∧
    candidates[i]? = some y ∧ (Expression.join .or (.leaf l) (.leaf r)).selects y = true := by
  have hselects (y : Anomaly) : (Expression.join .or (.leaf l) (.leaf r)).selects y =
      (Arena.hasStem l y || Arena.hasStem r y) := by
    simp [Expression.selects, Expression.leaves]
  have hplace (i : Nat) := Arena.selects_getElem? candidates (.join .or (.leaf l) (.leaf r)) i
  simp only [hselects, Bool.or_eq_true] at hplace
  rw [runsOr, Arena.flatten_runs, Arena.mem_sorted, List.mem_append, Arena.mem_select,
    Arena.mem_select, ← exists_or]
  refine exists_congr fun i => ?_
  rw [← and_or_left, ← and_or_left, hplace]
  simp only [hselects, Bool.or_eq_true, exists_and_left]

theorem candidate_mem_runsOr {i : Nat} : .candidate i ∈ (runsOr candidates l r).flatten ↔
    ∃ y, candidates[i]? = some y ∧
      (Expression.join .or (.leaf l) (.leaf r)).selects y = true := by
  rw [mem_runsOr]
  constructor
  · rintro ⟨j, y, hj, hy⟩
    exact ⟨y, Item.candidate.inj hj ▸ hy⟩
  · rintro ⟨y, hy⟩
    exact ⟨i, y, rfl, hy⟩

theorem nodup_runsOr (candidates : List Anomaly) (l r : String) :
    (runsOr candidates l r).flatten.Nodup := by
  rw [runsOr, Arena.flatten_runs]
  exact Arena.nodup_sorted _ _

theorem span_ofCandidates {i : Nat} {y : Anomaly} (h : candidates[i]? = some y) :
    (Arena.ofCandidates candidates).span (.candidate i) = y.span := by
  rw [Arena.span, Arena.candidate_ofCandidates, h, Option.getD_some]

theorem order_runsOr (horder : ∀ y ∈ candidates, y.startTime ≤ y.endTime)
    (hx : x ∈ (runsOr candidates l r).flatten) :
    ((Arena.ofCandidates candidates).span x).start ≤
      ((Arena.ofCandidates candidates).span x).stop := by
  obtain ⟨i, y, rfl, hy, -⟩ := mem_runsOr.1 hx
  rw [span_ofCandidates hy]
  exact horder y (List.mem_of_getElem? hy)

theorem chained_runsOr (horder : ∀ y ∈ candidates, y.startTime ≤ y.endTime) :
    Chained (Arena.ofCandidates candidates).span (runsOr candidates l r) := by
  refine Arena.chained_cut _ (Arena.pairwise_sorted _ _) fun x hx =>
    order_runsOr (l := l) (r := r) horder ?_
  rwa [runsOr, Arena.flatten_runs]

/-- Selected candidates are linked if they overlap. -/
theorem touches_runsOr {i j : Nat} :
    Touches (Arena.ofCandidates candidates).span (runsOr candidates l r).flatten (.candidate i)
        (.candidate j) ↔
      (Expression.join .or (.leaf l) (.leaf r)).Overlap candidates i j := by
  constructor
  · rintro ⟨hi, hj, hmeets⟩
    obtain ⟨x, hx, hxs⟩ := candidate_mem_runsOr.1 hi
    obtain ⟨y, hy, hys⟩ := candidate_mem_runsOr.1 hj
    rw [span_ofCandidates hx, span_ofCandidates hy] at hmeets
    exact ⟨x, y, hx, hy, hxs, hys, (x.overlaps_iff y).2 hmeets⟩
  · rintro ⟨x, y, hx, hy, hxs, hys, hoverlaps⟩
    refine ⟨candidate_mem_runsOr.2 ⟨x, hx, hxs⟩, candidate_mem_runsOr.2 ⟨y, hy, hys⟩, ?_⟩
    rw [span_ofCandidates hx, span_ofCandidates hy]
    exact (x.overlaps_iff y).1 hoverlaps

theorem linked_runsOr {i j : Nat} :
    ReflTransGen (Touches (Arena.ofCandidates candidates).span (runsOr candidates l r).flatten)
        (.candidate i) (.candidate j) ↔
      ReflTransGen ((Expression.join .or (.leaf l) (.leaf r)).Overlap candidates) i j := by
  constructor
  · intro h
    have hall {x : Item} (h : ReflTransGen (Touches (Arena.ofCandidates candidates).span
        (runsOr candidates l r).flatten) (.candidate i) x) : ∃ k, x = .candidate k ∧
          ReflTransGen ((Expression.join .or (.leaf l) (.leaf r)).Overlap candidates) i k := by
      induction h with
      | refl => exact ⟨i, rfl, .refl⟩
      | tail _ hlink ih =>
        obtain ⟨k, rfl, hk⟩ := ih
        obtain ⟨m, _, rfl, -⟩ := mem_runsOr.1 hlink.right
        exact ⟨m, rfl, hk.tail (touches_runsOr.1 hlink)⟩
    obtain ⟨k, hk, hchain⟩ := hall h
    exact Item.candidate.inj hk ▸ hchain
  · exact fun h => h.lift Item.candidate fun _ _ => touches_runsOr.2

theorem exists_parts (candidates : List Anomaly) (l r : String) :
    ∃ parts : List (List Nat), runsOr candidates l r = parts.map (List.map .candidate) ∧
      parts.flatten.Nodup ∧ ∀ i, i ∈ parts.flatten ↔ ∃ y, candidates[i]? = some y ∧
        (Expression.join .or (.leaf l) (.leaf r)).selects y = true := by
  have hcandidate : ∀ x ∈ (runsOr candidates l r).flatten, ∃ i, x = .candidate i := fun x hx =>
    (mem_runsOr.1 hx).imp fun _ ⟨_, hi, _⟩ => hi
  obtain ⟨parts, hparts⟩ := Arena.exists_map_candidate hcandidate
  have hflatten : (runsOr candidates l r).flatten = parts.flatten.map .candidate := by
    rw [hparts, List.map_flatten]
  refine ⟨parts, hparts, ?_, fun i => ?_⟩
  · exact List.Nodup.of_map _ (hflatten ▸ nodup_runsOr candidates l r)
  · have hmem : i ∈ parts.flatten ↔ .candidate i ∈ (runsOr candidates l r).flatten := by
      rw [hflatten]
      simp
    rw [hmem, candidate_mem_runsOr]

end

/-! ### The groups of a disjunction -/

/-- What a pass writes out when there is no limit to the number of candidates. -/
def Grouper.written (g : Grouper) (candidates : List Anomaly) : Grouping :=
  Grouping.ofItems (g.arena candidates) (g.items candidates)

/-- The groups that are written out are the connected components of overlap among the candidates
that the expression selects. The lists in `parts` are the places of the candidates in them. -/
structure Grouping.Components (r : Grouping) (e : Expression) (candidates : List Anomaly)
    (parts : List (List Nat)) : Prop where
  ungrouped : r.ungrouped = []
  /-- The members of the groups are copies of the candidates. -/
  members : (r.groups.map fun t => t.children.map some) =
    parts.map fun p => p.map fun i => candidates[i]?.map Anomaly.asChild
  /-- Every selected candidate is a member, and no other. -/
  selected : ∀ i, (∃ p ∈ parts, i ∈ p) ↔ ∃ x, candidates[i]? = some x ∧ e.selects x = true
  /-- It is so once, in one group. -/
  nodup : parts.flatten.Nodup
  /-- Two candidates are in one group if a chain of overlaps leads from one to the other, and only
  then. -/
  linked : ∀ p ∈ parts, ∀ i ∈ p, ∀ j, j ∈ p ↔ ReflTransGen (e.Overlap candidates) i j
  hull : ∀ t ∈ r.groups, t.span.IsHull fun s => ∃ c ∈ t.children, c.span = s
  /-- Each group ends before the next one starts. -/
  apart : r.groups.Pairwise fun t u => t.endTime < u.startTime

/-- Two groups with the same times and the same members, in whatever order. -/
structure Anomaly.SameGroup (t u : Anomaly) : Prop where
  startTime : t.startTime = u.startTime
  endTime : t.endTime = u.endTime
  children : t.children.Perm u.children

namespace Grouper

variable {g : Grouper} {l r : String} (he : g.expression = .join .or (.leaf l) (.leaf r))
  (candidates : List Anomaly)

include he

/-- The groups of a disjunction of two leaves, with the runs as their members. -/
theorem exists_tops_or : ∃ tops : List Nat, g.items candidates = tops.map .group ∧
    (tops.map fun k => ((g.arena candidates).draft k).members) = runsOr candidates l r := by
  have hmerge : (Arena.ofCandidates candidates).evaluate g.expression =
      (Arena.ofCandidates candidates).orMerge ((Arena.ofCandidates candidates).select l)
        ((Arena.ofCandidates candidates).select r) := by
    rw [he]
    rfl
  rw [items, arena, hmerge]
  exact Arena.members_orMerge _ fun x hx => Arena.exists_place_select hx

/-- The groups that are written out have the runs as their children. -/
theorem children_written : (g.written candidates).groups.map (·.children) =
    (runsOr candidates l r).map (List.map (g.arena candidates).node) := by
  obtain ⟨tops, htops, hmembers⟩ := exists_tops_or he candidates
  rw [written, htops, Grouping.ofItems_groups, ← hmembers, List.map_map, List.map_map]
  exact List.map_congr_left fun k _ => Arena.children_tree (g.ranked_arena candidates) k false

theorem hull_written : ∀ t ∈ (g.written candidates).groups,
    t.span.IsHull fun s => ∃ c ∈ t.children, c.span = s := by
  intro t ht
  obtain ⟨tops, htops, -⟩ := exists_tops_or he candidates
  rw [written, htops, Grouping.ofItems_groups] at ht
  obtain ⟨k, hk, rfl⟩ := List.mem_map.1 ht
  have hitem : .group k ∈ g.items candidates := htops ▸ List.mem_map_of_mem hk
  exact (Arena.isHull_tree (g.ranked_arena candidates) (g.exact_arena candidates)
    ((g.pass_run candidates).group k hitem).2 (g.named_arena hitem) false).children

omit he in
theorem node_candidate (i : Nat) : (g.arena candidates).node (.candidate i) =
    ((Arena.ofCandidates candidates).candidate i).asChild := by
  rw [Arena.node, candidate_arena, Arena.candidate_ofCandidates]

theorem perm_children_written : ((g.written candidates).groups.map (·.children)).flatten.Perm
    ((candidates.filter g.expression.selects).map Anomaly.asChild) := by
  obtain ⟨parts, hparts, hnodup, hmem⟩ := exists_parts candidates l r
  have hperm : parts.flatten.Perm ((List.range candidates.length).filter fun i =>
      g.expression.selects ((Arena.ofCandidates candidates).candidate i)) := by
    refine (List.perm_ext_iff_of_nodup hnodup (List.nodup_range.filter _)).2 fun i => ?_
    rw [hmem, ← he, ← Arena.selects_getElem?, List.mem_filter, List.mem_range]
    rfl
  rw [← Arena.map_candidate_filter, children_written he, hparts, ← List.map_flatten,
    ← List.map_flatten, List.map_map, List.map_map]
  have hnode : (g.arena candidates).node ∘ Item.candidate =
      Anomaly.asChild ∘ (Arena.ofCandidates candidates).candidate :=
    funext (g.node_candidate candidates)
  rw [hnode]
  exact hperm.map _

variable {candidates} (horder : ∀ y ∈ candidates, y.startTime ≤ y.endTime)

include horder

theorem chained_written :
    Chained Anomaly.span ((g.written candidates).groups.map (·.children)) := by
  rw [children_written he]
  refine (chained_runsOr horder).map fun x hx => ?_
  obtain ⟨i, y, rfl, -⟩ := mem_runsOr.1 hx
  rw [node_candidate]
  rfl

theorem apart_written :
    (g.written candidates).groups.Pairwise fun t u => t.endTime < u.startTime := by
  have happart := List.pairwise_map.1 (chained_written he horder).apart
  refine happart.imp_of_mem fun {t u} ht hu hbefore => ?_
  obtain ⟨_, ⟨x, hx, rfl⟩, hstop⟩ := (hull_written he candidates t ht).stop_attained
  obtain ⟨_, ⟨y, hy, rfl⟩, hstart⟩ := (hull_written he candidates u hu).start_attained
  have hlt := hbefore x hx y hy
  rw [hstop, hstart] at hlt
  exact hlt

/-- The groups are the components of overlap. -/
theorem exists_components :
    ∃ parts, (g.written candidates).Components g.expression candidates parts := by
  obtain ⟨parts, hparts, hnodup, hmem⟩ := exists_parts candidates l r
  refine ⟨parts, ?_⟩
  constructor
  case ungrouped =>
    obtain ⟨tops, htops, -⟩ := exists_tops_or he candidates
    rw [written, htops, Grouping.ofItems_groups]
  case members =>
    calc (g.written candidates).groups.map (fun t => t.children.map some)
      _ = ((g.written candidates).groups.map (·.children)).map (List.map some) := by
        rw [List.map_map]
        rfl
      _ = parts.map fun p => p.map fun i => some ((g.arena candidates).node (.candidate i)) := by
        simp only [children_written he, hparts, List.map_map]
        exact List.map_congr_left fun p _ => by simp [Function.comp_def]
      _ = parts.map fun p => p.map fun i => candidates[i]?.map Anomaly.asChild := by
        refine List.map_congr_left fun p hp => List.map_congr_left fun i hi => ?_
        obtain ⟨y, hy, -⟩ := (hmem i).1 (List.mem_flatten.2 ⟨p, hp, hi⟩)
        rw [node_candidate, Arena.candidate_ofCandidates, hy]
        rfl
  case selected =>
    intro i
    rw [← List.mem_flatten, hmem, he]
  case nodup => exact hnodup
  case linked =>
    intro p hp i hi j
    have hrun : p.map .candidate ∈ runsOr candidates l r := hparts ▸ List.mem_map_of_mem hp
    have hin : Item.candidate i ∈ p.map .candidate := List.mem_map_of_mem hi
    calc
      j ∈ p ↔ Item.candidate j ∈ p.map .candidate := by simp
      _ ↔ _ := (chained_runsOr horder).mem_iff hrun hin
      _ ↔ _ := linked_runsOr
      _ ↔ ReflTransGen (g.expression.Overlap candidates) i j := by rw [he]
  case hull => exact hull_written he candidates
  case apart => exact apart_written he horder

/-- Other orders of the leaves and of the candidates give the same groups. -/
theorem sameGroup_written {g' : Grouper} {l' r' : String} {candidates' : List Anomaly}
    (he' : g'.expression = .join .or (.leaf l') (.leaf r')) (hleaves : [l, r].Perm [l', r'])
    (hperm : candidates.Perm candidates') :
    List.Forall₂ Anomaly.SameGroup (g.written candidates).groups (g'.written candidates').groups
    := by
  have horder' : ∀ y ∈ candidates', y.startTime ≤ y.endTime := fun y hy =>
    horder y (hperm.mem_iff.2 hy)
  have hselects : g'.expression.selects = g.expression.selects := by
    funext x
    rw [he, he']
    exact (hleaves.any_eq (f := fun stem => Arena.hasStem stem x)).symm
  have hflatten := (perm_children_written he candidates).trans
    (((hperm.filter _).map _).trans (hselects ▸ (perm_children_written he' candidates').symm))
  have hspan : ∀ x ∈ ((g.written candidates).groups.map (·.children)).flatten,
      x.span.start ≤ x.span.stop := by
    intro x hx
    obtain ⟨y, hy, rfl⟩ := List.mem_map.1 ((perm_children_written he candidates).mem_iff.1 hx)
    exact horder y (List.mem_of_mem_filter hy)
  have hchildren := (chained_written he horder).forall₂_perm (chained_written he' horder') hspan
    hflatten
  rw [List.forall₂_map_left_iff, List.forall₂_map_right_iff] at hchildren
  have hhulls := (List.forall₂_and_left _ _).2 ⟨hull_written he candidates, hchildren⟩
  have hboth := (List.forall₂_and_left _ _).2 ⟨hull_written he' candidates', hhulls.flip⟩
  refine (hboth.imp fun u t ⟨hu, ht, hchildren⟩ => ?_).flip
  have hsame := ht.unique (hu.congr fun s => by simp only [hchildren.mem_iff])
  exact ⟨congrArg Span.start hsame, congrArg Span.stop hsame, hchildren⟩

omit he in
/-- **A disjunction groups by overlap.** If no candidate ends before it starts, the groups for a
disjunction of two leaves are the connected components of overlap among the candidates that the
leaves select, each of which ends before the next one starts. They are the same groups for the
leaves and the candidates in any order. A grouping gives them unless there are too many candidates.
-/
theorem components_written (he : g.expression = .join .or (.leaf l) (.leaf r)) :
    (∃ parts, (g.written candidates).Components g.expression candidates parts) ∧
    (∀ (g' : Grouper) (l' r' : String) (candidates' : List Anomaly),
      g'.expression = .join .or (.leaf l') (.leaf r') → [l, r].Perm [l', r'] →
      candidates.Perm candidates' →
      List.Forall₂ Anomaly.SameGroup (g.written candidates).groups
        (g'.written candidates').groups) ∧
    (candidates.length ≤ g.maxCandidates → g.run candidates = g.written candidates) :=
  ⟨exists_components he horder,
    fun _ _ _ _ he' hleaves hperm => sameGroup_written he horder he' hleaves hperm, g.run_eq⟩

omit he horder in
/-- The second anomaly lasts for a moment, at which the first one ends; a third one starts at the
same time as the first, and the last one after all of them. -/
theorem components_touching :
    let g : Grouper := { expression := .join .or (.leaf "web") (.leaf "w") }
    let g' : Grouper := { expression := .join .or (.leaf "w") (.leaf "web") }
    let named (x : Anomaly) := x.withProperty Anomaly.componentProperty "web:load"
    let candidates : List Anomaly :=
      [named (.stored 1 7 0 10), named (.stored 2 7 10 10), named (.stored 3 7 0 5),
        named (.stored 4 7 11 20)]
    (∀ x ∈ candidates, x.startTime ≤ x.endTime) ∧
      (∃ parts, (g.run candidates).Components g.expression candidates parts) ∧
      List.Forall₂ Anomaly.SameGroup (g.run candidates).groups
        (g'.run candidates.reverse).groups := by
  intro g g' named candidates
  have horder : ∀ x ∈ candidates, x.startTime ≤ x.endTime := by decide
  have horder' : ∀ x ∈ candidates.reverse, x.startTime ≤ x.endTime := by decide
  obtain ⟨hcomponents, hsame, hrun⟩ := components_written (g := g) horder rfl
  obtain ⟨-, -, hrun'⟩ := components_written (g := g') horder' rfl
  have hlen : 4 ≤ 1000 := by decide
  rw [hrun hlen, hrun' hlen]
  exact ⟨horder, hcomponents, hsame g' "w" "web" candidates.reverse rfl (.swap _ _ _)
    candidates.reverse_perm.symm⟩

end Grouper

end Outlier
