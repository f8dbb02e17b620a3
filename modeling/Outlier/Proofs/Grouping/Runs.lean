import Outlier.Proofs.Grouping.Sweep

/-! # Runs

The items of a merge, in order of their starts, fall into runs: an item belongs to the last run as
long as some item of it has not ended, and begins a run of its own otherwise (`runs`). Both sweeps
follow the runs. The groups that a sweep opens for a run come one after the other, their members are
items of the run and groups opened for it, and the group that the sweep looks at ends where the run
does (`Follows`). So the two sweeps break at the same items, though they keep different groups. -/

namespace Outlier.Arena

variable {a a' b : Arena} {done : List Item} {x : Item}

/-! ### Runs of items -/

/-- Does some item of the run last until the item starts? -/
def meets (a : Arena) (run : List Item) (x : Item) : Bool :=
  run.any fun y => (a.span x).start ≤ (a.span y).stop

/-- The next item goes to the last run if it meets that, and to a run of its own otherwise. -/
def addToRuns (a : Arena) (runs : List (List Item)) (x : Item) : List (List Item) :=
  match runs.getLast? with
  | none => [[x]]
  | some run => if a.meets run x then runs.dropLast ++ [run ++ [x]] else runs ++ [[x]]

/-- The runs of items that come in the order given. -/
def cut (a : Arena) (items : List Item) : List (List Item) := items.foldl a.addToRuns []

/-- The runs of the items of a merge. -/
def runs (a : Arena) (items : List Item) : List (List Item) := a.cut (a.sorted items)

theorem addToRuns_of_meets {rs : List (List Item)} {run : List Item} (h : a.meets run x = true) :
    a.addToRuns (rs ++ [run]) x = rs ++ [run ++ [x]] := by
  simp [addToRuns, h]

theorem addToRuns_of_not_meets {rs : List (List Item)} {run : List Item}
    (h : a.meets run x = false) : a.addToRuns (rs ++ [run]) x = rs ++ [run] ++ [[x]] := by
  simp [addToRuns, h]

theorem flatten_addToRuns (a : Arena) (rs : List (List Item)) (x : Item) :
    (a.addToRuns rs x).flatten = rs.flatten ++ [x] := by
  rcases List.eq_nil_or_concat rs with rfl | ⟨rs, run, rfl⟩
  · rfl
  · cases h : a.meets run x with
    | true => simp [addToRuns_of_meets h]
    | false => simp [addToRuns_of_not_meets h]

theorem flatten_cut (a : Arena) (items : List Item) : (a.cut items).flatten = items := by
  have hrun : ∀ (rest : List Item) (rs : List (List Item)),
      (rest.foldl a.addToRuns rs).flatten = rs.flatten ++ rest := by
    intro rest
    induction rest with
    | nil => simp
    | cons x rest ih =>
      intro rs
      rw [List.foldl_cons, ih, flatten_addToRuns, ← List.append_cons]
  exact hrun items []

theorem flatten_runs (a : Arena) (items : List Item) : (a.runs items).flatten = a.sorted items :=
  a.flatten_cut _

theorem cut_concat (a : Arena) (items : List Item) (x : Item) :
    a.cut (items ++ [x]) = a.addToRuns (a.cut items) x := by
  simp [cut]

/-- The greatest end in a run. -/
structure Reaches (b : Arena) (run : List Item) (stop : Int64) : Prop where
  stop_le : ∀ y ∈ run, (b.span y).stop ≤ stop
  attained : ∃ y ∈ run, (b.span y).stop = stop

namespace Reaches

variable {run : List Item} {stop : Int64}

theorem singleton (b : Arena) (x : Item) : b.Reaches [x] (b.span x).stop where
  stop_le y hy := by
    rw [List.mem_singleton.1 hy]
    exact Std.le_refl _
  attained := ⟨x, List.mem_singleton_self x, rfl⟩

theorem meets_iff (h : b.Reaches run stop) : b.meets run x = true ↔ (b.span x).start ≤ stop := by
  simp only [meets, List.any_eq_true, decide_eq_true_eq]
  constructor
  · rintro ⟨y, hy, hle⟩
    exact Std.le_trans hle (h.stop_le y hy)
  · intro hle
    obtain ⟨y, hy, hstop⟩ := h.attained
    exact ⟨y, hy, hstop ▸ hle⟩

theorem concat (h : b.Reaches run stop) (x : Item) :
    b.Reaches (run ++ [x]) (max stop (b.span x).stop) where
  stop_le y hy := by
    rcases List.mem_append.1 hy with hy | hy
    · exact Std.le_trans (h.stop_le y hy) Std.left_le_max
    · rw [List.mem_singleton.1 hy]
      exact Std.right_le_max
  attained := by
    rcases Std.max_eq_or (a := stop) (b := (b.span x).stop) with hmax | hmax
    · obtain ⟨y, hy, hstop⟩ := h.attained
      exact ⟨y, List.mem_append_left _ hy, hstop.trans hmax.symm⟩
    · exact ⟨x, List.mem_append_right _ (List.mem_singleton_self x), hmax.symm⟩

end Reaches

/-! ### The groups of a run -/

/-- Nothing changes of the group but whether it lies inside another. -/
def Spares (a a' : Arena) (g : Nat) : Prop :=
  a'.draft g = { a.draft g with adopted := (a'.draft g).adopted }

/-- A run and the groups that a sweep opened for it. -/
structure Share where
  run : List Item
  groups : List Nat

/-- The members of the groups are items of the run and groups that were opened for it. -/
def Share.Closed (e : Share) (a : Arena) : Prop :=
  ∀ g ∈ e.groups, ∀ x ∈ (a.draft g).members, x ∈ e.run ∨ ∃ k ∈ e.groups, x = .group k

/-- There is one group, and its members are the items of the run. -/
def Share.Single (e : Share) (a : Arena) : Prop :=
  ∃ g, e.groups = [g] ∧ (a.draft g).members = e.run ∧ (a.draft g).shadow = false

theorem Share.Single.closed {e : Share} (h : e.Single a) : e.Closed a := by
  obtain ⟨g, hgroups, hmembers, _⟩ := h
  intro k hk x hx
  rw [hgroups, List.mem_singleton] at hk
  rw [hk, hmembers] at hx
  exact .inl hx

/-- The shares of a sweep that began in `b` and has come to `a`, in the order of the runs. -/
structure Ledger (P : Share → Arena → Prop) (b a : Arena) (runs : List (List Item))
    (shares : List Share) : Prop where
  runs : shares.map Share.run = runs
  groups : shares.flatMap Share.groups = List.range' b.size (a.size - b.size)
  share : ∀ e ∈ shares, P e a

/-- A sweep has taken the items `done`; the last run is still growing, and the group `g` at which
the sweep looks ends where that run does. -/
structure Follows (P : Share → Arena → Prop) (b : Arena) (done : List Item) (a : Arena) (g : Nat)
    (earlier : List Share) (last : Share) : Prop
    extends Ledger P b a (b.cut done) (earlier ++ [last]) where
  head : g ∈ last.groups
  reaches : b.Reaches last.run (a.draft g).span.stop

/-- What is said of a share depends on its groups alone, and not on what they lie inside. -/
def Local (P : Share → Arena → Prop) : Prop :=
  ∀ {e : Share} {a a' : Arena}, (∀ g ∈ e.groups, Spares a a' g) → P e a → P e a'

theorem local_closed : Local Share.Closed := by
  intro e a a' hspares h g hg x hx
  rw [hspares g hg] at hx
  exact h g hg x hx

theorem local_single : Local Share.Single := by
  rintro e a a' hspares ⟨g, hgroups, hmembers, hshadow⟩
  have hg := hspares g (by simp [hgroups])
  refine ⟨g, hgroups, ?_, ?_⟩
  · rw [hg]
    exact hmembers
  · rw [hg]
    exact hshadow

theorem range'_sub_succ {first g : Nat} (h : first ≤ g) :
    List.range' first (g + 1 - first) = List.range' first (g - first) ++ [g] := by
  rw [Nat.succ_sub h, List.range'_1_concat, Nat.add_sub_of_le h]

theorem range'_of_size_succ (hle : b.size ≤ a.size) (hsize : a'.size = a.size + 1) :
    List.range' b.size (a'.size - b.size) = List.range' b.size (a.size - b.size) ++ [a.size] := by
  rw [hsize, range'_sub_succ hle]

namespace Ledger

variable {P : Share → Arena → Prop} {rs : List (List Item)} {shares : List Share}

theorem mono {Q : Share → Arena → Prop} (h : Ledger P b a rs shares)
    (himp : ∀ e, P e a → Q e a) : Ledger Q b a rs shares :=
  ⟨h.runs, h.groups, fun e he => himp e (h.share e he)⟩

theorem mem_groups (h : Ledger P b a rs shares) {e : Share} (he : e ∈ shares) {g : Nat}
    (hg : g ∈ e.groups) : b.size ≤ g ∧ g < a.size := by
  have hm : g ∈ shares.flatMap Share.groups := List.mem_flatMap.2 ⟨e, he, hg⟩
  rw [h.groups, List.mem_range'_1] at hm
  omega

end Ledger

namespace Follows

variable {P : Share → Arena → Prop} {g : Nat} {earlier : List Share} {last : Share}

theorem first (x : Item) (hP : P ⟨[x], [b.size]⟩ (b.openGroup x false)) :
    Follows P b [x] (b.openGroup x false) b.size [] ⟨[x], [b.size]⟩ where
  runs := rfl
  groups := by simp
  share e he := by
    obtain rfl := List.mem_singleton.1 he
    exact hP
  head := List.mem_singleton_self _
  reaches := by
    rw [draft_openGroup]
    exact .singleton b x

theorem head_new (h : Follows P b done a g earlier last) : b.size ≤ g ∧ g < a.size :=
  h.mem_groups (by simp) h.head

/-- An item that starts after the group ends begins a run. -/
theorem fresh (hlocal : Local P) (h : Follows P b done a g earlier last)
    (hspan : a.span x = b.span x) (hlate : (a.draft g).span.stop < (a.span x).start)
    (hP : P ⟨[x], [a.size]⟩ (a.openGroup x false)) :
    Follows P b (done ++ [x]) (a.openGroup x false) a.size (earlier ++ [last])
      ⟨[x], [a.size]⟩ where
  runs := by
    have hmeets : b.meets last.run x = false := by
      rw [Bool.eq_false_iff, Ne, h.reaches.meets_iff, ← hspan]
      exact Std.not_le.2 hlate
    have hruns := h.runs
    rw [List.map_append] at hruns
    rw [cut_concat, ← hruns, List.map_append, List.map_append]
    exact (addToRuns_of_not_meets hmeets).symm
  groups := by
    obtain ⟨hg, hlt⟩ := h.head_new
    rw [List.flatMap_append, h.groups, range'_of_size_succ (by omega) (size_openGroup ..)]
    rfl
  share e he := by
    rcases List.mem_append.1 he with he | he
    · refine hlocal (fun k hk => ?_) (h.share e he)
      exact draft_openGroup_eq a (Nat.ne_of_lt (h.mem_groups he hk).2) x false
    · obtain rfl := List.mem_singleton.1 he
      exact hP
  head := List.mem_singleton_self _
  reaches := by
    rw [draft_openGroup]
    exact hspan ▸ .singleton b x

/-- The groups of an earlier run are others than the group at which the sweep looks. -/
theorem ne_of_mem_earlier (h : Follows P b done a g earlier last) {e : Share} (he : e ∈ earlier)
    {k : Nat} (hk : k ∈ e.groups) : k ≠ g := by
  have hnodup : (List.range' b.size (a.size - b.size)).Nodup := List.nodup_range'
  rw [← h.groups, List.flatMap_append, List.nodup_append] at hnodup
  refine hnodup.2.2 k (List.mem_flatMap.2 ⟨e, he, hk⟩) g ?_
  exact List.mem_flatMap.2 ⟨last, List.mem_singleton_self _, h.head⟩

/-- An item that starts before the group has ended belongs to the run. The sweep may open a group
for it and look at another group from there on, as long as that ends where the run does. -/
theorem join (hlocal : Local P) (h : Follows P b done a g earlier last)
    (hspan : a.span x = b.span x) (hmeets : (a.span x).start ≤ (a.draft g).span.stop)
    {opened : List Nat} {g' : Nat}
    (hsize : List.range' b.size (a'.size - b.size) =
      List.range' b.size (a.size - b.size) ++ opened)
    (hspares : ∀ k < a.size, k ≠ g → Spares a a' k)
    (hP : P ⟨last.run ++ [x], last.groups ++ opened⟩ a') (hhead : g' ∈ last.groups ++ opened)
    (hstop : (a'.draft g').span.stop = max (a.draft g).span.stop (a.span x).stop) :
    Follows P b (done ++ [x]) a' g' earlier ⟨last.run ++ [x], last.groups ++ opened⟩ where
  runs := by
    have hmeets : b.meets last.run x = true := by
      rw [h.reaches.meets_iff, ← hspan]
      exact hmeets
    have hruns := h.runs
    rw [List.map_append] at hruns
    rw [cut_concat, ← hruns, List.map_append]
    exact (addToRuns_of_meets hmeets).symm
  groups := by
    have hgroups := h.groups
    rw [List.flatMap_append] at hgroups
    rw [hsize, ← hgroups, List.flatMap_append]
    simp
  share e he := by
    rcases List.mem_append.1 he with he | he
    · refine hlocal (fun k hk => ?_) (h.share e (List.mem_append_left _ he))
      have hlt := (h.mem_groups (List.mem_append_left _ he) hk).2
      exact hspares k hlt (h.ne_of_mem_earlier he hk)
    · obtain rfl := List.mem_singleton.1 he
      exact hP
  head := hhead
  reaches := by
    rw [hstop, hspan]
    exact h.reaches.concat x

end Follows

/-- What holds of a sweep run by run: it has taken the items `done`, has come to `a` and looks at
the group `current`. -/
inductive Tracks (P : Share → Arena → Prop) (b : Arena) :
    (done : List Item) → (a : Arena) → (current : Option Nat) → Prop where
  | idle : Tracks P b [] b none
  | busy {done : List Item} {a : Arena} {g : Nat} {earlier : List Share} {last : Share}
      (h : Follows P b done a g earlier last) : Tracks P b done a (some g)

theorem Tracks.exists_ledger {P : Share → Arena → Prop} {current : Option Nat}
    (h : Tracks P b done a current) : ∃ shares, Ledger P b a (b.cut done) shares := by
  cases h with
  | idle => exact ⟨[], rfl, by simp, fun e he => absurd he List.not_mem_nil⟩
  | busy h => exact ⟨_, h.toLedger⟩

/-! ### The disjunctive sweep -/

theorem single_openGroup (a : Arena) (x : Item) :
    Share.Single ⟨[x], [a.size]⟩ (a.openGroup x false) := by
  refine ⟨a.size, rfl, ?_, ?_⟩ <;> rw [draft_openGroup]

theorem Follows.takeIn {g : Nat} {earlier : List Share} {last : Share}
    (h : Follows Share.Single b done a g earlier last) (hspan : a.span x = b.span x)
    (hmeets : (a.span x).start ≤ (a.draft g).span.stop) :
    Follows Share.Single b (done ++ [x]) (a.takeIn g x ((a.draft g).span.hull (a.span x))) g
      earlier ⟨last.run ++ [x], last.groups ++ []⟩ := by
  have hlt := h.head_new.2
  obtain ⟨k, hgroups, hmembers, hshadow⟩ := h.share last (by simp)
  obtain rfl : g = k := by
    have hhead := h.head
    rwa [hgroups, List.mem_singleton] at hhead
  refine h.join local_single hspan hmeets ?_ (fun k _ hne => draft_takeIn_of_ne a hne ..) ?_ ?_ ?_
  · rw [size_takeIn, List.append_nil]
  · refine ⟨g, by simp [hgroups], ?_, ?_⟩
    · rw [draft_takeIn_self a hlt, hmembers]
    · rw [draft_takeIn_self a hlt]
      exact hshadow
  · exact List.mem_append_left _ h.head
  · rw [draft_takeIn_self a hlt]
    rfl

theorem Union.tracks_step {u : Union} (hsound : u.Sound b done)
    (h : Tracks Share.Single b done u.arena u.current) (hx : Next b done x) :
    Tracks Share.Single b (done ++ [x]) (u.step x).arena (u.step x).current := by
  have hspan : u.arena.span x = b.span x := hsound.layer.span_eq hx.holds
  obtain ⟨a, current⟩ := u
  cases h with
  | idle => exact .busy (.first x (single_openGroup _ x))
  | @busy _ _ g _ _ h =>
    have hfree : Free b a g := hsound.current g rfl
    simp only [Union.step]
    split
    next hmeets =>
      rw [stretch_adopt (hsound.layer.start_le_next hx hfree)]
      exact .busy (h.takeIn hspan hmeets)
    next hlate =>
      refine .busy (h.fresh local_single hspan ?_ (single_openGroup a x))
      exact Std.not_le.1 hlate

/-! ### The conjunctive sweep -/

theorem draft_close_other (a : Arena) {g k : Nat} (hne : k ≠ g) :
    (a.close g).1.draft k = a.draft k := by
  unfold close
  split
  · rw [draft_update, if_neg fun e => hne e.1.symm]
  · rfl

theorem spares_close (a : Arena) {g k : Nat} (hne : k ≠ g) : Spares a (a.close g).1 k := by
  unfold Spares
  rw [a.draft_close_other hne]

theorem members_close (a : Arena) (g k : Nat) :
    ((a.close g).1.draft k).members = (a.draft k).members := by
  unfold close
  split
  · rw [draft_update]
    split <;> rfl
  · rfl

theorem span_close (a : Arena) (g : Nat) (y : Item) : (a.close g).1.span y = a.span y := by
  unfold close
  split
  · cases y with
    | candidate i => rfl
    | group k =>
      simp only [span]
      rw [draft_update]
      split <;> rfl
  · rfl

/-- What is left of a group that is closed is the group, or its only member. -/
theorem close_cases (a : Arena) (g : Nat) :
    (a.close g).2 = .group g ∨ (a.draft g).members = [(a.close g).2] := by
  unfold close
  split
  next hbare =>
    obtain ⟨_, y, hy⟩ := (Draft.isBareShadow_iff _).1 hbare
    rw [hy]
    exact .inr rfl
  · exact .inl rfl

theorem stop_close (a : Arena) {g : Nat} (hexact : a.Exact g) :
    (a.span (a.close g).2).stop = (a.draft g).span.stop := by
  rcases a.close_cases g with hself | hmember
  · rw [hself]
    rfl
  · obtain ⟨s, ⟨y, hy, rfl⟩, hstop⟩ := hexact.stop_attained
    rw [hmember, List.mem_singleton] at hy
    rw [← hy]
    exact hstop

/-- A group around the next item ends where the head did or where the item does. -/
theorem Layer.stop_enclose (h : Layer b done a) {g : Nat} (hfree : Free b a g) (x : Item)
    (below : List Nat) :
    ((Sweep.enclose ⟨a, g :: below⟩ g below x).arena.draft (a.close g).1.size).span.stop =
      max (a.draft g).span.stop (a.span x).stop := by
  have hopened : (a.close g).1.size < ((a.close g).1.openGroup x false).size := by
    rw [size_openGroup]
    exact Nat.lt_succ_self _
  unfold Sweep.enclose
  dsimp only
  rw [widen_adopt, draft_takeIn_self _ hopened, draft_openGroup,
    span_openGroup _ (h.close_ne hfree), span_close, span_close]
  show max (a.span x).stop (a.span (a.close g).2).stop = _
  rw [a.stop_close (h.exact g hfree.size_le hfree.lt_size), Span.max_comm]

/-- The groups of a run stay closed when one more is opened, if what joins any of them is the next
item or belongs to the run already. -/
theorem Share.Closed.grow {e : Share} (h : e.Closed a)
    (hmembers : ∀ g y, y ∈ (a'.draft g).members →
      y ∈ (a.draft g).members ∨ y = x ∨ y ∈ e.run ∨ ∃ k ∈ e.groups, y = .group k) :
    Share.Closed ⟨e.run ++ [x], e.groups ++ [a.size]⟩ a' := by
  intro g hg y hy
  have hgrown : y = x ∨ y ∈ e.run ∨ ∃ k ∈ e.groups, y = .group k := by
    rcases hmembers g y hy with hy | hy
    · rcases List.mem_append.1 hg with hg | hg
      · exact .inr (h g hg y hy)
      · have hlt := lt_size_of_mem hy
        rw [List.mem_singleton.1 hg] at hlt
        exact absurd hlt (Nat.lt_irrefl _)
    · exact hy
  rcases hgrown with rfl | hy | ⟨k, hk, he⟩
  · exact .inl (List.mem_append_right _ (List.mem_singleton_self _))
  · exact .inl (List.mem_append_left _ hy)
  · exact .inr ⟨k, List.mem_append_left _ hk, he⟩

theorem closed_openGroup (a : Arena) (x : Item) :
    Share.Closed ⟨[x], [a.size]⟩ (a.openGroup x false) :=
  (single_openGroup a x).closed

namespace Follows

variable {g : Nat} {earlier : List Share} {last : Share}

/-- The head takes in an item that ends after it, and a shadow of the item becomes the head. -/
theorem extend (h : Follows Share.Closed b done a g earlier last) (hx : Next b done x)
    (hspan : a.span x = b.span x) (hmeets : (a.span x).start ≤ (a.draft g).span.stop)
    (hlonger : (a.draft g).span.stop < (a.span x).stop) (s : Span) :
    Follows Share.Closed b (done ++ [x]) ((a.takeIn g x s).openGroup x true)
      (a.takeIn g x s).size earlier ⟨last.run ++ [x], last.groups ++ [a.size]⟩ := by
  obtain ⟨hg, hlt⟩ := h.head_new
  have hsize : (a.takeIn g x s).size = a.size := size_takeIn ..
  refine h.join local_closed hspan hmeets ?_ (fun k hk hne => ?_) ?_ ?_ ?_
  · exact range'_of_size_succ (by omega) (by rw [size_openGroup, hsize])
  · unfold Spares
    rw [draft_openGroup_eq _ (by omega), draft_takeIn_of_ne a hne]
  · refine (h.share last (by simp)).grow (x := x) fun k y hy => ?_
    rcases (mem_openGroup _ x y true k).1 hy with hy | ⟨_, hy⟩
    · exact ((mem_takeIn hlt x y s k).1 hy).imp_right fun hy => .inl hy.2
    · exact .inr (.inl hy)
  · rw [hsize]
    exact List.mem_append_right _ (List.mem_singleton_self _)
  · rw [draft_openGroup, a.span_takeIn (hx.holds.ne_group hg), Std.max_eq_if,
      if_neg (Std.not_le.2 hlonger)]

/-- A group around an item that ends within the head takes in what is left of the head. -/
theorem enclose (h : Follows Share.Closed b done a g earlier last) (hlayer : Layer b done a)
    (hfree : Free b a g) (hspan : a.span x = b.span x)
    (hmeets : (a.span x).start ≤ (a.draft g).span.stop) (below : List Nat) :
    Follows Share.Closed b (done ++ [x]) (Sweep.enclose ⟨a, g :: below⟩ g below x).arena
      (a.close g).1.size earlier ⟨last.run ++ [x], last.groups ++ [a.size]⟩ := by
  obtain ⟨hg, hlt⟩ := h.head_new
  have hsize : (a.close g).1.size = a.size := size_close ..
  have hopened : (a.close g).1.size < ((a.close g).1.openGroup x false).size := by
    rw [size_openGroup]
    omega
  have hinner : (a.close g).2 ∈ last.run ∨ ∃ k ∈ last.groups, (a.close g).2 = .group k := by
    rcases a.close_cases g with hself | hmember
    · exact .inr ⟨g, h.head, hself⟩
    · exact h.share last (by simp) g h.head _ (hmember ▸ List.mem_singleton_self _)
  have hstop := hlayer.stop_enclose hfree x below
  unfold Sweep.enclose at hstop ⊢
  dsimp only at hstop ⊢
  rw [widen_adopt] at hstop ⊢
  refine h.join local_closed hspan hmeets ?_ (fun k hk hne => ?_) ?_ ?_ ?_
  · refine range'_of_size_succ (by omega) ?_
    rw [size_takeIn, size_openGroup, hsize]
  · unfold Spares
    rw [draft_takeIn_of_ne _ (by omega), draft_openGroup_eq _ (by omega), a.spares_close hne]
  · refine (h.share last (by simp)).grow (x := x) fun k y hy => ?_
    rcases (mem_takeIn hopened _ y _ k).1 hy with hy | ⟨_, hy⟩
    · rcases (mem_openGroup _ x y false k).1 hy with hy | ⟨_, hy⟩
      · exact .inl (a.members_close g k ▸ hy)
      · exact .inr (.inl hy)
    · exact .inr (.inr (hy ▸ hinner))
  · rw [hsize]
    exact List.mem_append_right _ (List.mem_singleton_self _)
  · exact hstop

end Follows

theorem Sweep.tracks_step {s : Sweep} (hsound : s.Sound b done)
    (h : Tracks Share.Closed b done s.arena s.heads.head?) (hx : Next b done x) :
    Tracks Share.Closed b (done ++ [x]) (s.step x).arena (s.step x).heads.head? := by
  have hspan : s.arena.span x = b.span x := hsound.layer.span_eq hx.holds
  obtain ⟨a, heads⟩ := s
  cases heads with
  | nil =>
    cases h
    exact .busy (.first x (closed_openGroup _ x))
  | cons head below =>
    obtain _ | h := h
    have hfree : Free b a head := hsound.head head rfl
    rw [step_cons rfl]
    split
    next hlate => exact .busy (h.fresh local_closed hspan hlate (closed_openGroup a x))
    next hmeets =>
      have hmeets : (a.span x).start ≤ (a.draft head).span.stop := Std.not_lt.1 hmeets
      split
      next hlonger =>
        rw [extend_eq (hsound.layer.start_le_next hx hfree) hlonger]
        exact .busy (h.extend hx hspan hmeets hlonger _)
      next => exact .busy (h.enclose hsound.layer hfree hspan hmeets below)

/-! ### Whole sweeps -/

/-- The disjunctive sweep has opened one group for each run. -/
theorem exists_ledger_orSweep (a : Arena) {items : List Item} (hitems : ∀ y ∈ items, a.Holds y) :
    ∃ shares, Ledger Share.Single a ((a.sorted items).foldl Union.step ⟨a, none⟩).arena
      (a.runs items) shares := by
  have h := foldl_sound (s := ⟨a, none⟩)
    (P := fun done (u : Union) => u.Sound a done ∧ Tracks Share.Single a done u.arena u.current)
    (fun _ _ _ hs hx => ⟨hs.1.step hx, Union.tracks_step hs.1 hs.2 hx⟩) hitems
    ⟨⟨.start a, fun _ hg => absurd hg (by simp)⟩, .idle⟩
  exact h.2.exists_ledger

/-- The conjunctive sweep has opened groups for each run, apart from those for the others. -/
theorem exists_ledger_andSweep (a : Arena) {items : List Item} (hitems : ∀ y ∈ items, a.Holds y) :
    ∃ shares, Ledger Share.Closed a ((a.sorted items).foldl Sweep.step ⟨a, []⟩).arena
      (a.runs items) shares := by
  have h := foldl_sound (s := ⟨a, []⟩)
    (P := fun done (s : Sweep) =>
      s.Sound a done ∧ Tracks Share.Closed a done s.arena s.heads.head?)
    (fun _ _ _ hs hx => ⟨hs.1.step hx, Sweep.tracks_step hs.1 hs.2 hx⟩) hitems
    ⟨⟨.start a, fun _ hg => absurd hg (by simp)⟩, .idle⟩
  exact h.2.exists_ledger

end Outlier.Arena
