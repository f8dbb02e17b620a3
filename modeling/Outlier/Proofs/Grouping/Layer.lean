import Mathlib.Tactic.ByContra
import Outlier.Proofs.Grouping.Span

/-! # The groups of one merge

A merge opens groups for its items and lets items and groups join them. `Layer b done a` says what
holds at any moment of it: `b` is the arena in which the merge began, so that the groups from
`b.size` on are its own, and `done` are the items it has taken so far. The older groups keep their
members and spans, the members of a new group are items or earlier new groups, its span is their
hull, and the marks say what they should. The three changes a merge is made of keep this: opening a
group (`Layer.openGroup`), letting something join (`Layer.takeIn`) and discarding a bare shadow
(`Layer.discard`). -/

namespace Outlier

theorem Draft.isBareShadow_iff (d : Draft) :
    d.isBareShadow = true ↔ d.shadow = true ∧ ∃ x, d.members = [x] := by
  simp [isBareShadow, List.length_eq_one_iff]

namespace Arena

variable (a : Arena)

/-! ### Fields of a changed group -/

theorem draft_markAdopted (x : Item) (h : Nat) :
    (a.markAdopted x).draft h =
      { a.draft h with adopted := ((a.markAdopted x).draft h).adopted } := by
  cases x with
  | candidate i => rfl
  | group g =>
    rw [markAdopted, draft_update]
    split <;> rfl

theorem adopted_markAdopted (x : Item) {h : Nat} (hh : h < a.size) :
    ((a.markAdopted x).draft h).adopted = true ↔ (a.draft h).adopted = true ∨ x = .group h := by
  cases x with
  | candidate i =>
    show (a.draft h).adopted = true ↔ _
    simp
  | group g =>
    rw [markAdopted, draft_update]
    by_cases hg : g = h
    · simp [hg, hh]
    · simp [hg]

theorem draft_of_size_le {g : Nat} (hg : a.size ≤ g) : a.draft g = default := by
  unfold size at hg
  simp [draft, Array.getD_eq_getD_getElem?, hg]

variable {a}

theorem lt_size_of_mem {g : Nat} {x : Item} (hx : x ∈ (a.draft g).members) : g < a.size := by
  by_contra hg
  rw [a.draft_of_size_le (by omega)] at hx
  exact absurd hx List.not_mem_nil

theorem lt_size_of_adopted {g : Nat} (hg : (a.draft g).adopted = true) : g < a.size := by
  by_contra hlt
  rw [a.draft_of_size_le (by omega)] at hg
  exact absurd hg (by decide)

variable (a)

/-- Let an item join a group, which then has the given span. -/
def takeIn (g : Nat) (x : Item) (span : Span) : Arena :=
  (a.update g fun d => { d with span }).adopt g x

@[simp] theorem size_takeIn (g : Nat) (x : Item) (span : Span) :
    (a.takeIn g x span).size = a.size := by
  rw [takeIn, size_adopt, size_update]

@[simp] theorem candidates_takeIn (g : Nat) (x : Item) (span : Span) :
    (a.takeIn g x span).candidates = a.candidates := by
  rw [takeIn, candidates_adopt, candidates_update]

theorem draft_takeIn_self {g : Nat} (hg : g < a.size) (x : Item) (span : Span) :
    (a.takeIn g x span).draft g =
      { a.draft g with
        span
        members := (a.draft g).members ++ [x]
        adopted := ((a.takeIn g x span).draft g).adopted } := by
  rw [takeIn, adopt, draft_update, if_pos ⟨rfl, by simpa using hg⟩, draft_markAdopted, draft_update,
    if_pos ⟨rfl, hg⟩]

/-- The groups beside the one that is joined change by the mark of what joins alone. -/
theorem draft_takeIn_of_ne {g h : Nat} (hne : h ≠ g) (x : Item) (span : Span) :
    (a.takeIn g x span).draft h =
      { a.draft h with adopted := ((a.takeIn g x span).draft h).adopted } := by
  rw [takeIn, adopt, draft_update, if_neg fun e => hne e.1.symm, draft_markAdopted, draft_update,
    if_neg fun e => hne e.1.symm]

theorem adopted_takeIn (g : Nat) (x : Item) (span : Span) {h : Nat} (hh : h < a.size) :
    ((a.takeIn g x span).draft h).adopted = true ↔
      (a.draft h).adopted = true ∨ x = .group h := by
  have hmark : (((a.update g fun d => { d with span }).markAdopted x).draft h).adopted = true ↔
      (a.draft h).adopted = true ∨ x = .group h := by
    rw [adopted_markAdopted _ _ (by simpa using hh), draft_update]
    split <;> rfl
  rw [takeIn, adopt, draft_update]
  split <;> exact hmark

/-! ### Members and spans -/

theorem draft_openGroup_eq {h : Nat} (hne : h ≠ a.size) (x : Item) (shadow : Bool) :
    (a.openGroup x shadow).draft h =
      { a.draft h with adopted := ((a.openGroup x shadow).draft h).adopted } := by
  rw [draft_openGroup_of_ne _ _ _ hne]
  exact a.draft_markAdopted x h

theorem adopted_openGroup_of_ne {x : Item} {h : Nat} (hx : x ≠ .group h) (shadow : Bool) :
    ((a.openGroup x shadow).draft h).adopted = (a.draft h).adopted := by
  by_cases hne : h = a.size
  · rw [hne, draft_openGroup, a.draft_of_size_le (Nat.le_refl _)]
    rfl
  · rw [draft_openGroup_of_ne _ _ _ hne]
    cases x with
    | candidate i => rfl
    | group g =>
      rw [markAdopted, draft_update, if_neg fun e => hx (congrArg Item.group e.1)]

theorem mem_openGroup (x y : Item) (shadow : Bool) (h : Nat) :
    y ∈ ((a.openGroup x shadow).draft h).members ↔
      y ∈ (a.draft h).members ∨ (h = a.size ∧ y = x) := by
  by_cases hne : h = a.size
  · rw [hne, draft_openGroup, a.draft_of_size_le (Nat.le_refl _)]
    show y ∈ [x] ↔ y ∈ [] ∨ _
    simp
  · rw [draft_openGroup_eq a hne]
    simp [hne]

variable {a} in
theorem mem_takeIn {g : Nat} (hg : g < a.size) (x y : Item) (span : Span) (h : Nat) :
    y ∈ ((a.takeIn g x span).draft h).members ↔
      y ∈ (a.draft h).members ∨ (h = g ∧ y = x) := by
  by_cases hne : h = g
  · rw [hne, draft_takeIn_self a hg]
    simp
  · rw [draft_takeIn_of_ne a hne]
    simp [hne]

theorem span_openGroup {y : Item} (hy : y ≠ .group a.size) (x : Item) (shadow : Bool) :
    (a.openGroup x shadow).span y = a.span y := by
  cases y with
  | candidate i =>
    simp only [span, candidate, candidates_openGroup]
  | group h =>
    simp only [span]
    rw [draft_openGroup_eq a fun e => hy (congrArg Item.group e)]

theorem span_takeIn {g : Nat} {y : Item} (hy : y ≠ .group g) (x : Item) (s : Span) :
    (a.takeIn g x s).span y = a.span y := by
  cases y with
  | candidate i =>
    simp only [span, candidate, candidates_takeIn]
  | group h =>
    simp only [span]
    rw [draft_takeIn_of_ne a fun e => hy (congrArg Item.group e)]

/-- The span of a group is the hull of its members. -/
def Exact (g : Nat) : Prop :=
  (a.draft g).span.IsHull fun s => ∃ y ∈ (a.draft g).members, a.span y = s

variable {a} in
theorem Exact.ne_nil {g : Nat} (h : a.Exact g) : (a.draft g).members ≠ [] := by
  obtain ⟨_, ⟨y, hy, _⟩, _⟩ := h.start_attained
  exact List.ne_nil_of_mem hy

variable {a} in
theorem Exact.congr {g : Nat} (h : a.Exact g) {a' : Arena}
    (hspan : (a'.draft g).span = (a.draft g).span)
    (hmembers : (a'.draft g).members = (a.draft g).members)
    (hspans : ∀ y ∈ (a.draft g).members, a'.span y = a.span y) : a'.Exact g := by
  unfold Exact
  rw [hspan, hmembers]
  refine Span.IsHull.congr h fun s => ?_
  constructor
  · rintro ⟨y, hy, he⟩
    exact ⟨y, hy, (hspans y hy).trans he⟩
  · rintro ⟨y, hy, he⟩
    exact ⟨y, hy, (hspans y hy).symm.trans he⟩

/-! ### The invariant -/

/-- A candidate, or a group that is there. -/
def Holds (x : Item) : Prop := ∀ g, x = .group g → g < a.size

variable {a} in
theorem Holds.ne_group {x : Item} (hx : a.Holds x) {g : Nat} (hg : a.size ≤ g) :
    x ≠ .group g := by
  intro he
  have hlt := hx g he
  omega

variable {a} in
theorem Holds.mono {x : Item} (hx : a.Holds x) {a' : Arena} (h : a.size ≤ a'.size) :
    a'.Holds x := by
  intro g he
  have hlt := hx g he
  omega

/-- The candidates are the same, and groups were only added. -/
structure Grows (b a : Arena) : Prop where
  candidates : a.candidates = b.candidates
  size_le : b.size ≤ a.size
  old_members : ∀ g < b.size, (a.draft g).members = (b.draft g).members
  old_span : ∀ g < b.size, (a.draft g).span = (b.draft g).span

namespace Grows

variable {a b c : Arena}

theorem refl (a : Arena) : Grows a a := ⟨rfl, Nat.le_refl _, fun _ _ => rfl, fun _ _ => rfl⟩

theorem trans (h : Grows b a) (h' : Grows a c) : Grows b c := by
  have hba := h.size_le
  have hac := h'.size_le
  refine ⟨h'.candidates.trans h.candidates, by omega, fun g hg => ?_, fun g hg => ?_⟩
  · rw [h'.old_members g (by omega), h.old_members g hg]
  · rw [h'.old_span g (by omega), h.old_span g hg]

theorem candidate (h : Grows b a) (i : Nat) : a.candidate i = b.candidate i := by
  simp only [Arena.candidate, h.candidates]

theorem span_eq (h : Grows b a) {x : Item} (hx : b.Holds x) : a.span x = b.span x := by
  cases x with
  | candidate i => simp only [span, h.candidate]
  | group g => exact h.old_span g (hx g rfl)

/-- Opening a group leaves the older groups as they are. -/
theorem openGroup (h : Grows b a) (x : Item) (shadow : Bool) : Grows b (a.openGroup x shadow) := by
  have hsize := h.size_le
  have hdraft : ∀ g < b.size, (a.openGroup x shadow).draft g =
      { a.draft g with adopted := ((a.openGroup x shadow).draft g).adopted } := by
    intro g hg
    exact draft_openGroup_eq a (by omega) x shadow
  refine ⟨(a.candidates_openGroup x shadow).trans h.candidates, ?_, fun g hg => ?_, fun g hg => ?_⟩
  · rw [size_openGroup]
    omega
  · rw [hdraft g hg]
    exact h.old_members g hg
  · rw [hdraft g hg]
    exact h.old_span g hg

theorem takeIn (h : Grows b a) {g : Nat} (hg : b.size ≤ g) (x : Item) (s : Span) :
    Grows b (a.takeIn g x s) := by
  have hdraft : ∀ k < b.size, (a.takeIn g x s).draft k =
      { a.draft k with adopted := ((a.takeIn g x s).draft k).adopted } := by
    intro k hk
    exact draft_takeIn_of_ne a (by omega) x s
  refine ⟨(a.candidates_takeIn g x s).trans h.candidates, ?_, fun k hk => ?_, fun k hk => ?_⟩
  · rw [size_takeIn]
    exact h.size_le
  · rw [hdraft k hk]
    exact h.old_members k hk
  · rw [hdraft k hk]
    exact h.old_span k hk

theorem update (h : Grows b a) (g : Nat) {f : Draft → Draft}
    (hf : ∀ d, (f d).members = d.members ∧ (f d).span = d.span) : Grows b (a.update g f) := by
  have hdraft : ∀ k, ((a.update g f).draft k).members = (a.draft k).members ∧
      ((a.update g f).draft k).span = (a.draft k).span := by
    intro k
    rw [draft_update]
    split
    · exact hf (a.draft k)
    · exact ⟨rfl, rfl⟩
  refine ⟨h.candidates, ?_, fun k hk => ?_, fun k hk => ?_⟩
  · rw [size_update]
    exact h.size_le
  · rw [(hdraft k).1]
    exact h.old_members k hk
  · rw [(hdraft k).2]
    exact h.old_span k hk

theorem exact (h : Grows b a) {g : Nat} (hg : g < b.size) (he : b.Exact g)
    (hholds : ∀ x ∈ (b.draft g).members, b.Holds x) : a.Exact g :=
  he.congr (h.old_span g hg) (h.old_members g hg) fun x hx => h.span_eq (hholds x hx)

end Grows

/-- What holds while a merge that began in `b` has taken the items `done` and come to `a`. -/
structure Layer (b : Arena) (done : List Item) (a : Arena) : Prop extends Grows b a where
  old_done : ∀ x ∈ done, b.Holds x
  /-- A new group has items and earlier new groups as members. -/
  member : ∀ g, b.size ≤ g → ∀ x ∈ (a.draft g).members,
    x ∈ done ∨ ∃ h, x = .group h ∧ b.size ≤ h ∧ h < g
  exact : ∀ g, b.size ≤ g → g < a.size → a.Exact g
  adopted_iff : ∀ h, b.size ≤ h →
    ((a.draft h).adopted = true ↔ ∃ g, b.size ≤ g ∧ .group h ∈ (a.draft g).members)
  discarded : ∀ g, b.size ≤ g → (a.draft g).discarded = true → (a.draft g).isBareShadow = true
  bare : ∀ g, b.size ≤ g → (a.draft g).isBareShadow = true → ∀ x ∈ (a.draft g).members, x ∈ done
  /-- The only member of a group that is no shadow is in no other new group. -/
  single : ∀ g x, b.size ≤ g → (a.draft g).shadow = false → (a.draft g).members = [x] →
    ∀ h, b.size ≤ h → x ∈ (a.draft h).members → h = g
  recorded : ∀ x ∈ done,
    ∃ g, b.size ≤ g ∧ (a.draft g).isBareShadow = false ∧ x ∈ (a.draft g).members

/-- A new group that lies in no other and was not replaced. -/
structure Free (b a : Arena) (g : Nat) : Prop where
  size_le : b.size ≤ g
  lt_size : g < a.size
  adopted : (a.draft g).adopted = false
  discarded : (a.draft g).discarded = false

namespace Layer

variable {a} {b : Arena} {done : List Item}

theorem start (b : Arena) : Layer b [] b where
  toGrows := .refl b
  old_done _ hg := absurd hg List.not_mem_nil
  member g hg x hx := by
    have hlt := lt_size_of_mem hx
    omega
  exact g hg hlt := by omega
  adopted_iff h hh := by
    constructor
    · intro hm
      have hlt := lt_size_of_adopted hm
      omega
    · rintro ⟨g, hg, hm⟩
      have hlt := lt_size_of_mem hm
      omega
  discarded g hg hd := by
    rw [b.draft_of_size_le hg] at hd
    exact absurd hd (by decide)
  bare g hg _ x hx := by
    have hlt := lt_size_of_mem hx
    omega
  single g x hg _ hm := by
    rw [b.draft_of_size_le hg] at hm
    exact absurd hm (List.cons_ne_nil x []).symm
  recorded x hx := absurd hx List.not_mem_nil

theorem member_ne (h : Layer b done a) {g k : Nat} (hg : b.size ≤ g) (hk : g ≤ k) {x : Item}
    (hx : x ∈ (a.draft g).members) : x ≠ .group k := by
  rcases h.member g hg x hx with hd | ⟨l, rfl, _, hl⟩
  · exact (h.old_done x hd).ne_group (by omega)
  · intro e
    have hlk : l = k := Item.group.inj e
    omega

/-- A group that is opened is exact, and the others stay exact. -/
theorem exact_openGroup (h : Layer b done a) {x : Item} (hx : b.Holds x) (shadow : Bool) {g : Nat}
    (hg : b.size ≤ g) (hlt : g < (a.openGroup x shadow).size) :
    (a.openGroup x shadow).Exact g := by
  by_cases hne : g = a.size
  · have hspan : (a.openGroup x shadow).span x = a.span x :=
      a.span_openGroup (hx.ne_group h.size_le) x shadow
    subst hne
    unfold Exact
    rw [draft_openGroup]
    refine (Span.isHull_self (a.span x)).congr fun s => ?_
    simp [hspan, eq_comm]
  · have hga : g < a.size := by
      rw [size_openGroup] at hlt
      omega
    have hdraft := draft_openGroup_eq a hne x shadow
    refine (h.exact g hg hga).congr ?_ ?_ fun y hy => ?_
    · rw [hdraft]
    · rw [hdraft]
    · exact a.span_openGroup (h.member_ne hg (by omega) hy) x shadow

/-- What is recorded stays recorded when a group is opened. -/
theorem recorded_openGroup (h : Layer b done a) (x : Item) (shadow : Bool) {y : Item}
    (hy : y ∈ done) :
    ∃ g, b.size ≤ g ∧ ((a.openGroup x shadow).draft g).isBareShadow = false ∧
      y ∈ ((a.openGroup x shadow).draft g).members := by
  obtain ⟨g, hg, hb, hm⟩ := h.recorded y hy
  refine ⟨g, hg, ?_, (a.mem_openGroup x y shadow g).2 (.inl hm)⟩
  rw [draft_openGroup_eq a (Nat.ne_of_lt (lt_size_of_mem hm))]
  exact hb

/-- A group can be opened for an item, as a shadow if the item is recorded, and otherwise if no new
group has it. -/
theorem openGroup (h : Layer b done a) {x : Item} {shadow : Bool} {done' : List Item}
    (hdone : ∀ y, y ∈ done' ↔ y ∈ done ∨ y = x) (hx : b.Holds x)
    (hsingle : ∀ g, b.size ≤ g → (a.draft g).shadow = false → (a.draft g).members ≠ [x])
    (hfresh : shadow = false → ∀ g, b.size ≤ g → x ∉ (a.draft g).members)
    (hshadow : shadow = true → x ∈ done) : Layer b done' (a.openGroup x shadow) where
  toGrows := h.toGrows.openGroup x shadow
  old_done y hy := by
    rcases (hdone y).1 hy with hy | rfl
    · exact h.old_done y hy
    · exact hx
  member g hg y hy := by
    rcases (a.mem_openGroup x y shadow g).1 hy with hy | ⟨_, rfl⟩
    · exact (h.member g hg y hy).imp_left fun hd => (hdone y).2 (.inl hd)
    · exact .inl ((hdone y).2 (.inr rfl))
  exact g hg hlt := h.exact_openGroup hx shadow hg hlt
  adopted_iff k hk := by
    have hxk : x ≠ .group k := hx.ne_group hk
    rw [a.adopted_openGroup_of_ne hxk, h.adopted_iff k hk]
    simp only [mem_openGroup, hxk.symm, and_false, or_false]
  discarded g hg hd := by
    by_cases hne : g = a.size
    · rw [hne, draft_openGroup] at hd
      exact absurd hd Bool.false_ne_true
    · rw [draft_openGroup_eq a hne] at hd ⊢
      exact h.discarded g hg hd
  bare g hg hb y hy := by
    by_cases hne : g = a.size
    · rw [hne, draft_openGroup] at hb hy
      obtain rfl : y = x := List.mem_singleton.1 hy
      exact (hdone y).2 (.inr rfl)
    · rw [draft_openGroup_eq a hne] at hb hy
      exact (hdone y).2 (.inl (h.bare g hg hb y hy))
  single g y hg hs hm k hk hy := by
    rcases (a.mem_openGroup x y shadow k).1 hy with hy | ⟨rfl, rfl⟩
    · by_cases hne : g = a.size
      · rw [hne, draft_openGroup] at hs hm
        obtain rfl : x = y := List.singleton_inj.1 hm
        exact absurd hy (hfresh hs k hk)
      · rw [draft_openGroup_eq a hne] at hs hm
        exact h.single g y hg hs hm k hk hy
    · by_cases hne : g = a.size
      · exact hne.symm
      · rw [draft_openGroup_eq a hne] at hs hm
        exact absurd hm (hsingle g hg hs)
  recorded y hy := by
    rcases (hdone y).1 hy with hd | rfl
    · exact h.recorded_openGroup x shadow hd
    · cases shadow with
      | true => exact h.recorded_openGroup y true (hshadow rfl)
      | false =>
        refine ⟨a.size, h.size_le, ?_, (a.mem_openGroup y y false a.size).2 (.inr ⟨rfl, rfl⟩)⟩
        rw [draft_openGroup]
        rfl

theorem members_takeIn_ne (h : Layer b done a) {g : Nat} (hg : Free b a g) (x z : Item) (s : Span) :
    ((a.takeIn g x s).draft g).members ≠ [z] := by
  rw [draft_takeIn_self a hg.lt_size]
  intro hz
  have hlen := congrArg List.length hz
  have hpos := List.length_pos_iff.2 (h.exact g hg.size_le hg.lt_size).ne_nil
  rw [List.length_append, List.length_singleton, List.length_singleton] at hlen
  omega

theorem isBareShadow_takeIn (h : Layer b done a) {g : Nat} (hg : Free b a g) (x : Item) (s : Span) :
    ((a.takeIn g x s).draft g).isBareShadow = false := by
  rw [Bool.eq_false_iff]
  intro hb
  obtain ⟨_, z, hz⟩ := (Draft.isBareShadow_iff _).1 hb
  exact h.members_takeIn_ne hg x z s hz

theorem ne_of_mem (h : Layer b done a) {g : Nat} (hg : Free b a g) {k : Nat} (hk : b.size ≤ k)
    {y : Item} (hy : y ∈ (a.draft k).members) : y ≠ .group g := by
  rintro rfl
  have hadopted := (h.adopted_iff g hg.size_le).2 ⟨k, hk, hy⟩
  rw [hg.adopted] at hadopted
  exact absurd hadopted Bool.false_ne_true

/-- A group that an item joins becomes the hull of more, and the others stay exact. -/
theorem exact_takeIn (h : Layer b done a) {g : Nat} (hg : Free b a g) {x : Item}
    (hx : x ≠ .group g) {k : Nat} (hk : b.size ≤ k) (hlt : k < a.size) :
    (a.takeIn g x ((a.draft g).span.hull (a.span x))).Exact k := by
  have hspans : ∀ y, y ≠ .group g → (a.takeIn g x _).span y = a.span y :=
    fun y hy => a.span_takeIn hy x ((a.draft g).span.hull (a.span x))
  by_cases hkg : k = g
  · subst hkg
    unfold Exact
    rw [draft_takeIn_self a hg.lt_size]
    refine ((h.exact k hk hlt).insert (a.span x)).congr fun s => ?_
    constructor
    · rintro (⟨y, hy, he⟩ | rfl)
      · exact ⟨y, List.mem_append_left _ hy, (hspans y (h.ne_of_mem hg hk hy)).trans he⟩
      · exact ⟨x, List.mem_append_right _ (List.mem_singleton.2 rfl), hspans x hx⟩
    · rintro ⟨y, hy, he⟩
      rcases List.mem_append.1 hy with hy | hy
      · exact .inl ⟨y, hy, (hspans y (h.ne_of_mem hg hk hy)).symm.trans he⟩
      · obtain rfl : y = x := List.mem_singleton.1 hy
        exact .inr (he.symm.trans (hspans y hx))
  · have hdraft := draft_takeIn_of_ne a hkg x ((a.draft g).span.hull (a.span x))
    refine (h.exact k hk hlt).congr ?_ ?_ fun y hy => hspans y (h.ne_of_mem hg hk hy)
    · rw [hdraft]
    · rw [hdraft]

/-- Adopted are the members of new groups, also after an item has joined one. -/
theorem adopted_takeIn_iff (h : Layer b done a) {g : Nat} (hg : Free b a g) {x : Item}
    (hx : b.Holds x ∨ ∃ k, x = .group k ∧ b.size ≤ k ∧ k < g) (s : Span) {k : Nat}
    (hk : b.size ≤ k) :
    ((a.takeIn g x s).draft k).adopted = true ↔
      ∃ l, b.size ≤ l ∧ .group k ∈ ((a.takeIn g x s).draft l).members := by
  have hmem : ∀ l, .group k ∈ ((a.takeIn g x s).draft l).members ↔
      .group k ∈ (a.draft l).members ∨ (l = g ∧ .group k = x) :=
    fun l => mem_takeIn hg.lt_size x (.group k) s l
  by_cases hlt : k < a.size
  · rw [a.adopted_takeIn g x s hlt, h.adopted_iff k hk]
    constructor
    · rintro (⟨l, hl, hm⟩ | rfl)
      · exact ⟨l, hl, (hmem l).2 (.inl hm)⟩
      · exact ⟨g, hg.size_le, (hmem g).2 (.inr ⟨rfl, rfl⟩)⟩
    · rintro ⟨l, hl, hm⟩
      rcases (hmem l).1 hm with hm | ⟨_, he⟩
      · exact .inl ⟨l, hl, hm⟩
      · exact .inr he.symm
  · constructor
    · intro hm
      have hlt' := lt_size_of_adopted hm
      rw [size_takeIn] at hlt'
      exact absurd hlt' hlt
    · rintro ⟨l, hl, hm⟩
      rcases (hmem l).1 hm with hm | ⟨_, he⟩
      · have hla := lt_size_of_mem hm
        exact absurd rfl (h.member_ne hl (by omega) hm)
      · rcases hx with hx | ⟨l', rfl, _, hl'⟩
        · exact absurd he.symm (hx.ne_group hk)
        · have hkl : k = l' := Item.group.inj he
          have hga := hg.lt_size
          omega

/-- A free group can take in an item or an earlier new group that is the only member of no group
but a shadow; its span becomes the hull of the two. -/
theorem takeIn (h : Layer b done a) {g : Nat} (hg : Free b a g) {x : Item} {done' : List Item}
    (hdone : ∀ y, y ∈ done' ↔ y ∈ done ∨ (y = x ∧ b.Holds x))
    (hx : b.Holds x ∨ ∃ k, x = .group k ∧ b.size ≤ k ∧ k < g)
    (hsingle : ∀ k, b.size ≤ k → (a.draft k).shadow = false → (a.draft k).members ≠ [x]) :
    Layer b done' (a.takeIn g x ((a.draft g).span.hull (a.span x))) where
  toGrows := h.toGrows.takeIn hg.size_le x _
  old_done y hy := by
    rcases (hdone y).1 hy with hy | ⟨rfl, hy⟩
    · exact h.old_done y hy
    · exact hy
  member k hk y hy := by
    rcases (mem_takeIn hg.lt_size x y _ k).1 hy with hy | ⟨rfl, rfl⟩
    · exact (h.member k hk y hy).imp_left fun hd => (hdone y).2 (.inl hd)
    · exact hx.imp_left fun hy => (hdone y).2 (.inr ⟨rfl, hy⟩)
  exact k hk hlt := by
    have hxg : x ≠ .group g := by
      rcases hx with hx | ⟨l, rfl, _, hlg⟩
      · exact hx.ne_group hg.size_le
      · intro he
        have hgl : l = g := Item.group.inj he
        omega
    rw [size_takeIn] at hlt
    exact h.exact_takeIn hg hxg hk hlt
  adopted_iff k hk := h.adopted_takeIn_iff hg hx _ hk
  discarded k hk hd := by
    by_cases hkg : k = g
    · rw [hkg, draft_takeIn_self a hg.lt_size] at hd
      exact absurd (hg.discarded.symm.trans hd) Bool.false_ne_true
    · rw [draft_takeIn_of_ne a hkg] at hd ⊢
      exact h.discarded k hk hd
  bare k hk hb y hy := by
    by_cases hkg : k = g
    · rw [hkg, h.isBareShadow_takeIn hg] at hb
      exact absurd hb Bool.false_ne_true
    · rw [draft_takeIn_of_ne a hkg] at hb hy
      exact (hdone y).2 (.inl (h.bare k hk hb y hy))
  single k y hk hs hm l hl hy := by
    by_cases hkg : k = g
    · exact absurd (hkg ▸ hm) (h.members_takeIn_ne hg x y _)
    · rw [draft_takeIn_of_ne a hkg] at hs hm
      rcases (mem_takeIn hg.lt_size x y _ l).1 hy with hy | ⟨_, rfl⟩
      · exact h.single k y hk hs hm l hl hy
      · exact absurd hm (hsingle k hk hs)
  recorded y hy := by
    have hjoined := h.isBareShadow_takeIn hg x ((a.draft g).span.hull (a.span x))
    rcases (hdone y).1 hy with hd | ⟨rfl, _⟩
    · obtain ⟨k, hk, hb, hm⟩ := h.recorded y hd
      refine ⟨k, hk, ?_, (mem_takeIn hg.lt_size x y _ k).2 (.inl hm)⟩
      by_cases hkg : k = g
      · rw [hkg]
        exact hjoined
      · rw [draft_takeIn_of_ne a hkg]
        exact hb
    · exact ⟨g, hg.size_le, hjoined, (mem_takeIn hg.lt_size y y _ g).2 (.inr ⟨rfl, rfl⟩)⟩

theorem discard (h : Layer b done a) {g : Nat} (hb : (a.draft g).isBareShadow = true) :
    Layer b done (a.update g ({ · with discarded := true })) := by
  have hdraft : ∀ k, (a.update g ({ · with discarded := true })).draft k =
      { a.draft k with
        discarded := ((a.update g ({ · with discarded := true })).draft k).discarded } := by
    intro k
    rw [draft_update]
    split <;> rfl
  have hmembers : ∀ k, ((a.update g ({ · with discarded := true })).draft k).members =
      (a.draft k).members := by
    intro k
    rw [hdraft]
  have hspan : ∀ y, (a.update g ({ · with discarded := true })).span y = a.span y := by
    intro y
    cases y with
    | candidate i => rfl
    | group k =>
      simp only [span]
      rw [hdraft]
  have hgrows : Grows b (a.update g ({ · with discarded := true })) :=
    h.toGrows.update g fun _ => ⟨rfl, rfl⟩
  refine ⟨hgrows, h.old_done, fun k hk => ?_, fun k hk hlt => ?_, fun k hk => ?_, fun k hk hd => ?_,
    fun k hk => ?_, fun k y hk => ?_, fun y hy => ?_⟩
  · rw [hmembers]
    exact h.member k hk
  · rw [size_update] at hlt
    refine (h.exact k hk hlt).congr ?_ (hmembers k) fun y _ => hspan y
    rw [hdraft]
  · rw [hdraft, h.adopted_iff k hk]
    simp only [hmembers]
  · by_cases hkg : g = k
    · rw [hdraft]
      exact hkg ▸ hb
    · rw [draft_update, if_neg fun e => hkg e.1] at hd ⊢
      exact h.discarded k hk hd
  · rw [hdraft]
    exact h.bare k hk
  · simp only [hmembers]
    rw [hdraft]
    exact h.single k y hk
  · obtain ⟨k, hk, hbk, hm⟩ := h.recorded y hy
    refine ⟨k, hk, ?_, ?_⟩
    · rw [hdraft]
      exact hbk
    · rw [hmembers]
      exact hm

/-- A new group starts no later than some item. -/
theorem exists_start_le (h : Layer b done a) {g : Nat} (hg : b.size ≤ g) (hlt : g < a.size) :
    ∃ x ∈ done, (a.draft g).span.start ≤ (b.span x).start := by
  induction g using Nat.strongRecOn with
  | ind g ih =>
    have hexact := h.exact g hg hlt
    obtain ⟨x, hx⟩ := List.exists_mem_of_ne_nil _ hexact.ne_nil
    have hle : (a.draft g).span.start ≤ (a.span x).start := hexact.start_le _ ⟨x, hx, rfl⟩
    rcases h.member g hg x hx with hd | ⟨k, rfl, hk, hkg⟩
    · rw [h.span_eq (h.old_done x hd)] at hle
      exact ⟨x, hd, hle⟩
    · obtain ⟨y, hy, hky⟩ := ih k hkg hk (by omega)
      exact ⟨y, hy, Std.le_trans hle hky⟩

end Layer

/-! ### Free groups -/

namespace Free

variable {a} {b : Arena} {done : List Item}

theorem openGroup (hsize : b.size ≤ a.size) (x : Item) (shadow : Bool) :
    Free b (a.openGroup x shadow) a.size where
  size_le := hsize
  lt_size := by
    rw [size_openGroup]
    omega
  adopted := by rw [draft_openGroup]
  discarded := by rw [draft_openGroup]

theorem openGroup_of_ne {g : Nat} (hg : Free b a g) {x : Item} (hx : x ≠ .group g)
    (shadow : Bool) : Free b (a.openGroup x shadow) g where
  size_le := hg.size_le
  lt_size := by
    rw [size_openGroup]
    exact Nat.lt_succ_of_lt hg.lt_size
  adopted := by
    rw [a.adopted_openGroup_of_ne hx]
    exact hg.adopted
  discarded := by
    rw [draft_openGroup_eq a (Nat.ne_of_lt hg.lt_size)]
    exact hg.discarded

theorem takeIn {g : Nat} (hg : Free b a g) {x : Item} (hx : x ≠ .group g) (s : Span) :
    Free b (a.takeIn g x s) g where
  size_le := hg.size_le
  lt_size := by
    rw [size_takeIn]
    exact hg.lt_size
  adopted := by
    rw [Bool.eq_false_iff, Ne, a.adopted_takeIn g x s hg.lt_size]
    rintro (hm | hm)
    · exact absurd (hg.adopted.symm.trans hm) Bool.false_ne_true
    · exact hx hm
  discarded := by
    rw [draft_takeIn_self a hg.lt_size]
    exact hg.discarded

end Free

end Arena
end Outlier
