import Outlier.Proofs.Grouping.Evaluation

/-! # Renamed candidates

When the candidates come in another order, a pass works on the same items under other names. Two
arenas are `Renamed` when their groups are the same up to the names of the candidates, place by
place; every change of an arena keeps this, and so does a sweep over the renamed items. -/

namespace Outlier

/-- The item with its candidate renamed. -/
def Item.rename (σ : Nat → Nat) : Item → Item
  | .candidate i => .candidate (σ i)
  | .group g => .group g

/-- The group with the candidates among its members renamed. -/
def Draft.rename (σ : Nat → Nat) (d : Draft) : Draft :=
  { d with members := d.members.map (Item.rename σ) }

@[simp] theorem Draft.isBareShadow_rename (σ : Nat → Nat) (d : Draft) :
    (d.rename σ).isBareShadow = d.isBareShadow := by
  simp [rename, isBareShadow]

namespace Arena

variable {σ : Nat → Nat} {a b : Arena}

/-- The arena `b` is `a` with the candidates renamed. No two candidates start together. -/
structure Renamed (σ : Nat → Nat) (a b : Arena) : Prop where
  groups : b.groups = a.groups.map (Draft.rename σ)
  candidate : ∀ i, b.candidate (σ i) = a.candidate i
  injective : ∀ i j, σ i = σ j → i = j
  range : ∀ j, j < b.candidates.size ↔ ∃ i < a.candidates.size, σ i = j
  distinct : ∀ i < a.candidates.size, ∀ j < a.candidates.size,
    (a.candidate i).startTime = (a.candidate j).startTime → i = j

namespace Renamed

/-- The rest is about candidates, which no change touches. -/
theorem of_groups (h : Renamed σ a b) {a' b' : Arena} (ha : a'.candidates = a.candidates)
    (hb : b'.candidates = b.candidates) (hg : b'.groups = a'.groups.map (Draft.rename σ)) :
    Renamed σ a' b' where
  groups := hg
  candidate i := by
    simp only [Arena.candidate, ha, hb]
    exact h.candidate i
  injective := h.injective
  range j := by
    rw [ha, hb]
    exact h.range j
  distinct := by
    simp only [Arena.candidate, ha]
    exact h.distinct

theorem rename_injective (h : Renamed σ a b) (x y : Item) (hxy : x.rename σ = y.rename σ) :
    x = y := by
  cases x with
  | candidate i =>
    cases y with
    | candidate j => exact congrArg Item.candidate (h.injective i j (Item.candidate.inj hxy))
    | group g => exact absurd hxy (by simp [Item.rename])
  | group g =>
    cases y with
    | candidate j => exact absurd hxy (by simp [Item.rename])
    | group k => exact congrArg Item.group (Item.group.inj hxy)

theorem size (h : Renamed σ a b) : b.size = a.size := by
  simp [Arena.size, h.groups]

theorem draft (h : Renamed σ a b) (g : Nat) : b.draft g = (a.draft g).rename σ := by
  simp only [Arena.draft, h.groups]
  by_cases hg : g < a.groups.size
  · simp [Array.getD_eq_getD_getElem?, hg]
  · simp [Array.getD_eq_getD_getElem?, hg]
    rfl

theorem members (h : Renamed σ a b) (g : Nat) :
    (b.draft g).members = (a.draft g).members.map (Item.rename σ) := by
  rw [h.draft]
  rfl

theorem span (h : Renamed σ a b) (x : Item) : b.span (x.rename σ) = a.span x := by
  cases x with
  | candidate i =>
    show (b.candidate (σ i)).span = _
    rw [h.candidate]
    rfl
  | group g =>
    show (b.draft g).span = _
    rw [h.draft]
    rfl

/-! ### Changes -/

theorem update (h : Renamed σ a b) (g : Nat) {f f' : Draft → Draft}
    (hf : ∀ d : Draft, f' (d.rename σ) = (f d).rename σ) :
    Renamed σ (a.update g f) (b.update g f') := by
  refine h.of_groups rfl rfl ?_
  simp only [Arena.update, h.groups]
  refine Array.ext (by simp) fun i hi hi' => ?_
  rw [Array.getElem_modify, Array.getElem_map, Array.getElem_map, Array.getElem_modify]
  split
  · exact hf _
  · rfl

theorem markAdopted (h : Renamed σ a b) (x : Item) :
    Renamed σ (a.markAdopted x) (b.markAdopted (x.rename σ)) := by
  cases x with
  | candidate i => exact h
  | group g => exact h.update g fun _ => rfl

theorem markFree (h : Renamed σ a b) (x : Item) :
    Renamed σ (a.markFree x) (b.markFree (x.rename σ)) := by
  cases x with
  | candidate i => exact h
  | group g => exact h.update g fun _ => rfl

theorem openGroup (h : Renamed σ a b) (x : Item) (shadow : Bool) :
    Renamed σ (a.openGroup x shadow) (b.openGroup (x.rename σ) shadow) := by
  refine h.of_groups (a.candidates_openGroup x shadow) (b.candidates_openGroup _ shadow) ?_
  simp only [Arena.openGroup, (h.markAdopted x).groups, h.span, Array.map_push]
  rfl

theorem adopt (h : Renamed σ a b) (g : Nat) (x : Item) :
    Renamed σ (a.adopt g x) (b.adopt g (x.rename σ)) := by
  refine (h.markAdopted x).update g fun d => ?_
  simp [Draft.rename]

theorem stretch (h : Renamed σ a b) (g : Nat) (stop : Int64) :
    Renamed σ (a.stretch g stop) (b.stretch g stop) :=
  h.update g fun _ => rfl

theorem widen (h : Renamed σ a b) (g : Nat) (s : Span) :
    Renamed σ (a.widen g s) (b.widen g s) :=
  h.update g fun _ => rfl

theorem close (h : Renamed σ a b) (g : Nat) :
    Renamed σ (a.close g).1 (b.close g).1 ∧ (b.close g).2 = (a.close g).2.rename σ := by
  unfold Arena.close
  rw [h.draft, Draft.isBareShadow_rename]
  by_cases hb : (a.draft g).isBareShadow = true
  · rw [if_pos hb, if_pos hb]
    obtain ⟨_, x, hx⟩ := (Draft.isBareShadow_iff _).1 hb
    refine ⟨h.update g fun _ => rfl, ?_⟩
    simp [Draft.rename, hx]
  · rw [if_neg hb, if_neg hb]
    exact ⟨h, rfl⟩

end Renamed

/-! ### Sweeps -/

/-- Two conjunctive sweeps that differ by the names of the candidates. -/
structure Sweep.Renamed (σ : Nat → Nat) (s t : Sweep) : Prop where
  arena : Arena.Renamed σ s.arena t.arena
  heads : t.heads = s.heads

/-- Two disjunctive sweeps that differ by the names of the candidates. -/
structure Union.Renamed (σ : Nat → Nat) (u v : Union) : Prop where
  arena : Arena.Renamed σ u.arena v.arena
  current : v.current = u.current

namespace Sweep.Renamed

variable {s t : Sweep}

theorem start (h : s.Renamed σ t) (x : Item) (shadow : Bool) :
    (s.start x shadow).Renamed σ (t.start (x.rename σ) shadow) where
  arena := h.arena.openGroup x shadow
  heads := by
    show t.arena.size :: t.heads = s.arena.size :: s.heads
    rw [h.arena.size, h.heads]

theorem extend (h : s.Renamed σ t) (head : Nat) (x : Item) :
    (s.extend head x).Renamed σ (t.extend head (x.rename σ)) := by
  have hjoin : Sweep.Renamed σ
      { s with arena := (s.arena.stretch head (s.arena.span x).stop).adopt head x }
      { t with arena := (t.arena.stretch head (s.arena.span x).stop).adopt head (x.rename σ) } :=
    ⟨(h.arena.stretch head _).adopt head x, h.heads⟩
  unfold Sweep.extend
  rw [h.arena.span]
  exact hjoin.start x true

theorem breakOff (h : s.Renamed σ t) (below : List Nat) (x : Item) :
    (s.breakOff below x).Renamed σ (t.breakOff below (x.rename σ)) := by
  have hbelow : Sweep.Renamed σ { s with heads := below } { t with heads := below } :=
    ⟨h.arena, rfl⟩
  exact hbelow.start x false

theorem enclose (h : s.Renamed σ t) (head : Nat) (below : List Nat) (x : Item) :
    (s.enclose head below x).Renamed σ (t.enclose head below (x.rename σ)) := by
  obtain ⟨hclose, hinner⟩ := h.arena.close head
  have hopen := hclose.openGroup x false
  unfold Sweep.enclose
  dsimp only
  rw [hinner, hclose.size, hopen.span]
  exact ⟨(hopen.widen _ _).adopt _ _, rfl⟩

theorem step (h : s.Renamed σ t) (x : Item) :
    (s.step x).Renamed σ (t.step (x.rename σ)) := by
  cases hheads : s.heads with
  | nil =>
    rw [step_nil hheads, step_nil (h.heads.trans hheads)]
    exact h.start x false
  | cons head below =>
    rw [step_cons hheads, step_cons (h.heads.trans hheads), h.arena.draft, h.arena.span]
    show Sweep.Renamed σ _ (if (s.arena.draft head).span.stop < _ then _ else
      if (s.arena.draft head).span.stop < _ then _ else _)
    split
    · exact h.breakOff below x
    · split
      · exact h.extend head x
      · exact h.enclose head below x

end Sweep.Renamed

theorem Union.Renamed.step {u v : Union} (h : u.Renamed σ v) (x : Item) :
    (u.step x).Renamed σ (v.step (x.rename σ)) := by
  have hopen : Union.Renamed σ ⟨u.arena.openGroup x false, some u.arena.size⟩
      ⟨v.arena.openGroup (x.rename σ) false, some v.arena.size⟩ :=
    ⟨h.arena.openGroup x false, congrArg some h.arena.size⟩
  unfold Union.step
  rw [h.current]
  cases u.current with
  | none => exact hopen
  | some g =>
    dsimp only
    rw [h.arena.draft, h.arena.span]
    show Union.Renamed σ _ (if _ ≤ (u.arena.draft g).span.stop then _ else _)
    split
    · exact ⟨(h.arena.stretch g _).adopt g x, rfl⟩
    · exact hopen

/-- Steps that keep a relation, the second with the renamed item, keep it over all items. -/
theorem foldl_renamed {τ : Type} {R : τ → τ → Prop} {step step' : τ → Item → τ}
    {items : List Item}
    (hstep : ∀ s t, ∀ x ∈ items, R s t → R (step s x) (step' t (x.rename σ))) {s t : τ}
    (h : R s t) : R (items.foldl step s) ((items.map (Item.rename σ)).foldl step' t) := by
  induction items generalizing s t with
  | nil => exact h
  | cons x rest ih =>
    have hx := hstep s t x List.mem_cons_self h
    exact ih (fun s t y hy => hstep s t y (List.mem_cons_of_mem _ hy)) hx

/-! ### Merges -/

namespace Renamed

theorem result? (h : Renamed σ a b) (g : Nat) :
    b.result? g = (a.result? g).map (Item.rename σ) := by
  have hcondition : ((b.draft g).adopted || (b.draft g).discarded || (b.draft g).isBareShadow) =
      ((a.draft g).adopted || (a.draft g).discarded || (a.draft g).isBareShadow) := by
    rw [h.draft, Draft.isBareShadow_rename]
    rfl
  unfold Arena.result?
  dsimp only
  rw [hcondition, h.members]
  split
  · rfl
  · cases (a.draft g).members with
    | nil => rfl
    | cons x rest =>
      cases rest with
      | nil => cases x <;> rfl
      | cons y rest => cases x <;> rfl

theorem collect (h : Renamed σ a b) (first : Nat) :
    Renamed σ (a.collect first).1 (b.collect first).1 ∧
      (b.collect first).2 = (a.collect first).2.map (Item.rename σ) := by
  have hresults : (b.collect first).2 = (a.collect first).2.map (Item.rename σ) := by
    show (List.range' first (b.size - first)).filterMap b.result? =
      ((List.range' first (a.size - first)).filterMap a.result?).map _
    rw [h.size, List.map_filterMap]
    exact List.filterMap_congr fun g _ => h.result? g
  refine ⟨?_, hresults⟩
  show Renamed σ ((a.collect first).2.foldl Arena.markFree a)
    ((b.collect first).2.foldl Arena.markFree b)
  rw [hresults]
  exact foldl_renamed (fun _ _ x _ hr => hr.markFree x) h

/-- Sorting the renamed items gives the sorted items, renamed. Before sorting they may stand in
another order, as long as those that start together do not. -/
theorem sorted (h : Renamed σ a b) {items items' : List Item}
    (hitems : SameByKey (fun x => (b.span x).start) items' (items.map (Item.rename σ))) :
    b.sorted items' = (a.sorted items).map (Item.rename σ) := by
  have hdups : (items.map (Item.rename σ)).eraseDups = items.eraseDups.map (Item.rename σ) :=
    eraseDups_map h.rename_injective items
  have hsort : (b.sorted items') = (items.eraseDups.map (Item.rename σ)).mergeSort
      fun x y => (b.span x).start ≤ (b.span y).start := by
    rw [← hdups]
    exact hitems.eraseDups.mergeSort_eq
  rw [hsort, Arena.sorted]
  refine (List.map_mergeSort fun x _ y _ => ?_).symm
  rw [h.span, h.span]

theorem merge (h : Renamed σ a b) (op : Operator) {left right left' right' : List Item}
    (hitems : SameByKey (fun x => (b.span x).start) (left' ++ right')
      ((left ++ right).map (Item.rename σ))) :
    Renamed σ (a.merge op left right).1 (b.merge op left' right').1 ∧
      (b.merge op left' right').2 = (a.merge op left right).2.map (Item.rename σ) := by
  have hsorted := h.sorted hitems
  cases op with
  | and =>
    have hstart : Sweep.Renamed σ ⟨a, []⟩ ⟨b, []⟩ := ⟨h, rfl⟩
    have hsweep := foldl_renamed (R := Sweep.Renamed σ)
      (fun _ _ x (_ : x ∈ a.sorted (left ++ right)) hr => hr.step x) hstart
    have hb : b.merge .and left' right' = (((a.sorted (left ++ right)).map (Item.rename σ)).foldl
        Sweep.step ⟨b, []⟩).arena.collect a.size := by
      rw [← hsorted, ← h.size]
      rfl
    rw [hb]
    exact hsweep.arena.collect a.size
  | or =>
    have hstart : Union.Renamed σ ⟨a, none⟩ ⟨b, none⟩ := ⟨h, rfl⟩
    have hsweep := foldl_renamed (R := Union.Renamed σ)
      (fun _ _ x (_ : x ∈ a.sorted (left ++ right)) hr => hr.step x) hstart
    have hb : b.merge .or left' right' = (((a.sorted (left ++ right)).map (Item.rename σ)).foldl
        Union.step ⟨b, none⟩).arena.collect a.size := by
      rw [← hsorted, ← h.size]
      rfl
    rw [hb]
    exact hsweep.arena.collect a.size

end Renamed

end Arena
end Outlier
