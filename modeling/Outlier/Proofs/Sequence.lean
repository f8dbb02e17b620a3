/-! # Lists

A run over a list that may stop and does not is a plain one.

`List.eraseDups` keeps the first occurrence of every item of a list. Sorting by a key is stable, so
that of the order of a list only the order among the items of each key matters (`SameByKey`):
removing repeats keeps the relation, and sorting makes an equality of it. -/

namespace Outlier

/-! ### Runs that may stop -/

section

variable {α β : Type}

theorem mapM_eq_some {f? : α → Option β} {f : α → β} {l : List α}
    (h : ∀ x ∈ l, f? x = some (f x)) : l.mapM f? = some (l.map f) := by
  induction l with
  | nil => rfl
  | cons x rest ih =>
    obtain ⟨hx, hrest⟩ := List.forall_mem_cons.1 h
    rw [List.mapM_cons, hx, ih hrest]
    rfl

theorem foldlM_eq_some {f? : β → α → Option β} {f : β → α → β} {P : β → Prop} {l : List α}
    (hstep : ∀ s, P s → ∀ x ∈ l, f? s x = some (f s x) ∧ P (f s x)) {s : β} (h : P s) :
    l.foldlM f? s = some (l.foldl f s) := by
  induction l generalizing s with
  | nil => rfl
  | cons x rest ih =>
    obtain ⟨hx, hP⟩ := hstep s h x List.mem_cons_self
    rw [List.foldlM_cons, hx]
    exact ih (fun s hs y hy => hstep s hs y (List.mem_cons_of_mem x hy)) hP

end

/-! ### First occurrences -/

section

variable {α β : Type} [BEq α] [LawfulBEq α] [BEq β] [LawfulBEq β]

theorem nodup_eraseDups (l : List α) : l.eraseDups.Nodup := by
  match l with
  | [] => simp
  | a :: l =>
    rw [List.eraseDups_cons, List.nodup_cons]
    refine ⟨fun h => ?_, nodup_eraseDups _⟩
    have hf := (List.mem_filter.1 (List.mem_eraseDups.1 h)).2
    simp at hf
termination_by l.length
decreasing_by
  exact Nat.lt_succ_of_le (List.length_filter_le ..)

theorem filter_eraseDups (p : α → Bool) (l : List α) :
    l.eraseDups.filter p = (l.filter p).eraseDups := by
  match l with
  | [] => rfl
  | a :: l =>
    rw [List.eraseDups_cons]
    have hrest := filter_eraseDups p (l.filter fun b => !b == a)
    cases hp : p a with
    | true =>
      rw [List.filter_cons_of_pos hp, List.filter_cons_of_pos hp, List.eraseDups_cons, hrest,
        List.filter_filter, List.filter_filter]
      simp only [Bool.and_comm]
    | false =>
      have hpa : ¬ p a = true := by
        rw [hp]
        exact Bool.false_ne_true
      rw [List.filter_cons_of_neg hpa, List.filter_cons_of_neg hpa, hrest, List.filter_filter]
      refine congrArg List.eraseDups (List.filter_congr fun b _ => ?_)
      cases hb : p b with
      | true =>
        have hne : (b == a) = false := by
          rw [beq_eq_false_iff_ne]
          rintro rfl
          exact hpa hb
        rw [hne]
        rfl
      | false => rfl
termination_by l.length
decreasing_by
  exact Nat.lt_succ_of_le (List.length_filter_le ..)

theorem eraseDups_map {f : α → β} (hf : ∀ a b, f a = f b → a = b) (l : List α) :
    (l.map f).eraseDups = l.eraseDups.map f := by
  match l with
  | [] => rfl
  | a :: l =>
    have hrest := eraseDups_map hf (l.filter fun b => !b == a)
    have hfilter : (l.map f).filter (fun b => !b == f a) = (l.filter fun b => !b == a).map f := by
      rw [List.filter_map]
      refine congrArg (List.map f) (List.filter_congr fun b _ => ?_)
      have hiff : (f b == f a) = (b == a) := by
        rw [Bool.eq_iff_iff, beq_iff_eq, beq_iff_eq]
        exact ⟨hf b a, congrArg f⟩
      exact congrArg not hiff
    rw [List.map_cons, List.eraseDups_cons, List.eraseDups_cons, List.map_cons, hfilter, hrest]
termination_by l.length
decreasing_by
  exact Nat.lt_succ_of_le (List.length_filter_le ..)

end

/-! ### Stable sorting -/

section

variable {α κ : Type}

section

variable [LE κ] [DecidableLE κ] [Std.IsLinearOrder κ] (key : α → κ)

theorem key_trans (x y z : α) (hxy : decide (key x ≤ key y) = true)
    (hyz : decide (key y ≤ key z) = true) : decide (key x ≤ key z) = true :=
  decide_eq_true (Std.le_trans (of_decide_eq_true hxy) (of_decide_eq_true hyz))

theorem key_total (x y : α) : (decide (key x ≤ key y) || decide (key y ≤ key x)) = true := by
  rw [Bool.or_eq_true, decide_eq_true_iff, decide_eq_true_iff]
  exact Std.le_total

theorem pairwise_mergeSort_key (l : List α) :
    (l.mergeSort fun x y => key x ≤ key y).Pairwise fun x y => key x ≤ key y :=
  (List.pairwise_mergeSort (key_trans key) (key_total key) l).imp fun hxy => of_decide_eq_true hxy

end

variable [DecidableEq κ]

/-- The items of each key come in the same order in both lists. -/
def SameByKey (key : α → κ) (l l' : List α) : Prop :=
  ∀ k, l.filter (fun x => key x = k) = l'.filter fun x => key x = k

namespace SameByKey

variable {key : α → κ} {l l' m m' : List α}

theorem refl (l : List α) : SameByKey key l l := fun _ => rfl

theorem append (h : SameByKey key l l') (h' : SameByKey key m m') :
    SameByKey key (l ++ m) (l' ++ m') := by
  intro k
  rw [List.filter_append, List.filter_append, h k, h' k]

theorem eraseDups [BEq α] [LawfulBEq α] (h : SameByKey key l l') :
    SameByKey key l.eraseDups l'.eraseDups := by
  intro k
  rw [filter_eraseDups, filter_eraseDups, h k]

theorem mem_iff (h : SameByKey key l l') (x : α) : x ∈ l ↔ x ∈ l' := by
  have hx : x ∈ l.filter (fun y => key y = key x) ↔ x ∈ l'.filter fun y => key y = key x := by
    rw [h]
  simpa using hx

theorem congr (h : SameByKey key l l') {key' : α → κ} (hkey : ∀ x ∈ l, key' x = key x) :
    SameByKey key' l l' := by
  intro k
  have hl : l.filter (fun x => key' x = k) = l.filter fun x => key x = k := by
    refine List.filter_congr fun x hx => ?_
    rw [hkey x hx]
  have hl' : l'.filter (fun x => key' x = k) = l'.filter fun x => key x = k := by
    refine List.filter_congr fun x hx => ?_
    rw [hkey x ((h.mem_iff x).2 hx)]
  rw [hl, hl', h k]

/-- Without repeats, and with at most one item for each key, the items decide. -/
theorem of_nodup (hl : l.Nodup) (hl' : l'.Nodup) (hmem : ∀ x, x ∈ l ↔ x ∈ l')
    (hkey : ∀ x ∈ l, ∀ y ∈ l, key x = key y → x = y) : SameByKey key l l' := by
  intro k
  have hone : ∀ x ∈ l.filter (fun z => key z = k), ∀ y ∈ l.filter (fun z => key z = k), x = y := by
    intro x hx y hy
    rw [List.mem_filter, decide_eq_true_iff] at hx hy
    exact hkey x hx.1 y hy.1 (hx.2.trans hy.2.symm)
  have hperm : (l'.filter fun z => key z = k).Perm (l.filter fun z => key z = k) :=
    ((List.perm_ext_iff_of_nodup hl' hl).2 fun x => (hmem x).symm).filter _
  have hnodup : (l.filter fun z => key z = k).Nodup := hl.filter _
  match hf : l.filter (fun z => key z = k) with
  | [] =>
    rw [hf] at hperm
    exact (List.perm_nil.1 hperm).symm
  | [x] =>
    rw [hf] at hperm
    exact (List.perm_singleton.1 hperm).symm
  | x :: y :: rest =>
    rw [hf] at hone hnodup
    have hxy : x = y := hone x List.mem_cons_self y (List.mem_cons_of_mem _ List.mem_cons_self)
    exact absurd (hxy ▸ List.mem_cons_self) (List.nodup_cons.1 hnodup).1

section

variable [LE κ] [Std.IsLinearOrder κ]

/-- Sorted lists in which the items of each key come in the same order are equal. -/
theorem eq_of_pairwise (h : SameByKey key l l') (hl : l.Pairwise fun x y => key x ≤ key y)
    (hl' : l'.Pairwise fun x y => key x ≤ key y) : l = l' := by
  induction l generalizing l' with
  | nil =>
    refine (List.eq_nil_iff_forall_not_mem.2 fun x hx => ?_).symm
    exact absurd ((h.mem_iff x).2 hx) List.not_mem_nil
  | cons x rest ih =>
    cases l' with
    | nil => exact absurd ((h.mem_iff x).1 List.mem_cons_self) List.not_mem_nil
    | cons y rest' =>
      obtain ⟨hx, hrest⟩ := List.pairwise_cons.1 hl
      obtain ⟨hy, hrest'⟩ := List.pairwise_cons.1 hl'
      have hyx : key y ≤ key x := by
        rcases List.mem_cons.1 ((h.mem_iff x).1 List.mem_cons_self) with rfl | hm
        · exact Std.le_refl _
        · exact hy x hm
      have hxy : key x ≤ key y := by
        rcases List.mem_cons.1 ((h.mem_iff y).2 List.mem_cons_self) with rfl | hm
        · exact Std.le_refl _
        · exact hx y hm
      have hkey : key y = key x := Std.le_antisymm hyx hxy
      have hhead := h (key x)
      rw [List.filter_cons_of_pos (p := fun z => decide (key z = key x)) (decide_eq_true rfl),
        List.filter_cons_of_pos (p := fun z => decide (key z = key x)) (decide_eq_true hkey)]
        at hhead
      obtain ⟨rfl, htail⟩ := List.cons.inj hhead
      refine congrArg (x :: ·) (ih (fun k => ?_) hrest hrest')
      by_cases hk : key x = k
      · exact hk ▸ htail
      · have hrest := h k
        have hneg : ¬ decide (key x = k) = true := fun e => hk (of_decide_eq_true e)
        rwa [List.filter_cons_of_neg (p := fun z => decide (key z = k)) hneg,
          List.filter_cons_of_neg (p := fun z => decide (key z = k)) hneg] at hrest

variable [DecidableLE κ]

/-- Sorting by the key keeps the order among the items of each key. -/
theorem mergeSort_self (l : List α) :
    SameByKey key (l.mergeSort fun x y => key x ≤ key y) l := by
  intro k
  have hsorted : (l.filter fun x => key x = k).Pairwise fun x y =>
      decide (key x ≤ key y) = true := by
    refine List.pairwise_of_forall_mem_list fun x hx y hy => ?_
    rw [List.mem_filter, decide_eq_true_iff] at hx hy
    rw [hx.2, hy.2]
    exact decide_eq_true (Std.le_refl k)
  have hsub := List.sublist_mergeSort (key_trans key) (key_total key) hsorted List.filter_sublist
  have hfilter := hsub.filter fun x => decide (key x = k)
  rw [List.filter_filter] at hfilter
  simp only [Bool.and_self] at hfilter
  have hlen : ((l.mergeSort fun x y => key x ≤ key y).filter fun x => key x = k).length =
      (l.filter fun x => key x = k).length :=
    ((List.mergeSort_perm l _).filter _).length_eq
  exact (hfilter.eq_of_length hlen.symm).symm

theorem mergeSort_eq (h : SameByKey key l l') :
    (l.mergeSort fun x y => key x ≤ key y) = l'.mergeSort fun x y => key x ≤ key y := by
  refine eq_of_pairwise (fun k => ?_) (pairwise_mergeSort_key key l) (pairwise_mergeSort_key key l')
  rw [mergeSort_self l k, h k, mergeSort_self l' k]

end

end SameByKey

end

end Outlier
