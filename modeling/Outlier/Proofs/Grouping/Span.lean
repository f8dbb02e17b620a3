import Outlier.Grouping.Arena

/-! # Exact hulls

The hull of a family of spans reaches from the least start to the greatest end, and both are
attained in the family, though not by one span. A span may end before it starts; nothing here
depends on the order of its two ends. -/

namespace Outlier.Span

/-! ### Order of times -/

instance : Std.LawfulOrderLeftLeaningMin Int64 := .of_eq fun _ _ => rfl

instance : Std.LawfulOrderLeftLeaningMax Int64 := .of_eq fun a b => by
  show (if a ≤ b then b else a) = if b ≤ a then a else b
  by_cases hab : a ≤ b
  · by_cases hba : b ≤ a
    · rw [if_pos hab, if_pos hba, Std.le_antisymm hab hba]
    · rw [if_pos hab, if_neg hba]
  · rw [if_neg hab, if_pos (Std.le_of_not_ge hab)]

theorem max_comm (s t : Int64) : max s t = max t s := by
  have hle : ∀ s t : Int64, max s t ≤ max t s := by
    intro s t
    rcases Std.max_eq_or (a := s) (b := t) with hmax | hmax
    · rw [hmax]
      exact Std.right_le_max
    · rw [hmax]
      exact Std.left_le_max
  exact Std.le_antisymm (hle s t) (hle t s)

/-! ### Hulls -/

/-- A span that reaches from the least start in a family to the greatest end in it. -/
structure IsHull (s : Span) (family : Span → Prop) : Prop where
  start_le : ∀ t, family t → s.start ≤ t.start
  le_stop : ∀ t, family t → t.stop ≤ s.stop
  start_attained : ∃ t, family t ∧ t.start = s.start
  stop_attained : ∃ t, family t ∧ t.stop = s.stop

variable {s t : Span} {family : Span → Prop}

theorem isHull_self (s : Span) : s.IsHull (· = s) where
  start_le _ ht := ht ▸ Std.le_refl _
  le_stop _ ht := ht ▸ Std.le_refl _
  start_attained := ⟨s, rfl, rfl⟩
  stop_attained := ⟨s, rfl, rfl⟩

theorem IsHull.congr (h : s.IsHull family) {other : Span → Prop}
    (hiff : ∀ t, family t ↔ other t) : s.IsHull other := by
  have he : family = other := funext fun t => propext (hiff t)
  rwa [← he]

theorem IsHull.unique (h : s.IsHull family) (h' : t.IsHull family) : s = t := by
  have hstart {s t : Span} (h : s.IsHull family) (h' : t.IsHull family) : s.start ≤ t.start := by
    obtain ⟨u, hu, he⟩ := h'.start_attained
    exact he ▸ h.start_le u hu
  have hstop {s t : Span} (h : s.IsHull family) (h' : t.IsHull family) : t.stop ≤ s.stop := by
    obtain ⟨u, hu, he⟩ := h'.stop_attained
    exact he ▸ h.le_stop u hu
  obtain ⟨start, stop⟩ := s
  obtain ⟨start', stop'⟩ := t
  rw [Span.mk.injEq]
  exact ⟨Std.le_antisymm (hstart h h') (hstart h' h), Std.le_antisymm (hstop h' h) (hstop h h')⟩

theorem start_hull_or (s t : Span) : (s.hull t).start = s.start ∨ (s.hull t).start = t.start :=
  Std.min_eq_or

theorem stop_hull_or (s t : Span) : (s.hull t).stop = s.stop ∨ (s.hull t).stop = t.stop :=
  Std.max_eq_or

theorem IsHull.insert (h : s.IsHull family) (t : Span) :
    (s.hull t).IsHull fun u => family u ∨ u = t where
  start_le u hu := by
    rcases hu with hu | rfl
    · exact Std.le_trans Std.min_le_left (h.start_le u hu)
    · exact Std.min_le_right
  le_stop u hu := by
    rcases hu with hu | rfl
    · exact Std.le_trans (h.le_stop u hu) Std.left_le_max
    · exact Std.right_le_max
  start_attained := by
    rcases start_hull_or s t with hst | hst
    · obtain ⟨u, hu, he⟩ := h.start_attained
      exact ⟨u, .inl hu, he.trans hst.symm⟩
    · exact ⟨t, .inr rfl, hst.symm⟩
  stop_attained := by
    rcases stop_hull_or s t with hst | hst
    · obtain ⟨u, hu, he⟩ := h.stop_attained
      exact ⟨u, .inl hu, he.trans hst.symm⟩
    · exact ⟨t, .inr rfl, hst.symm⟩

theorem IsHull.trans {ι : Type} {p : ι → Prop} {f : ι → Span}
    (h : s.IsHull fun t => ∃ x, p x ∧ f x = t) {q : ι → Span → Prop}
    (hinner : ∀ x, p x → (f x).IsHull (q x)) : s.IsHull fun u => ∃ x, p x ∧ q x u where
  start_le u hu := by
    obtain ⟨x, hx, hu⟩ := hu
    exact Std.le_trans (h.start_le _ ⟨x, hx, rfl⟩) ((hinner x hx).start_le u hu)
  le_stop u hu := by
    obtain ⟨x, hx, hu⟩ := hu
    exact Std.le_trans ((hinner x hx).le_stop u hu) (h.le_stop _ ⟨x, hx, rfl⟩)
  start_attained := by
    obtain ⟨_, ⟨x, hx, rfl⟩, hst⟩ := h.start_attained
    obtain ⟨u, hu, hut⟩ := (hinner x hx).start_attained
    exact ⟨u, ⟨x, hx, hu⟩, hut.trans hst⟩
  stop_attained := by
    obtain ⟨_, ⟨x, hx, rfl⟩, hst⟩ := h.stop_attained
    obtain ⟨u, hu, hut⟩ := (hinner x hx).stop_attained
    exact ⟨u, ⟨x, hx, hu⟩, hut.trans hst⟩

/-- A hull of all that some hulls cover is the hull of them. -/
theorem IsHull.of_covers {ι : Type} {p : ι → Prop} {f : ι → Span} {q : ι → Span → Prop}
    (h : s.IsHull fun u => ∃ x, p x ∧ q x u) (hinner : ∀ x, p x → (f x).IsHull (q x)) :
    s.IsHull fun t => ∃ x, p x ∧ f x = t where
  start_le t ht := by
    obtain ⟨x, hx, rfl⟩ := ht
    obtain ⟨u, hu, hst⟩ := (hinner x hx).start_attained
    exact hst ▸ h.start_le u ⟨x, hx, hu⟩
  le_stop t ht := by
    obtain ⟨x, hx, rfl⟩ := ht
    obtain ⟨u, hu, hst⟩ := (hinner x hx).stop_attained
    exact hst ▸ h.le_stop u ⟨x, hx, hu⟩
  start_attained := by
    obtain ⟨u, ⟨x, hx, hu⟩, hst⟩ := h.start_attained
    obtain ⟨u', hu', hst'⟩ := (hinner x hx).start_attained
    refine ⟨f x, ⟨x, hx, rfl⟩, Std.le_antisymm ?_ ?_⟩
    · exact hst ▸ (hinner x hx).start_le u hu
    · exact hst' ▸ h.start_le u' ⟨x, hx, hu'⟩
  stop_attained := by
    obtain ⟨u, ⟨x, hx, hu⟩, hst⟩ := h.stop_attained
    obtain ⟨u', hu', hst'⟩ := (hinner x hx).stop_attained
    refine ⟨f x, ⟨x, hx, rfl⟩, Std.le_antisymm ?_ ?_⟩
    · exact hst' ▸ h.le_stop u' ⟨x, hx, hu'⟩
    · exact hst ▸ (hinner x hx).le_stop u hu

/-- A span that starts no earlier moves the end of the hull alone. -/
theorem hull_of_start_le (h : s.start ≤ t.start) :
    s.hull t = { s with stop := max s.stop t.stop } := by
  have hmin : min s.start t.start = s.start := (Std.min_eq_if).trans (if_pos h)
  simp only [hull, hmin]

end Outlier.Span
