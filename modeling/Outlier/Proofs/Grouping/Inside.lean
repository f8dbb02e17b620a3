import Outlier.Proofs.Grouping.Layer

/-! # What lies in a group

Groups share members, so that the arena is no forest but a graph. It has no cycles: in every arena
of a pass the members of a group were there before it (`Ranked`). -/

namespace Outlier.Arena

/-- The item lies in the group, at any depth. -/
inductive Inside (a : Arena) (x : Item) : Nat → Prop where
  | member {g : Nat} (hx : x ∈ (a.draft g).members) : Inside a x g
  | inner {g h : Nat} (hh : .group h ∈ (a.draft g).members) (hx : Inside a x h) : Inside a x g

/-- The item is one of several or lies in one of them. -/
def Within (a : Arena) (items : List Item) (x : Item) : Prop :=
  x ∈ items ∨ ∃ g, .group g ∈ items ∧ a.Inside x g

/-- The groups in a group come before it. -/
def Ranked (a : Arena) : Prop := ∀ g h, .group h ∈ (a.draft g).members → h < g

variable {a b : Arena} {x : Item} {g h : Nat}

theorem inside_iff : a.Inside x g ↔ a.Within (a.draft g).members x := by
  constructor
  · rintro (hx | ⟨hh, hx⟩)
    · exact .inl hx
    · exact .inr ⟨_, hh, hx⟩
  · rintro (hx | ⟨h, hh, hx⟩)
    · exact .member hx
    · exact .inner hh hx

theorem Inside.trans (hh : a.Inside (.group h) g) (hx : a.Inside x h) : a.Inside x g := by
  induction hh with
  | member hm => exact .inner hm hx
  | inner hm _ ih => exact .inner hm ih

/-- What lies in a group is a member of some group, namely of it or of one that lies in it. -/
theorem Inside.exists_parent (hx : a.Inside x g) :
    ∃ p, x ∈ (a.draft p).members ∧ (p = g ∨ a.Inside (.group p) g) := by
  induction hx with
  | member hm => exact ⟨_, hm, .inl rfl⟩
  | inner hm _ ih =>
    obtain ⟨p, hp, rfl | hin⟩ := ih
    · exact ⟨p, hp, .inr (.member hm)⟩
    · exact ⟨p, hp, .inr (.inner hm hin)⟩

theorem Ranked.lt (hr : a.Ranked) (hh : a.Inside (.group h) g) : h < g := by
  induction hh with
  | member hm => exact hr _ _ hm
  | inner hm _ ih =>
    have hlt := hr _ _ hm
    omega

theorem Ranked.holds (hr : a.Ranked) (hg : g < a.size) : ∀ y ∈ (a.draft g).members, a.Holds y := by
  rintro _ hy k rfl
  have hlt := hr g k hy
  omega

/-- Only the groups up to the place decide what lies in a group. -/
theorem Inside.congr (hr : a.Ranked) (hx : a.Inside x g)
    (hm : ∀ k ≤ g, (b.draft k).members = (a.draft k).members) : b.Inside x g := by
  induction hx with
  | member hx => exact .member (hm _ (Nat.le_refl _) ▸ hx)
  | inner hh _ ih =>
    have hlt := hr _ _ hh
    refine .inner (hm _ (Nat.le_refl _) ▸ hh) (ih fun k hk => hm k ?_)
    omega

theorem Grows.inside_iff (hg : Grows b a) (ha : a.Ranked) (hb : b.Ranked) (hlt : g < b.size) :
    a.Inside x g ↔ b.Inside x g := by
  constructor
  · intro hx
    exact hx.congr ha fun k hk => (hg.old_members k (by omega)).symm
  · intro hx
    exact hx.congr hb fun k hk => hg.old_members k (by omega)

theorem Grows.within_iff (hg : Grows b a) (ha : a.Ranked) (hb : b.Ranked) {items : List Item}
    (hitems : ∀ y ∈ items, b.Holds y) : a.Within items x ↔ b.Within items x :=
  or_congr_right <| exists_congr fun _ => and_congr_right fun hm =>
    hg.inside_iff ha hb (hitems _ hm _ rfl)

theorem within_append {left right : List Item} :
    a.Within (left ++ right) x ↔ a.Within left x ∨ a.Within right x := by
  unfold Within
  simp only [List.mem_append, or_and_right, exists_or]
  exact or_or_or_comm

theorem within_congr {items items' : List Item} (h : ∀ y, y ∈ items ↔ y ∈ items') :
    a.Within items x ↔ a.Within items' x := by
  unfold Within
  simp only [h]

end Outlier.Arena
