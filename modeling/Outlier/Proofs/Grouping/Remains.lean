import Mathlib.Data.List.Nodup
import Outlier.Proofs.Grouping.Inside

/-! # What a merge leaves

At the end of a merge every new group that lies in no other and is no bare shadow is a result, or
its member is when that is a single group. Nothing gets lost by this: whatever lies in the items
lies in the results (`Layer.within_results`). Nothing is left twice: the results have no repeats
(`Layer.nodup_results`) and none lies in another (`Layer.not_inside_results`), since a single member
is in no other new group. -/

namespace Outlier.Arena

/-- What a merge leaves of the groups from place `first` on. -/
def results (a : Arena) (first : Nat) : List Item :=
  (List.range' first (a.size - first)).filterMap a.result?

variable {a b : Arena} {done : List Item}

theorem mem_results {first : Nat} {r : Item} :
    r ∈ a.results first ↔ ∃ g, first ≤ g ∧ g < a.size ∧ a.result? g = some r := by
  simp only [results, List.mem_filterMap, List.mem_range'_1]
  refine exists_congr fun g => ?_
  constructor
  · rintro ⟨⟨hle, hlt⟩, hr⟩
    exact ⟨hle, by omega, hr⟩
  · rintro ⟨hle, hlt, hr⟩
    exact ⟨⟨hle, by omega⟩, hr⟩

theorem result?_congr {a' : Arena} {g : Nat} (h : a'.draft g = a.draft g) :
    a'.result? g = a.result? g := by
  unfold result?
  rw [h]

/-- A group with a result is free and no bare shadow; the result is the group itself or a group that
is its only member. -/
theorem result?_eq_some {g : Nat} {r : Item} (h : a.result? g = some r) :
    (a.draft g).adopted = false ∧ (a.draft g).isBareShadow = false ∧
      (r = .group g ∨ (a.draft g).members = [r] ∧ ∃ inner, r = .group inner) := by
  unfold result? at h
  dsimp only at h
  split at h
  · exact absurd h (by simp)
  next hmarks =>
    simp only [Bool.or_eq_true, not_or, Bool.not_eq_true] at hmarks
    obtain ⟨⟨hadopted, _⟩, hbare⟩ := hmarks
    refine ⟨hadopted, hbare, ?_⟩
    split at h
    next inner hm =>
      obtain rfl := Option.some.inj h
      exact .inr ⟨hm, inner, rfl⟩
    next =>
      exact .inl (Option.some.inj h).symm

/-- The result of a group around a group is the latter. -/
theorem eq_of_result?_eq_some {g inner : Nat} {r : Item} (h : a.result? g = some r)
    (hm : (a.draft g).members = [.group inner]) : r = .group inner := by
  unfold result? at h
  dsimp only at h
  rw [hm] at h
  split at h
  · exact absurd h (by simp)
  · exact (Option.some.inj h).symm

/-- A group that lies in no other, was not discarded and is no bare shadow has a result. -/
theorem result?_of_free {g : Nat} (hadopted : (a.draft g).adopted = false)
    (hdiscarded : (a.draft g).discarded = false) (hbare : (a.draft g).isBareShadow = false) :
    a.result? g = some (match (a.draft g).members with
      | [.group inner] => .group inner
      | _ => .group g) := by
  unfold result?
  dsimp only
  rw [hadopted, hdiscarded, hbare, Bool.or_self, Bool.or_self, if_neg Bool.false_ne_true]
  generalize (a.draft g).members = members
  rcases members with _ | ⟨_ | inner, _ | ⟨y, rest⟩⟩ <;> rfl

namespace Layer

/-- Only bare shadows are discarded. -/
theorem discarded_of_not_bare (h : Layer b done a) {g : Nat} (hg : b.size ≤ g)
    (hbare : (a.draft g).isBareShadow = false) : (a.draft g).discarded = false := by
  rw [Bool.eq_false_iff]
  intro hd
  exact absurd (hbare.symm.trans (h.discarded g hg hd)) Bool.false_ne_true

/-! ### Results are groups -/

theorem group_of_mem_results (h : Layer b done a) {r : Item} (hr : r ∈ a.results b.size) :
    ∃ g, r = .group g ∧ (.group g ∈ done ∨ b.size ≤ g) ∧ g < a.size := by
  obtain ⟨s, hs, hlt, hsr⟩ := mem_results.1 hr
  obtain ⟨_, _, rfl | ⟨hm, g, rfl⟩⟩ := result?_eq_some hsr
  · exact ⟨s, rfl, .inr hs, hlt⟩
  · rcases h.member s hs (.group g) (hm ▸ List.mem_singleton.2 rfl) with hd | ⟨k, hk, hbk, hks⟩
    · exact ⟨g, rfl, .inl hd, Nat.lt_of_lt_of_le (h.old_done _ hd g rfl) h.size_le⟩
    · obtain rfl := Item.group.inj hk
      exact ⟨g, rfl, .inr hbk, by omega⟩

theorem ranked (h : Layer b done a) (hb : b.Ranked) : a.Ranked := by
  intro g k hk
  by_cases hg : g < b.size
  · rw [h.old_members g hg] at hk
    exact hb g k hk
  · rcases h.member g (by omega) _ hk with hd | ⟨l, hl, _, hlg⟩
    · have hkb : k < b.size := h.old_done _ hd k rfl
      omega
    · have hkl : k = l := Item.group.inj hl
      omega

/-! ### Nothing gets lost -/

/-- What lies in a new group lies in the items or is a new group itself. -/
theorem within_of_inside (h : Layer b done a) {g : Nat} (hg : b.size ≤ g) {x : Item}
    (hx : a.Inside x g) : a.Within done x ∨ ∃ k, x = .group k ∧ b.size ≤ k := by
  induction hx with
  | @member g hx =>
    rcases h.member g hg x hx with hd | ⟨k, hk, hbk, _⟩
    · exact .inl (.inl hd)
    · exact .inr ⟨k, hk, hbk⟩
  | @inner g k hk hx ih =>
    rcases h.member g hg _ hk with hd | ⟨l, hl, hbl, _⟩
    · exact .inl (.inr ⟨k, hd, hx⟩)
    · exact ih (Item.group.inj hl ▸ hbl)

/-- Only items are members of bare shadows. -/
theorem not_bare_of_group_mem (h : Layer b done a) {g outer : Nat} (hg : b.size ≤ g)
    (houter : b.size ≤ outer) (hm : .group g ∈ (a.draft outer).members) :
    (a.draft outer).isBareShadow = false := by
  rw [Bool.eq_false_iff]
  intro hb
  exact absurd rfl ((h.old_done _ (h.bare outer houter hb _ hm)).ne_group hg)

/-- Around a new group that is no bare shadow there is one with a result. What goes over from a
member to the groups around it, goes over to that one. -/
theorem exists_result (h : Layer b done a) {S : Nat → Prop}
    (hup : ∀ g k, b.size ≤ k → .group g ∈ (a.draft k).members → S g → S k) {g : Nat}
    (hg : b.size ≤ g) (hlt : g < a.size) (hbare : (a.draft g).isBareShadow = false) (hS : S g) :
    ∃ k, b.size ≤ k ∧ k < a.size ∧ S k ∧ ∃ r, a.result? k = some r := by
  cases hadopted : (a.draft g).adopted with
  | true =>
    -- the group around it comes later, which is why this ends
    obtain ⟨outer, houter, hm⟩ := (h.adopted_iff g hg).1 hadopted
    have hout : g < outer := by
      rcases h.member outer houter _ hm with hd | ⟨k, hk, _, hko⟩
      · exact absurd rfl ((h.old_done _ hd).ne_group hg)
      · exact (Item.group.inj hk) ▸ hko
    have hobare := h.not_bare_of_group_mem hg houter hm
    exact h.exists_result hup houter (lt_size_of_mem hm) hobare (hup g outer houter hm hS)
  | false =>
    have hdiscarded := h.discarded_of_not_bare hg hbare
    exact ⟨g, hg, hlt, hS, _, result?_of_free hadopted hdiscarded hbare⟩
termination_by a.size - g

/-- Whatever lies in a new group that is no bare shadow lies in the results. -/
theorem within_results_of_inside (h : Layer b done a) {g : Nat} (hg : b.size ≤ g)
    (hbare : (a.draft g).isBareShadow = false) {x : Item} (hx : a.Inside x g) :
    a.Within (a.results b.size) x := by
  have hlt : g < a.size := by
    rcases hx with hx | ⟨hk, _⟩
    · exact lt_size_of_mem hx
    · exact lt_size_of_mem hk
  obtain ⟨k, hk, hklt, hin, r, hr⟩ :=
    h.exists_result (S := a.Inside x) (fun _ _ _ hm hx => .inner hm hx) hg hlt hbare hx
  have hmem : r ∈ a.results b.size := mem_results.2 ⟨k, hk, hklt, hr⟩
  obtain ⟨_, _, rfl | ⟨hm, inner, rfl⟩⟩ := result?_eq_some hr
  · exact .inr ⟨k, hmem, hin⟩
  · rcases inside_iff.1 hin with hx | ⟨l, hl, hx⟩
    · rw [hm, List.mem_singleton] at hx
      exact .inl (hx ▸ hmem)
    · rw [hm, List.mem_singleton] at hl
      exact .inr ⟨l, hl ▸ hmem, hx⟩

theorem within_results_of_within (h : Layer b done a) {x : Item} (hx : a.Within done x) :
    a.Within (a.results b.size) x := by
  rcases hx with hd | ⟨k, hd, hx⟩
  · obtain ⟨g, hg, hbare, hm⟩ := h.recorded _ hd
    exact h.within_results_of_inside hg hbare (.member hm)
  · obtain ⟨g, hg, hbare, hm⟩ := h.recorded _ hd
    exact h.within_results_of_inside hg hbare (.inner hm hx)

/-- What was there before lies in the results if and only if it lies in the items. -/
theorem within_results (h : Layer b done a) {x : Item} (hx : b.Holds x) :
    a.Within (a.results b.size) x ↔ a.Within done x := by
  refine ⟨?_, h.within_results_of_within⟩
  rintro (hr | ⟨g, hg, hin⟩)
  · obtain ⟨g, rfl, hd | hbg, _⟩ := h.group_of_mem_results hr
    · exact .inl hd
    · exact absurd rfl (hx.ne_group hbg)
  · obtain ⟨k, hk, hd | hbk, _⟩ := h.group_of_mem_results hg
    · exact .inr ⟨k, hd, Item.group.inj hk ▸ hin⟩
    · obtain rfl := Item.group.inj hk
      rcases h.within_of_inside hbk hin with hd | ⟨l, hl, hbl⟩
      · exact hd
      · exact absurd hl (hx.ne_group hbl)

/-! ### Nothing is left twice -/

theorem not_inside_of_free (h : Layer b done a) (hb : b.Ranked) {g : Nat} (hg : b.size ≤ g)
    (hadopted : (a.draft g).adopted = false) (k : Nat) : ¬ a.Inside (.group g) k := by
  intro hin
  obtain ⟨p, hp, _⟩ := hin.exists_parent
  by_cases hpb : b.size ≤ p
  · exact absurd (hadopted.symm.trans ((h.adopted_iff g hg).2 ⟨p, hpb, hp⟩)) Bool.false_ne_true
  · have hgp : g < p := h.ranked hb p g hp
    omega

theorem shadow_of_members {g : Nat} {r : Item} (hbare : (a.draft g).isBareShadow = false)
    (hm : (a.draft g).members = [r]) : (a.draft g).shadow = false := by
  rw [Bool.eq_false_iff] at hbare ⊢
  exact fun hs => hbare ((Draft.isBareShadow_iff _).2 ⟨hs, r, hm⟩)

/-- No two new groups have the same result. -/
theorem result?_inj (h : Layer b done a) {s t : Nat} (hs : b.size ≤ s) (ht : b.size ≤ t) {r : Item}
    (hsr : a.result? s = some r) (htr : a.result? t = some r) : s = t := by
  obtain ⟨hsadopted, hsbare, hself | ⟨hsm, _⟩⟩ := result?_eq_some hsr
  · obtain ⟨_, _, htself | ⟨htm, _⟩⟩ := result?_eq_some htr
    · exact Item.group.inj (hself.symm.trans htself)
    · have hst : .group s ∈ (a.draft t).members := by
        rw [htm, hself]
        exact List.mem_singleton_self _
      have hadopted := (h.adopted_iff s hs).2 ⟨t, ht, hst⟩
      exact absurd (hsadopted.symm.trans hadopted) Bool.false_ne_true
  · obtain ⟨htadopted, htbare, htself | ⟨htm, _⟩⟩ := result?_eq_some htr
    · have hts : .group t ∈ (a.draft s).members := by
        rw [hsm, htself]
        exact List.mem_singleton_self _
      have hadopted := (h.adopted_iff t ht).2 ⟨s, hs, hts⟩
      exact absurd (htadopted.symm.trans hadopted) Bool.false_ne_true
    · exact h.single t r ht (shadow_of_members htbare htm) htm s hs
        (hsm ▸ List.mem_singleton_self _)

theorem nodup_results (h : Layer b done a) : (a.results b.size).Nodup := by
  have hplaces : (List.range' b.size (a.size - b.size)).Nodup := List.nodup_range'
  refine List.pairwise_filterMap.2 (List.Pairwise.imp_of_mem ?_ hplaces)
  rintro s t hs ht hne r hsr _ htr rfl
  exact hne (h.result?_inj (List.mem_range'_1.1 hs).1 (List.mem_range'_1.1 ht).1 hsr htr)

/-- If none of the items lies in another, none of the results does. -/
theorem not_inside_results (h : Layer b done a) (hb : b.Ranked)
    (hapart : ∀ g k, .group g ∈ done → .group k ∈ done → ¬ a.Inside (.group g) k) {g k : Nat}
    (hg : .group g ∈ a.results b.size) (hk : .group k ∈ a.results b.size) :
    ¬ a.Inside (.group g) k := by
  intro hin
  obtain ⟨s, hs, _, hsr⟩ := mem_results.1 hg
  obtain ⟨hadopted, hbare, hself | ⟨hm, _⟩⟩ := result?_eq_some hsr
  · obtain rfl := Item.group.inj hself
    exact h.not_inside_of_free hb hs hadopted k hin
  · have hshadow := shadow_of_members hbare hm
    obtain ⟨p, hp, hpk⟩ := hin.exists_parent
    by_cases hpb : b.size ≤ p
    · obtain rfl : p = s := h.single s _ hs hshadow hm p hpb hp
      rcases hpk with rfl | hpk
      · obtain ⟨t, ht, _, htr⟩ := mem_results.1 hk
        obtain ⟨_, _, htself | ⟨htm, _⟩⟩ := result?_eq_some htr
        · obtain rfl := Item.group.inj htself
          have hgp : g = p := Item.group.inj (Option.some.inj (hsr.symm.trans htr))
          have hlt : g < p := h.ranked hb p g hp
          omega
        · have hpt : a.Inside (.group p) t := .member (htm ▸ List.mem_singleton_self _)
          exact h.not_inside_of_free hb hs hadopted t hpt
      · exact h.not_inside_of_free hb hs hadopted k hpk
    · have hgd : .group g ∈ done := by
        rcases h.member s hs (.group g) (hm ▸ List.mem_singleton_self _) with hd | ⟨l, hl, hbl, _⟩
        · exact hd
        · have hlt : g < p := h.ranked hb p g hp
          have hgl : g = l := Item.group.inj hl
          omega
      obtain ⟨k', hk', hkd | hbk, _⟩ := h.group_of_mem_results hk
      · obtain rfl := Item.group.inj hk'
        exact hapart g k hgd hkd hin
      · obtain rfl := Item.group.inj hk'
        rcases hpk with rfl | hpk
        · exact hpb hbk
        · rcases h.within_of_inside hbk hpk with (hpd | ⟨q, hqd, hpq⟩) | ⟨l, hl, hbl⟩
          · exact hapart g p hgd hpd (.member hp)
          · exact hapart g q hgd hqd (hpq.trans (.member hp))
          · exact hpb (Item.group.inj hl ▸ hbl)

end Layer

end Outlier.Arena
