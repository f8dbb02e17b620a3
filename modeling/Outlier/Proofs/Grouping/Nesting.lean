import Outlier.Proofs.Grouping.Links
import Outlier.Proofs.Grouping.Refinement

/-! # What a conjunctive merge leaves

The conjunctive merge leaves one result for each link of its items that is not bare, in their order.
The group that was opened last is that of the last link. It takes in the record that closes the
link; until then, each item that is enclosed gets a new group around it and what is there so far
(`Nests`). What the sweep does after a link is closed leaves the groups of the link as they are
(`Linked`). -/

namespace Outlier.Arena

variable {a a' b : Arena} {done done' es outer : List Item} {x lead r : Item} {role : Role}
  {g n : Nat} {k last : Link} {ks earlier : List Link}

/-! ### Nested groups -/

/-- A group in a new group is an earlier one. -/
theorem Layer.lt_of_group_mem (h : Layer b done a) (hg : b.size ≤ g)
    (hn : .group n ∈ (a.draft g).members) : n < g :=
  Nat.lt_of_not_le fun hle => h.member_ne hg hle hn rfl

/-- In a merge that began in `b` and has come to `a`, the items `outer` are the members of the
outermost group around the lead of a link and the items that it encloses. Each of these comes before
the group that was there when it came; a record alone has no such group, and comes itself. -/
inductive Nests (b a : Arena) (lead : Item) (role : Role) : List Item → List Item → Prop where
  | lead : Nests b a lead role [] [lead]
  | record (e : Item) (h : role = .record) : Nests b a lead role [e] [e, lead]
  | group (e : Item) {g : Nat} {es outer : List Item} (h : Nests b a lead role es outer)
      (hes : role = .record → es ≠ []) (hg : b.size ≤ g) (hm : (a.draft g).members = outer) :
      Nests b a lead role (es ++ [e]) [e, .group g]

namespace Nests

theorem eq_singleton (h : Nests b a lead role es outer) (hes : es = []) : outer = [lead] := by
  cases h with
  | lead => rfl
  | record => cases hes
  | group => exact absurd hes (List.append_ne_nil_of_right_ne_nil _ (List.cons_ne_nil _ _))

theorem takes_iff (h : Nests b a lead role es outer) (hlead : b.Holds lead)
    (hes : ∀ e ∈ es, b.Holds e) : (∃ y ∈ outer, Takes b a x y) ↔ x ∈ lead :: es := by
  induction h with
  | lead => simp [takes_of_holds hlead]
  | record e =>
    have he : b.Holds e := hes e (List.mem_singleton_self e)
    simp [takes_of_holds hlead, takes_of_holds he, or_comm]
  | @group e g es outer _ _ hg hm ih =>
    obtain ⟨hes, he⟩ := List.forall_mem_append.1 hes
    have he : b.Holds e := he e (List.mem_singleton_self e)
    calc (∃ y ∈ [e, .group g], Takes b a x y)
      _ ↔ x = e ∨ ∃ y ∈ outer, Takes b a x y := by simp [takes_of_holds he, takes_group hg, hm]
      _ ↔ x = e ∨ x ∈ lead :: es := by rw [ih hes]
      _ ↔ x ∈ lead :: (es ++ [e]) := by
        simp only [List.mem_cons, List.mem_append, List.not_mem_nil, or_false]
        grind

theorem congr (h : Nests b a lead role es outer)
    (hm : ∀ g, (a'.draft g).members = (a.draft g).members) : Nests b a' lead role es outer := by
  induction h with
  | lead => exact .lead
  | record e h => exact .record e h
  | group e _ hes hg hmembers ih => exact .group e ih hes hg ((hm _).trans hmembers)

theorem congr_of_lt (h : Nests b a lead role es outer) (hlayer : Layer b done a)
    (houter : ∀ k, .group k ∈ outer → k < n)
    (hsame : ∀ k, b.size ≤ k → k < n → a'.draft k = a.draft k) :
    Nests b a' lead role es outer := by
  induction h with
  | lead => exact .lead
  | record e h => exact .record e h
  | @group e g es outer _ hes hg hm ih =>
    have hlt : g < n := houter g (by simp)
    refine .group e (ih fun k hk => ?_) hes hg (by rw [hsame g hg hlt, hm])
    have hkg : k < g := hlayer.lt_of_group_mem hg (hm ▸ hk)
    omega

end Nests

/-- The group is the outermost one of the link. -/
structure Link.Makes (k : Link) (b a : Arena) (g : Nat) : Prop where
  size_le : b.size ≤ g
  nested : ∃ outer, Nests b a k.lead k.role k.enclosed outer ∧
    (a.draft g).members = outer ++ k.closing.toList

namespace Link.Makes

theorem congr_of_lt (h : k.Makes b a g) (hlayer : Layer b done a)
    (hsame : ∀ n, b.size ≤ n → n ≤ g → a'.draft n = a.draft n) : k.Makes b a' g := by
  obtain ⟨outer, hnests, hmembers⟩ := h.nested
  refine ⟨h.size_le, outer, hnests.congr_of_lt (n := g + 1) hlayer (fun k hk => ?_) ?_, ?_⟩
  · have hmem : .group k ∈ (a.draft g).members := hmembers ▸ List.mem_append_left _ hk
    exact Nat.lt_succ_of_lt (hlayer.lt_of_group_mem h.size_le hmem)
  · exact fun n hn hlt => hsame n hn (Nat.le_of_lt_succ hlt)
  · rw [hsame g h.size_le (Nat.le_refl g), hmembers]

end Link.Makes

/-! ### Groups that are left alone -/

/-- Nothing is left of a group that lies in another, was discarded or is a bare shadow. -/
theorem result?_eq_none (h : (a.draft n).adopted = true ∨ (a.draft n).discarded = true ∨
    (a.draft n).isBareShadow = true) : a.result? n = none := by
  unfold result?
  rw [← or_assoc, ← Bool.or_eq_true, ← Bool.or_eq_true] at h
  exact if_pos h

theorem draft_openGroup_other (a : Arena) (hn : n ≠ a.size) (hx : x ≠ .group n) (shadow : Bool) :
    (a.openGroup x shadow).draft n = a.draft n := by
  rw [draft_openGroup_eq a hn, adopted_openGroup_of_ne a hx]

theorem draft_takeIn_other (a : Arena) (hlt : n < a.size) (hn : n ≠ g) (hx : x ≠ .group n)
    (s : Span) : (a.takeIn g x s).draft n = a.draft n := by
  have hadopted : ((a.takeIn g x s).draft n).adopted = (a.draft n).adopted :=
    Bool.eq_iff_iff.2 ((a.adopted_takeIn g x s hlt).trans (or_iff_left hx))
  rw [draft_takeIn_of_ne a hn, hadopted]

/-- The groups before `g` are what is left for the links, apart from the bare ones. -/
def Settled (b a : Arena) (g : Nat) (ks : List Link) : Prop :=
  List.Forall₂ (fun k r => ∃ n < g, a.result? n = some r ∧ k.Makes b a n)
    (ks.filter (!·.isBare)) ((List.range' b.size (g - b.size)).filterMap a.result?)

namespace Settled

theorem start : Settled b b b.size [] := by
  unfold Settled
  rw [Nat.sub_self]
  exact .nil

theorem congr (h : Settled b a g ks) (hlayer : Layer b done a)
    (hsame : ∀ n, b.size ≤ n → n < g → a'.draft n = a.draft n) : Settled b a' g ks := by
  have hresults : (List.range' b.size (g - b.size)).filterMap a'.result? =
      (List.range' b.size (g - b.size)).filterMap a.result? := by
    refine List.filterMap_congr fun n hn => result?_congr ?_
    rw [List.mem_range'_1] at hn
    exact hsame n (by omega) (by omega)
  unfold Settled
  rw [hresults]
  refine h.imp fun k r ⟨n, hlt, hr, hmakes⟩ => ⟨n, hlt, ?_, ?_⟩
  · rw [result?_congr (hsame n hmakes.size_le hlt), hr]
  · exact hmakes.congr_of_lt hlayer fun j hj hle => hsame j hj (Nat.lt_of_le_of_lt hle hlt)

/-- A group without a result is left out. -/
theorem skip (h : Settled b a g ks) (hg : b.size ≤ g) (hr : a.result? g = none) :
    Settled b a (g + 1) ks := by
  have hresults : (List.range' b.size (g + 1 - b.size)).filterMap a.result? =
      (List.range' b.size (g - b.size)).filterMap a.result? := by
    simp [range'_sub_succ hg, hr]
  unfold Settled
  rw [hresults]
  exact h.imp fun k r ⟨n, hlt, hn⟩ => ⟨n, Nat.lt_succ_of_lt hlt, hn⟩

theorem add (h : Settled b a g ks) (hr : a.result? g = some r) (hbare : k.isBare = false)
    (hk : k.Makes b a g) : Settled b a (g + 1) (ks ++ [k]) := by
  have hresults : (List.range' b.size (g + 1 - b.size)).filterMap a.result? =
      (List.range' b.size (g - b.size)).filterMap a.result? ++ [r] := by
    simp [range'_sub_succ hk.size_le, hr]
  have hlinks : (ks ++ [k]).filter (!·.isBare) = ks.filter (!·.isBare) ++ [k] := by
    simp [hbare]
  unfold Settled
  rw [hresults, hlinks]
  refine List.rel_append (h.imp fun k r ⟨n, hlt, hn⟩ => ⟨n, Nat.lt_succ_of_lt hlt, hn⟩) ?_
  exact .cons ⟨g, Nat.lt_succ_self g, hr, hk⟩ .nil

/-- A free group is left for its link, if that is not bare. -/
theorem settle (h : Settled b a g ks) (hfree : Free b a g) (hk : k.Makes b a g)
    (hbare : (a.draft g).isBareShadow = k.isBare) : Settled b a (g + 1) (ks ++ [k]) := by
  cases hb : k.isBare with
  | false => exact h.add (result?_of_free hfree.adopted hfree.discarded (hbare.trans hb)) hb hk
  | true =>
    have hlinks : (ks ++ [k]).filter (!·.isBare) = ks.filter (!·.isBare) := by simp [hb]
    unfold Settled
    rw [hlinks]
    exact h.skip hk.size_le (result?_eq_none (.inr (.inr (hbare.trans hb))))

end Settled

/-! ### A group around the next item -/

theorem Layer.close_cases (h : Layer b done a) (hfree : Free b a g) :
    (a.close g).2 = .group g ∨ (a.close g).2 ∈ done := by
  unfold Arena.close
  split
  next hbare =>
    obtain ⟨_, y, hy⟩ := (Draft.isBareShadow_iff _).1 hbare
    rw [hy]
    exact .inr (h.bare g hfree.size_le hbare y (hy ▸ List.mem_singleton_self y))
  next => exact .inl rfl

section

variable (a : Arena) (g : Nat) (x : Item) (below : List Nat)

theorem exists_arena_enclose :
    ∃ s, (Sweep.enclose ⟨a, g :: below⟩ g below x).arena =
      ((a.close g).1.openGroup x false).takeIn a.size (a.close g).2 s := by
  unfold Sweep.enclose
  dsimp only
  rw [widen_adopt, size_close]
  exact ⟨_, rfl⟩

theorem size_enclose : (Sweep.enclose ⟨a, g :: below⟩ g below x).arena.size = a.size + 1 := by
  obtain ⟨s, henclose⟩ := exists_arena_enclose a g x below
  rw [henclose, size_takeIn, size_openGroup, size_close]

theorem draft_enclose_size :
    ((Sweep.enclose ⟨a, g :: below⟩ g below x).arena.draft a.size).members =
        [x, (a.close g).2] ∧
      ((Sweep.enclose ⟨a, g :: below⟩ g below x).arena.draft a.size).shadow = false := by
  obtain ⟨s, henclose⟩ := exists_arena_enclose a g x below
  have hnew := (a.close g).1.draft_openGroup x false
  have hopened : a.size < ((a.close g).1.openGroup x false).size := by
    rw [size_openGroup, size_close]
    exact Nat.lt_succ_self _
  rw [size_close] at hnew
  rw [henclose, draft_takeIn_self _ hopened, hnew]
  exact ⟨rfl, rfl⟩

variable {a g x}

/-- The earlier groups change by their marks alone. -/
theorem draft_enclose_of_lt (hn : n < a.size) :
    (Sweep.enclose ⟨a, g :: below⟩ g below x).arena.draft n =
      { (a.close g).1.draft n with
        adopted := ((Sweep.enclose ⟨a, g :: below⟩ g below x).arena.draft n).adopted } := by
  obtain ⟨s, henclose⟩ := exists_arena_enclose a g x below
  have hne : n ≠ (a.close g).1.size := by
    rw [size_close]
    exact Nat.ne_of_lt hn
  rw [henclose, draft_takeIn_of_ne _ (Nat.ne_of_lt hn), draft_openGroup_eq _ hne]

theorem members_enclose (hn : n < a.size) :
    ((Sweep.enclose ⟨a, g :: below⟩ g below x).arena.draft n).members = (a.draft n).members := by
  rw [draft_enclose_of_lt below hn]
  exact a.members_close g n

theorem draft_enclose_other (hn : n < a.size) (hng : n ≠ g) (hx : x ≠ .group n)
    (hinner : (a.close g).2 ≠ .group n) :
    (Sweep.enclose ⟨a, g :: below⟩ g below x).arena.draft n = a.draft n := by
  obtain ⟨s, henclose⟩ := exists_arena_enclose a g x below
  have hne : n ≠ (a.close g).1.size := by
    rw [size_close]
    exact Nat.ne_of_lt hn
  have hopened : n < ((a.close g).1.openGroup x false).size := by
    rw [size_openGroup, size_close]
    exact Nat.lt_succ_of_lt hn
  rw [henclose, draft_takeIn_other _ hopened (Nat.ne_of_lt hn) hinner,
    draft_openGroup_other _ hne hx, draft_close_other a hng]

theorem Layer.draft_enclose (h : Layer b done a) (hfree : Free b a g) (hx : b.Holds x)
    (hn : b.size ≤ n) (hng : n < g) :
    (Sweep.enclose ⟨a, g :: below⟩ g below x).arena.draft n = a.draft n := by
  refine draft_enclose_other below (Nat.lt_trans hng hfree.lt_size) (Nat.ne_of_lt hng)
    (hx.ne_group hn) ?_
  rcases h.close_cases hfree with hinner | hinner
  · rw [hinner]
    exact fun he => Nat.ne_of_lt hng (Item.group.inj he).symm
  · exact (h.old_done _ hinner).ne_group hn

theorem result?_enclose (hlayer : Layer b done (Sweep.enclose ⟨a, g :: below⟩ g below x).arena)
    (hfree : Free b a g) :
    (Sweep.enclose ⟨a, g :: below⟩ g below x).arena.result? g = none := by
  by_cases hbare : (a.draft g).isBareShadow = true
  · refine result?_eq_none (.inr (.inl ?_))
    rw [draft_enclose_of_lt below hfree.lt_size]
    unfold close
    rw [if_pos hbare, draft_update, if_pos ⟨rfl, hfree.lt_size⟩]
  · have hinner : (a.close g).2 = .group g := by
      unfold close
      rw [if_neg hbare]
    refine result?_eq_none (.inl ((hlayer.adopted_iff g hfree.size_le).2 ⟨a.size, ?_, ?_⟩))
    · exact Nat.le_trans hfree.size_le (Nat.le_of_lt hfree.lt_size)
    · rw [(a.draft_enclose_size g x below).1, hinner]
      exact List.mem_cons_of_mem _ (List.mem_singleton_self _)

end

/-! ### The sweep -/

/-- What holds of a conjunctive sweep that has taken the items `done` and come to `a`, where the
group `g` was opened last: it is that of the last link, and the groups before it are settled. -/
structure Linked (b : Arena) (done : List Item) (a : Arena) (g : Nat) (earlier : List Link)
    (last : Link) : Prop where
  links : linksOf (b.roles none done) = earlier ++ [last]
  /-- The group ends where the run does. -/
  reach : done.foldl b.nextReach none = some (a.draft g).span.stop
  size_eq : a.size = g + 1
  head : last.Makes b a g
  unclosed : last.closing = none
  /-- The group is a shadow as long as it has a record alone. -/
  shadow : (a.draft g).shadow = true ↔ last.role = .record ∧ last.enclosed = []
  settled : Settled b a g earlier

namespace Linked

theorem nests (h : Linked b done a g earlier last) :
    Nests b a last.lead last.role last.enclosed (a.draft g).members := by
  obtain ⟨outer, hnests, hmembers⟩ := h.head.nested
  rw [hmembers, h.unclosed, Option.toList_none, List.append_nil]
  exact hnests

theorem isBareShadow_eq (h : Linked b done a g earlier last) :
    (a.draft g).isBareShadow = last.isBare := by
  rw [Bool.eq_iff_iff, Draft.isBareShadow_iff, Link.isBare_iff, h.shadow]
  constructor
  · rintro ⟨hrecord, _⟩
    exact ⟨hrecord, h.unclosed⟩
  · rintro ⟨hrecord, _⟩
    exact ⟨hrecord, last.lead, h.nests.eq_singleton hrecord.2⟩

theorem settle (h : Linked b done a g earlier last) (hfree : Free b a g) :
    Settled b a a.size (linksOf (b.roles none done)) := by
  rw [h.links, h.size_eq]
  exact h.settled.settle hfree h.head h.isBareShadow_eq

/-- An item that is not enclosed opens a group, once the groups that are there are settled. -/
theorem opened (hlayer : Layer b done' a) (hx : b.Holds x) {shadow : Bool}
    (hlinks : linksOf (b.roles none done) = ks ++ [⟨x, role, [], none⟩])
    (hreach : done.foldl b.nextReach none = some (a.span x).stop)
    (hshadow : shadow = true ↔ role = .record) (h : Settled b a a.size ks) :
    Linked b done (a.openGroup x shadow) a.size ks ⟨x, role, [], none⟩ where
  links := hlinks
  reach := by rw [hreach, draft_openGroup]
  size_eq := size_openGroup ..
  head := by
    refine ⟨hlayer.size_le, [x], .lead, ?_⟩
    rw [draft_openGroup]
    rfl
  unclosed := rfl
  shadow := by
    rw [draft_openGroup]
    exact hshadow.trans (and_iff_left rfl).symm
  settled := h.congr hlayer fun n hn hlt =>
    draft_openGroup_other a (Nat.ne_of_lt hlt) (hx.ne_group hn) shadow

section

variable (h : Linked b done a g earlier last) (hlayer : Layer b done a) (hfree : Free b a g)
  (hx : Next b done x)

include h

theorem role_eq : b.role (done.foldl b.nextReach none) x =
    if (a.draft g).span.stop < (b.span x).start then .opening
    else if (a.draft g).span.stop < (b.span x).stop then .record
    else .enclosed := by
  rw [h.reach]
  rfl

theorem links_concat (hrole : b.role (done.foldl b.nextReach none) x = role) :
    linksOf (b.roles none (done ++ [x])) =
      earlier ++ last.follow (x, role) :: linksOf [(x, role)] := by
  rw [roles_concat, hrole]
  exact linksOf_concat h.links (x, role)

include hlayer hx hfree

/-- An item that starts after the head ends. -/
theorem breakOff (hlate : (a.draft g).span.stop < (a.span x).start) :
    Linked b (done ++ [x]) (a.openGroup x false) a.size (earlier ++ [last])
      ⟨x, .opening, [], none⟩ := by
  have hspan : a.span x = b.span x := hlayer.span_eq hx.holds
  have hrole : b.role (done.foldl b.nextReach none) x = .opening := by
    rw [h.role_eq, if_pos (hspan ▸ hlate)]
  refine opened hlayer hx.holds ?_ ?_ (by simp) ?_
  · rw [h.links_concat hrole, List.append_assoc]
    rfl
  · rw [List.foldl_append, List.foldl_cons, List.foldl_nil, nextReach, hrole, hspan]
  · rw [h.size_eq]
    exact h.settled.settle hfree h.head h.isBareShadow_eq

omit hfree hx in
/-- The groups of the last link are as they were when only later ones have changed. -/
theorem nests_congr (hsame : ∀ n, b.size ≤ n → n < g → a'.draft n = a.draft n) :
    Nests b a' last.lead last.role last.enclosed (a.draft g).members :=
  h.nests.congr_of_lt hlayer (fun _ hk => hlayer.lt_of_group_mem h.head.size_le hk) hsame

/-- An item that ends after the head. -/
theorem extend (hmeets : ¬ (a.draft g).span.stop < (a.span x).start)
    (hlonger : (a.draft g).span.stop < (a.span x).stop) :
    Linked b (done ++ [x])
      ((a.takeIn g x ((a.draft g).span.hull (a.span x))).openGroup x true)
      (a.takeIn g x ((a.draft g).span.hull (a.span x))).size
      (earlier ++ [{ last with closing := some x }]) ⟨x, .record, [], none⟩ := by
  have hg := hfree.size_le
  have hspan : a.span x = b.span x := hlayer.span_eq hx.holds
  have hrole : b.role (done.foldl b.nextReach none) x = .record := by
    rw [h.role_eq, if_neg (hspan ▸ hmeets), if_pos (hspan ▸ hlonger)]
  have hjoin := hlayer.joinNext hfree hx.holds hx.new
  have hsame : ∀ n, b.size ≤ n → n < g →
      (a.takeIn g x ((a.draft g).span.hull (a.span x))).draft n = a.draft n := by
    intro n hn hlt
    exact draft_takeIn_other a (Nat.lt_trans hlt hfree.lt_size) (Nat.ne_of_lt hlt)
      (hx.holds.ne_group hn) _
  refine opened hjoin hx.holds ?_ ?_ (by simp) ?_
  · rw [h.links_concat hrole, List.append_assoc]
    rfl
  · rw [List.foldl_append, List.foldl_cons, List.foldl_nil, nextReach, hrole,
      span_takeIn _ (hx.holds.ne_group hg), hspan]
  · have hmakes : Link.Makes { last with closing := some x } b
        (a.takeIn g x ((a.draft g).span.hull (a.span x))) g := by
      refine ⟨hg, (a.draft g).members, h.nests_congr hlayer hsame, ?_⟩
      rw [draft_takeIn_self a hfree.lt_size]
      rfl
    rw [size_takeIn, h.size_eq]
    refine (h.settled.congr hlayer hsame).settle (hfree.takeIn (hx.holds.ne_group hg) _) hmakes ?_
    rw [hlayer.isBareShadow_takeIn hfree]
    simp [Link.isBare]

/-- The new group is the outermost one around the item and what was enclosed before. -/
theorem nests_enclose (below : List Nat) :
    Nests b (Sweep.enclose ⟨a, g :: below⟩ g below x).arena last.lead last.role
      (last.enclosed ++ [x]) [x, (a.close g).2] := by
  have hnests : Nests b (Sweep.enclose ⟨a, g :: below⟩ g below x).arena last.lead last.role
      last.enclosed (a.draft g).members :=
    h.nests_congr hlayer fun n hn hng => hlayer.draft_enclose below hfree hx.holds hn hng
  unfold close
  by_cases hbare : (a.draft g).isBareShadow = true
  · obtain ⟨hrecord, henclosed⟩ := (Link.isBare_iff.1 (h.isBareShadow_eq ▸ hbare)).1
    rw [if_pos hbare, h.nests.eq_singleton henclosed, henclosed]
    exact .record x hrecord
  · rw [if_neg hbare]
    refine .group x hnests (fun hrecord henclosed => hbare ?_) hfree.size_le
      (members_enclose below hfree.lt_size)
    rw [h.isBareShadow_eq]
    exact Link.isBare_iff.2 ⟨⟨hrecord, henclosed⟩, h.unclosed⟩

/-- An item that lies inside the reach of the head. -/
theorem enclose (hmeets : ¬ (a.draft g).span.stop < (a.span x).start)
    (hshorter : ¬ (a.draft g).span.stop < (a.span x).stop) (below : List Nat)
    (hnext : Layer b (done ++ [x]) (Sweep.enclose ⟨a, g :: below⟩ g below x).arena) :
    Linked b (done ++ [x]) (Sweep.enclose ⟨a, g :: below⟩ g below x).arena a.size earlier
      { last with enclosed := last.enclosed ++ [x] } := by
  have hg := hfree.size_le
  have hlt := hfree.lt_size
  have hspan : a.span x = b.span x := hlayer.span_eq hx.holds
  have hrole : b.role (done.foldl b.nextReach none) x = .enclosed := by
    rw [h.role_eq, if_neg (hspan ▸ hmeets), if_neg (hspan ▸ hshorter)]
  have hsize : (a.close g).1.size = a.size := size_close ..
  obtain ⟨hmembers, hshadow⟩ := a.draft_enclose_size g x below
  have hnests := h.nests_enclose hlayer hfree hx below
  exact {
    links := by
      rw [h.links_concat hrole]
      rfl
    reach := by
      have hstop := hlayer.stop_enclose hfree x below
      rw [hsize, Std.max_eq_if, if_pos (Std.not_lt.1 hshorter)] at hstop
      rw [hstop, List.foldl_append, List.foldl_cons, List.foldl_nil, nextReach, hrole, h.reach]
    size_eq := size_enclose a g x below
    head := ⟨Nat.le_trans hg (Nat.le_of_lt hlt), _, hnests, by simp [hmembers, h.unclosed]⟩
    unclosed := h.unclosed
    shadow := by simp [hshadow]
    settled := by
      have hsettled := h.settled.congr hlayer fun n hn hng =>
        hlayer.draft_enclose below hfree hx.holds hn hng
      rw [h.size_eq]
      exact hsettled.skip hg (result?_enclose below hnext hfree) }

end

end Linked

/-- What holds of a conjunctive sweep link by link: it has taken the items `done`, has come to `a`
and looks at the group `current`. -/
inductive ByLink (b : Arena) :
    (done : List Item) → (a : Arena) → (current : Option Nat) → Prop where
  | idle : ByLink b [] b none
  | busy {done : List Item} {a : Arena} {g : Nat} {earlier : List Link} {last : Link}
      (h : Linked b done a g earlier last) : ByLink b done a (some g)

theorem ByLink.settled {current : Option Nat} (h : ByLink b done a current)
    (hfree : ∀ g ∈ current, Free b a g) : Settled b a a.size (linksOf (b.roles none done)) := by
  cases h with
  | idle => exact .start
  | busy h => exact h.settle (hfree _ rfl)

theorem Sweep.byLink_step {s : Sweep} (hsound : s.Sound b done)
    (h : ByLink b done s.arena s.heads.head?) (hx : Next b done x) :
    ByLink b (done ++ [x]) (s.step x).arena (s.step x).heads.head? := by
  have hnext := (hsound.step hx).layer
  obtain ⟨a, heads⟩ := s
  cases heads with
  | nil =>
    cases h
    have hfirst : Linked a [x] (a.openGroup x false) a.size [] ⟨x, .opening, [], none⟩ :=
      .opened hsound.layer hx.holds rfl rfl (by simp) .start
    exact .busy hfirst
  | cons head below =>
    obtain _ | h := h
    have hfree : Free b a head := hsound.head head rfl
    rw [step_cons rfl] at hnext ⊢
    split at hnext
    next hlate =>
      rw [if_pos hlate]
      exact .busy (h.breakOff hsound.layer hfree hx hlate)
    next hmeets =>
      rw [if_neg hmeets]
      split at hnext
      next hlonger =>
        rw [if_pos hlonger, extend_eq (hsound.layer.start_le_next hx hfree) hlonger]
        exact .busy (h.extend hsound.layer hfree hx hmeets hlonger)
      next hshorter =>
        rw [if_neg hshorter]
        have hsize : (a.close head).1.size = a.size := size_close ..
        have henclose := h.enclose hsound.layer hfree hx hmeets hshorter below hnext
        rw [← hsize] at henclose
        exact .busy henclose

/-- When the conjunctive sweep has ended, what is left are the groups of the links. -/
theorem settled_andSweep (a : Arena) {items : List Item} (hitems : ∀ y ∈ items, a.Holds y) :
    Settled a ((a.sorted items).foldl Sweep.step ⟨a, []⟩).arena
      ((a.sorted items).foldl Sweep.step ⟨a, []⟩).arena.size (a.links items) := by
  have h := foldl_sound (s := ⟨a, []⟩)
    (P := fun done (s : Sweep) => s.Sound a done ∧ ByLink a done s.arena s.heads.head?)
    (fun _ _ _ hs hx => ⟨hs.1.step hx, Sweep.byLink_step hs.1 hs.2 hx⟩) hitems
    ⟨⟨.start a, fun _ hg => absurd hg (by simp)⟩, .idle⟩
  exact h.2.settled h.1.head

/-! ### The conjunctive merge -/

theorem mem_items : x ∈ k.items ↔ x ∈ k.lead :: k.enclosed ∨ x ∈ k.closing.toList :=
  List.mem_append

namespace Link.Makes

theorem congr (h : k.Makes b a g) (hm : ∀ n, (a'.draft n).members = (a.draft n).members) :
    k.Makes b a' g := by
  obtain ⟨outer, hnests, hmembers⟩ := h.nested
  exact ⟨h.size_le, outer, hnests.congr hm, (hm g).trans hmembers⟩

theorem takes_iff (h : k.Makes b a g) (hk : ∀ x ∈ k.items, b.Holds x) :
    Takes b a x (.group g) ↔ x ∈ k.items := by
  obtain ⟨hown, hclosing⟩ := List.forall_mem_append.1 hk
  obtain ⟨hlead, henclosed⟩ := List.forall_mem_cons.1 hown
  obtain ⟨outer, hnests, hmembers⟩ := h.nested
  have hlast : (∃ y ∈ k.closing.toList, Takes b a x y) ↔ x ∈ k.closing.toList := by
    constructor
    · rintro ⟨y, hy, hx⟩
      rwa [(takes_of_holds (hclosing y hy)).1 hx]
    · exact fun hx => ⟨x, hx, .self (hclosing x hx)⟩
  rw [takes_group h.size_le, hmembers, mem_items, ← hnests.takes_iff hlead henclosed, ← hlast]
  simp only [List.mem_append, or_and_right, exists_or]

end Link.Makes

theorem takes_result (hg : b.size ≤ g) (hr : a.result? g = some r) :
    Takes b a x r ↔ Takes b a x (.group g) := by
  obtain ⟨_, _, rfl | ⟨hm, _⟩⟩ := result?_eq_some hr
  · exact Iff.rfl
  · simp [takes_group hg, hm]

/-- The conjunctive merge of items of the arena `a`, which has come to `c`, leaves the result `r`
for the link. -/
structure Link.Leaves (k : Link) (a c : Arena) (r : Item) : Prop where
  /-- The merge has made a group for the link, and leaves it, or the only member when that is a
  group. -/
  group : ∃ g, k.Makes a c g ∧
    r = match (c.draft g).members with | [.group inner] => .group inner | _ => .group g
  takes_iff : ∀ x, Takes a c x r ↔ x ∈ k.items
  hull : (c.span r).IsHull fun s => ∃ x ∈ k.items, a.span x = s

/-- A group of the sweep with a result leaves that for its link, also after the results have been
marked as free. -/
theorem Link.Makes.leaves {c : Arena} (h : k.Makes a c g) (hlayer : Layer a done c)
    (hk : ∀ x ∈ k.items, a.Holds x) (hlt : g < c.size) (hr : c.result? g = some r)
    (items : List Item) : k.Leaves a (items.foldl markFree c) r := by
  have hmembers := members_foldl_markFree items c
  have htakes : ∀ x, Takes a c x r ↔ x ∈ k.items := fun x =>
    (takes_result h.size_le hr).trans (h.takes_iff hk)
  refine ⟨⟨g, h.congr hmembers, ?_⟩, fun x => ?_, ?_⟩
  · obtain ⟨hadopted, hbare, _⟩ := result?_eq_some hr
    have hdiscarded := hlayer.discarded_of_not_bare h.size_le hbare
    rw [result?_of_free hadopted hdiscarded hbare] at hr
    rw [hmembers]
    exact (Option.some.inj hr).symm
  · rw [← htakes]
    exact ⟨(·.congr fun n => (hmembers n).symm), (·.congr hmembers)⟩
  · rw [span_foldl_markFree]
    refine (hlayer.isHull_result (mem_results.2 ⟨g, h.size_le, hlt, hr⟩)).congr fun s => ?_
    simp only [htakes]

/-- A link with what is left of it. -/
structure Piece where
  link : Link
  result : Item

theorem exists_pieces_of_forall₂ {R : Link → Item → Prop} {rs : List Item}
    (h : List.Forall₂ R ks rs) :
    ∃ pieces : List Piece,
      pieces.map Piece.link = ks ∧ pieces.map Piece.result = rs ∧
        ∀ p ∈ pieces, R p.link p.result := by
  induction h with
  | nil => exact ⟨[], rfl, rfl, nofun⟩
  | @cons k r _ _ hr _ ih =>
    obtain ⟨pieces, rfl, rfl, hpieces⟩ := ih
    exact ⟨⟨k, r⟩ :: pieces, rfl, rfl, List.forall_mem_cons.2 ⟨hr, hpieces⟩⟩

/-- The conjunctive merge leaves one result for each link that is not bare. -/
theorem exists_pieces (a : Arena) {left right : List Item}
    (hitems : ∀ x ∈ left ++ right, a.Holds x) :
    ∃ pieces : List Piece,
      pieces.map Piece.link = (a.links (left ++ right)).filter (!·.isBare) ∧
      pieces.map Piece.result = (a.andMerge left right).2 ∧
      ∀ p ∈ pieces, p.link.Leaves a (a.andMerge left right).1 p.result := by
  have hlayer := layer_andSweep a hitems
  obtain ⟨pieces, hlinks, hresults, hpieces⟩ :=
    exists_pieces_of_forall₂ (settled_andSweep a hitems)
  refine ⟨pieces, hlinks, hresults, fun p hp => ?_⟩
  have hlink : p.link ∈ (a.links (left ++ right)).filter (!·.isBare) :=
    hlinks ▸ List.mem_map_of_mem hp
  obtain ⟨g, hlt, hr, hmakes⟩ := hpieces p hp
  refine hmakes.leaves hlayer (fun x hx => ?_) hlt hr _
  exact hitems x (mem_of_mem_links (List.mem_of_mem_filter hlink) hx)

section

variable {c : Arena} {items : List Item} {pieces before between after : List Piece} {p q : Piece}

/-- What the results of two links take in both is the record at which the links meet. -/
theorem takes_both_iff (hlinks : pieces.map Piece.link = (a.links items).filter (!·.isBare))
    (hpieces : ∀ p ∈ pieces, p.link.Leaves a c p.result)
    (h : pieces = before ++ p :: (between ++ q :: after)) :
    Takes a c x p.result ∧ Takes a c x q.result ↔
      between = [] ∧ q.link.role = .record ∧ x = q.link.lead := by
  rw [(hpieces p (by simp [h])).takes_iff, (hpieces q (by simp [h])).takes_iff]
  rw [h] at hlinks
  simp only [List.map_append, List.map_cons] at hlinks
  constructor
  · rintro ⟨hp, hq⟩
    obtain ⟨hbetween, hrecord⟩ := shared_of_full (a.nodup_map_fst_roles items) hlinks.symm hp hq
    exact ⟨List.map_eq_nil_iff.1 hbetween, hrecord⟩
  · rintro ⟨rfl, hrole, rfl⟩
    refine ⟨mem_items.2 (.inr ?_), List.mem_cons_self⟩
    rw [closing_of_full hlinks.symm hrole]
    exact List.mem_singleton_self _

/-- No item is in three results. -/
theorem length_le_two (hlinks : pieces.map Piece.link = (a.links items).filter (!·.isBare))
    (hpieces : ∀ p ∈ pieces, p.link.Leaves a c p.result) {part : List Piece}
    (hpart : part.Sublist pieces) (hx : ∀ p ∈ part, Takes a c x p.result) : part.length ≤ 2 := by
  match part with
  | [] | [_] | [_, _] => simp
  | p :: q :: r :: rest =>
    -- the first and the third would come one after the other, with the second between them
    obtain ⟨front, tail, rfl, hp, htail⟩ := List.cons_sublist_iff.1 hpart
    obtain ⟨middle, last, rfl, hq, hlast⟩ := List.cons_sublist_iff.1 htail
    obtain ⟨before, after, rfl⟩ := List.append_of_mem hp
    obtain ⟨between, behind, rfl⟩ := List.append_of_mem (hlast.subset List.mem_cons_self)
    have hsplit : before ++ p :: after ++ (middle ++ (between ++ r :: behind)) =
        before ++ p :: ((after ++ middle ++ between) ++ r :: behind) := by simp
    have hnil := ((takes_both_iff hlinks hpieces hsplit).1 ⟨hx p (by simp), hx r (by simp)⟩).1
    obtain ⟨hnil, -⟩ := List.append_eq_nil_iff.1 hnil
    rw [(List.append_eq_nil_iff.1 hnil).2] at hq
    cases hq

end

/-- **Links of a conjunctive merge.** The items of an arena, candidates and groups that are there,
sorted and without repeats, fall into links, one for each item that opens a run and one for each
record. The merge leaves one result for each link that is not bare, in their order. The result takes
in exactly the items of the link and covers the same time. Two results have an item in common only
if they come one after the other and a record leads the second one; that record is then the only
one. So no item is in three results, and a record that leads a result is not alone in it. -/
theorem andMerge_links (a : Arena) {left right : List Item}
    (hitems : ∀ x ∈ left ++ right, a.Holds x) :
    (a.links (left ++ right)).flatMap Link.own = a.sorted (left ++ right) ∧
      (a.links (left ++ right)).map (fun k => (k.lead, k.role)) =
        (a.roles none (a.sorted (left ++ right))).filter (·.2 ≠ .enclosed) ∧
      ∃ pieces : List Piece,
        pieces.map Piece.link = (a.links (left ++ right)).filter (!·.isBare) ∧
        pieces.map Piece.result = (a.andMerge left right).2 ∧
        (∀ p ∈ pieces, p.link.Leaves a (a.andMerge left right).1 p.result) ∧
        (∀ before p between q after, pieces = before ++ p :: (between ++ q :: after) →
          ∀ x, Takes a (a.andMerge left right).1 x p.result ∧
              Takes a (a.andMerge left right).1 x q.result ↔
            between = [] ∧ q.link.role = .record ∧ x = q.link.lead) ∧
        (∀ part : List Piece, part.Sublist pieces →
          ∀ x, (∀ p ∈ part, Takes a (a.andMerge left right).1 x p.result) → part.length ≤ 2) ∧
        ∀ p ∈ pieces, p.link.role = .record →
          ∃ x, x ≠ p.link.lead ∧ Takes a (a.andMerge left right).1 x p.result := by
  obtain ⟨pieces, hlinks, hresults, hpieces⟩ := exists_pieces a hitems
  refine ⟨a.flatMap_own_links _, map_lead _, pieces, hlinks, hresults, hpieces, ?_, ?_, ?_⟩
  case refine_1 =>
    intro before p between q after h x
    exact takes_both_iff hlinks hpieces h
  case refine_2 =>
    intro part hpart x hx
    exact length_le_two hlinks hpieces hpart hx
  case refine_3 =>
    intro p hp hrole
    have hlink : p.link ∈ (a.links (left ++ right)).filter (!·.isBare) :=
      hlinks ▸ List.mem_map_of_mem hp
    obtain ⟨x, hx, hne⟩ := exists_ne_lead (a.nodup_map_fst_roles _) hlink hrole
    exact ⟨x, hne, ((hpieces p hp).takes_iff x).2 hx⟩

/-- A candidate that encloses another, a group that starts within it and ends later, and a candidate
that comes after both: the group alone is not left. -/
theorem andMerge_links_overlapping :
    let a : Arena :=
      { candidates := #[Anomaly.stored 1 7 0 10, Anomaly.stored 2 7 2 4, Anomaly.stored 3 7 5 20,
          Anomaly.stored 4 7 30 40]
        groups := #[{ span := ⟨5, 20⟩, members := [.candidate 2] }] }
    let left : List Item := [.candidate 0, .candidate 1]
    let right : List Item := [.group 0, .candidate 0, .candidate 3]
    let first : Link := ⟨.candidate 0, .opening, [.candidate 1], some (.group 0)⟩
    let second : Link := ⟨.group 0, .record, [], none⟩
    let third : Link := ⟨.candidate 3, .opening, [], none⟩
    (∀ x ∈ left ++ right, a.Holds x) ∧
      [first, second, third].flatMap Link.own = a.sorted (left ++ right) ∧
      [first, second, third].map (fun k => (k.lead, k.role)) =
        (a.roles none (a.sorted (left ++ right))).filter (·.2 ≠ .enclosed) ∧
      ∃ pieces : List Piece,
        pieces.map Piece.link = [first, third] ∧
        pieces.map Piece.result = (a.andMerge left right).2 ∧
        (∀ p ∈ pieces, p.link.Leaves a (a.andMerge left right).1 p.result) ∧
        (∀ before p between q after, pieces = before ++ p :: (between ++ q :: after) →
          ∀ x, Takes a (a.andMerge left right).1 x p.result ∧
              Takes a (a.andMerge left right).1 x q.result ↔
            between = [] ∧ q.link.role = .record ∧ x = q.link.lead) ∧
        (∀ part : List Piece, part.Sublist pieces →
          ∀ x, (∀ p ∈ part, Takes a (a.andMerge left right).1 x p.result) → part.length ≤ 2) ∧
        ∀ p ∈ pieces, p.link.role = .record →
          ∃ x, x ≠ p.link.lead ∧ Takes a (a.andMerge left right).1 x p.result := by
  intro a left right first second third
  have hitems : ∀ x ∈ left ++ right, a.Holds x := by
    rintro x hx g rfl
    have hg : g = 0 := by simpa [left, right] using hx
    rw [hg]
    decide
  have hsorted : a.sorted (left ++ right) =
      [.candidate 0, .candidate 1, .group 0, .candidate 3] := by
    have hdistinct : (left ++ right).eraseDups =
        [.candidate 0, .candidate 1, .group 0, .candidate 3] := by decide
    rw [sorted, hdistinct]
    exact List.mergeSort_of_pairwise (by decide)
  have hlinks : a.links (left ++ right) = [first, second, third] := by
    rw [links, hsorted]
    decide
  have hfull : [first, third] = (a.links (left ++ right)).filter (!·.isBare) := by
    rw [hlinks]
    decide
  rw [hfull, ← hlinks]
  exact ⟨hitems, a.andMerge_links hitems⟩

end Outlier.Arena
