import Mathlib.Data.List.Basic
import Outlier.Grouping
import Outlier.Proofs.Grouping.Inside

/-! # Listings

In a ranked arena the list of what lies below the groups has exactly one entry for each item there
(`listing_foldl`). On the way down, a group before the current one is either not seen yet or was
seen together with all that lies in it. -/

namespace Outlier.Arena

variable {a : Arena}

/-- What is listed for an item below a group: a copy of a candidate, and of a group its span. -/
def entry (a : Arena) : Item → Anomaly
  | .candidate i => (a.candidate i).asChild
  | .group h =>
    { Anomaly.synthetic (a.draft h).span.start (a.draft h).span.stop with isChild := true }

/-- Each item seen is listed once, in the order in which it was seen. -/
structure Listing.Sound (a : Arena) (l : Listing) : Prop where
  nodup : l.seen.Nodup
  listed : l.listed = l.seen.reverse.map a.entry

/-- With a group of a number below `n` all that lies in it was seen. -/
def Listing.Closed (a : Arena) (n : Nat) (l : Listing) : Prop :=
  ∀ h < n, .group h ∈ l.seen → ∀ x, a.Inside x h → x ∈ l.seen

/-- Add an item that was not seen yet, and all below it. -/
def listMember (a : Arena) (l : Listing) : Item → Listing
  | .candidate i => ⟨.candidate i :: l.seen, l.listed ++ [a.entry (.candidate i)]⟩
  | .group h => a.listBelow h ⟨.group h :: l.seen, l.listed ++ [a.entry (.group h)]⟩

theorem listBelow_eq (ha : a.Ranked) (g : Nat) (l : Listing) :
    a.listBelow g l = (a.draft g).members.foldl
      (fun l x => if x ∈ l.seen then l else a.listMember l x) l := by
  rw [listBelow]
  refine List.foldl_ext _ _ _ fun l x hx => ?_
  cases x with
  | candidate i => rfl
  | group h =>
    by_cases hseen : Item.group h ∈ l.seen
    · simp only [if_pos hseen]
    · simp only [if_neg hseen, if_pos (ha g h hx)]
      rfl

theorem Listing.Sound.cons {l : Listing} (hl : l.Sound a) {x : Item} (hx : x ∉ l.seen) :
    Sound a ⟨x :: l.seen, l.listed ++ [a.entry x]⟩ where
  nodup := List.nodup_cons.2 ⟨hx, hl.nodup⟩
  listed := by
    rw [List.reverse_cons, List.map_append, hl.listed]
    rfl

/-- What adding something to a listing gives: it stays sound and closed, and what is seen is what
was seen and what `new` says. -/
structure Listing.Adds (a : Arena) (n : Nat) (l l' : Listing) (new : Item → Prop) : Prop where
  sound : l'.Sound a
  closed : l'.Closed a n
  seen : ∀ x, x ∈ l'.seen ↔ x ∈ l.seen ∨ new x

open Listing

theorem adds_foldl {n : Nat} {f : Listing → Item → Listing} {new : Item → Item → Prop}
    (items : List Item)
    (hstep : ∀ l x, x ∈ items → l.Sound a → l.Closed a n → Adds a n l (f l x) (new x))
    {l : Listing} (hl : l.Sound a) (hclosed : l.Closed a n) :
    Adds a n l (items.foldl f l) fun y => ∃ x ∈ items, new x y := by
  induction items generalizing l with
  | nil => exact ⟨hl, hclosed, fun y => by simp⟩
  | cons x rest ih =>
    have hx := hstep l x List.mem_cons_self hl hclosed
    have hrest := ih (fun l y hy => hstep l y (List.mem_cons_of_mem _ hy)) hx.sound hx.closed
    refine ⟨hrest.sound, hrest.closed, fun y => ?_⟩
    rw [List.foldl_cons, hrest.seen, hx.seen, or_assoc, List.exists_mem_cons_iff]

/-- Adding an item that was not seen yet, given that this works for the groups before `g`. -/
theorem adds_listMember (ha : a.Ranked) {g : Nat}
    (hbelow : ∀ h < g, ∀ l : Listing, l.Sound a → l.Closed a h →
      Adds a h l (a.listBelow h l) (a.Inside · h))
    {l : Listing} (hl : l.Sound a) (hclosed : l.Closed a g) {x : Item}
    (hx : x ∈ (a.draft g).members) (hnew : x ∉ l.seen) :
    Adds a g l (a.listMember l x) (a.Within [x]) := by
  have hcons := hl.cons hnew
  cases x with
  | candidate i =>
    refine ⟨hcons, fun k hk hkm y hy => ?_, fun y => ?_⟩
    · rcases List.mem_cons.1 hkm with e | hkm
      · exact absurd e (by simp)
      · exact List.mem_cons_of_mem _ (hclosed k hk hkm y hy)
    · show y ∈ Item.candidate i :: l.seen ↔ _
      simp [Within, or_comm]
  | group h =>
    have hhg : h < g := ha g h hx
    have hadds := hbelow h hhg _ hcons fun k hk hkm y hy => by
      rcases List.mem_cons.1 hkm with e | hkm
      · exact absurd (Item.group.inj e) (Nat.ne_of_lt hk)
      · exact List.mem_cons_of_mem _ (hclosed k (by omega) hkm y hy)
    refine ⟨hadds.sound, fun k hk hkm y hy => (hadds.seen y).2 ?_, fun y => ?_⟩
    · rcases (hadds.seen _).1 hkm with hkm | hin
      · rcases List.mem_cons.1 hkm with e | hkm
        · exact .inr (Item.group.inj e ▸ hy)
        · exact .inl (List.mem_cons_of_mem _ (hclosed k hk hkm y hy))
      · exact .inr (hin.trans hy)
    · rw [listMember, hadds.seen, List.mem_cons]
      simp only [Within, List.mem_singleton, Item.group.injEq, exists_eq_left]
      rw [or_comm (a := y = .group h), or_assoc]

theorem adds_listBelow (ha : a.Ranked) (g : Nat) (l : Listing) (hl : l.Sound a)
    (hclosed : l.Closed a g) : Adds a g l (a.listBelow g l) (a.Inside · g) := by
  induction g using Nat.strongRecOn generalizing l with
  | ind g ih =>
    have hstep : ∀ l x, x ∈ (a.draft g).members → l.Sound a → l.Closed a g →
        Adds a g l (if x ∈ l.seen then l else a.listMember l x) (a.Within [x]) := by
      intro l x hx hl hclosed
      by_cases hseen : x ∈ l.seen
      · rw [if_pos hseen]
        refine ⟨hl, hclosed, fun y => ⟨.inl, fun hor => hor.elim id ?_⟩⟩
        rintro (hy | ⟨h, hh, hy⟩)
        · exact List.mem_singleton.1 hy ▸ hseen
        · obtain rfl := List.mem_singleton.1 hh
          exact hclosed h (ha g h hx) hseen y hy
      · rw [if_neg hseen]
        exact adds_listMember ha ih hl hclosed hx hseen
    have hadds := adds_foldl (a.draft g).members hstep hl hclosed
    rw [listBelow_eq ha]
    refine ⟨hadds.sound, hadds.closed, fun y => (hadds.seen y).trans (or_congr_right ?_)⟩
    rw [inside_iff]
    constructor
    · rintro ⟨x, hx, hy | ⟨h, hh, hy⟩⟩
      · exact .inl (List.mem_singleton.1 hy ▸ hx)
      · exact .inr ⟨h, List.mem_singleton.1 hh ▸ hx, hy⟩
    · rintro (hy | ⟨h, hh, hy⟩)
      · exact ⟨y, hy, .inl (List.mem_singleton_self y)⟩
      · exact ⟨.group h, hh, .inr ⟨h, List.mem_singleton_self _, hy⟩⟩

theorem adds_listItem (ha : a.Ranked) {l : Listing} (hl : l.Sound a) (hclosed : l.Closed a a.size)
    (x : Item) :
    Adds a a.size l (a.listItem l x) fun y => ∃ g, x = .group g ∧ a.Inside y g := by
  cases x with
  | candidate i => exact ⟨hl, hclosed, fun y => by simp [listItem]⟩
  | group g =>
    have hadds := adds_listBelow ha g l hl fun h _ hm y hy => by
      have hlt : h < a.size := by
        rcases hy with hy | ⟨hk, _⟩
        · exact lt_size_of_mem hy
        · exact lt_size_of_mem hk
      exact hclosed h hlt hm y hy
    refine ⟨hadds.sound, fun k hk hkm y hy => (hadds.seen y).2 ?_, fun y => ?_⟩
    · rcases (hadds.seen _).1 hkm with hkm | hin
      · exact .inl (hclosed k hk hkm y hy)
      · exact .inr (hin.trans hy)
    · rw [listItem, hadds.seen]
      simp

/-- The listing of what remains has one entry for each item below it. -/
theorem listing_foldl (ha : a.Ranked) (items : List Item) :
    ∃ listing : List Item, listing.Nodup ∧
      (items.foldl a.listItem {}).listed = listing.map a.entry ∧
      ∀ y, y ∈ listing ↔ ∃ g, .group g ∈ items ∧ a.Inside y g := by
  have hstart : Listing.Sound a {} := ⟨List.nodup_nil, rfl⟩
  have hadds := adds_foldl items (fun _ x _ hl hclosed => adds_listItem ha hl hclosed x) hstart
    fun _ _ hm => absurd hm List.not_mem_nil
  refine ⟨_, (List.reverse_perm _).nodup_iff.2 hadds.sound.nodup, hadds.sound.listed, fun y => ?_⟩
  rw [List.mem_reverse, hadds.seen]
  constructor
  · rintro (hy | ⟨_, hx, g, rfl, hy⟩)
    · exact absurd hy List.not_mem_nil
    · exact ⟨g, hx, hy⟩
  · rintro ⟨g, hg, hy⟩
    exact .inr ⟨_, hg, g, rfl, hy⟩

end Outlier.Arena
