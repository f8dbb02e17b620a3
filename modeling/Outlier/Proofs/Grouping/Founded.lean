import Outlier.Proofs.Grouping.Evaluation

/-! # Founded arenas

An arena is founded if each group has a member, and all its members are candidates that are there or
groups that come before it (`Founded`). What makes an arena so is the order in which a merge goes
on: it puts something into a group only if that was there before the group. Each change of an arena
keeps this on its own, so that it holds between any two of them, and a sweep over items that are
there only ever looks at groups of its own (`Sweep.Fits`, `Union.Fits`). So all merges of an
evaluation begin and end in founded arenas, with items that are there (`sound_of_mem_merges`). -/

namespace Outlier

namespace Item

/-- The item is one of so many candidates or one of so many groups. -/
def Under (candidates groups : Nat) : Item → Prop
  | .candidate i => i < candidates
  | .group g => g < groups

instance (candidates groups : Nat) : (x : Item) → Decidable (x.Under candidates groups)
  | .candidate i => inferInstanceAs (Decidable (i < candidates))
  | .group g => inferInstanceAs (Decidable (g < groups))

theorem Under.mono {x : Item} {candidates groups groups' : Nat} (h : x.Under candidates groups)
    (hle : groups ≤ groups') : x.Under candidates groups' := by
  cases x with
  | candidate i => exact h
  | group g => exact Nat.lt_of_lt_of_le h hle

end Item

namespace Arena

variable {a b : Arena} {x inner : Item} {g : Nat} {shadow : Bool} {items left right : List Item}

/-- The item is there. -/
def Valid (a : Arena) (x : Item) : Prop := x.Under a.candidates.size a.size

instance (a : Arena) (x : Item) : Decidable (a.Valid x) :=
  inferInstanceAs (Decidable (x.Under _ _))

theorem Valid.holds (h : a.Valid x) : a.Holds x := by
  rintro g rfl
  exact h

theorem Valid.under (h : b.Valid x) (hcandidates : a.candidates = b.candidates)
    (hg : b.size ≤ g) : x.Under a.candidates.size g := by
  rw [hcandidates]
  exact Item.Under.mono h hg

theorem Valid.mono (h : b.Valid x) (hcandidates : a.candidates = b.candidates)
    (hsize : b.size ≤ a.size) : a.Valid x :=
  h.under hcandidates hsize

/-- Each group has a member, and all its members come before it. -/
structure Founded (a : Arena) : Prop where
  ne_nil : ∀ g < a.size, (a.draft g).members ≠ []
  member : ∀ g < a.size, ∀ x ∈ (a.draft g).members, x.Under a.candidates.size g

theorem founded_iff : a.Founded ↔ (∀ g < a.size, (a.draft g).members ≠ []) ∧
    ∀ g < a.size, ∀ x ∈ (a.draft g).members, x.Under a.candidates.size g :=
  ⟨fun h => ⟨h.ne_nil, h.member⟩, fun h => ⟨h.1, h.2⟩⟩

instance (a : Arena) : Decidable a.Founded := decidable_of_iff _ founded_iff.symm

namespace Founded

theorem ranked (h : a.Founded) : a.Ranked := by
  intro g k hk
  exact h.member g (lt_size_of_mem hk) _ hk

theorem valid (h : a.Founded) (hx : x ∈ (a.draft g).members) : a.Valid x := by
  have hg := lt_size_of_mem hx
  exact (h.member g hg x hx).mono (Nat.le_of_lt hg)

theorem congr (h : b.Founded) (hcandidates : a.candidates = b.candidates) (hsize : a.size = b.size)
    (hmembers : ∀ k, (a.draft k).members = (b.draft k).members) : a.Founded where
  ne_nil k hk := by
    rw [hmembers]
    exact h.ne_nil k (hsize ▸ hk)
  member k hk y hy := by
    rw [hmembers] at hy
    rw [hcandidates]
    exact h.member k (hsize ▸ hk) y hy

/-! ### Changes -/

theorem update (h : a.Founded) (g : Nat) {f : Draft → Draft}
    (hf : ∀ d, (f d).members = d.members) : (a.update g f).Founded := by
  refine h.congr (a.candidates_update g f) (a.size_update g f) fun k => ?_
  rw [draft_update]
  split
  · exact hf (a.draft k)
  · rfl

theorem stretch (h : a.Founded) (g : Nat) (stop : Int64) : (a.stretch g stop).Founded :=
  h.update g fun _ => rfl

theorem widen (h : a.Founded) (g : Nat) (span : Span) : (a.widen g span).Founded :=
  h.update g fun _ => rfl

theorem markAdopted (h : a.Founded) (x : Item) : (a.markAdopted x).Founded := by
  cases x with
  | candidate i => exact h
  | group g => exact h.update g fun _ => rfl

theorem openGroup (h : a.Founded) (hx : a.Valid x) (shadow : Bool) :
    (a.openGroup x shadow).Founded where
  ne_nil k hk := by
    by_cases hne : k = a.size
    · rw [hne, draft_openGroup]
      exact List.cons_ne_nil x []
    · rw [size_openGroup] at hk
      rw [draft_openGroup_eq a hne]
      exact h.ne_nil k (by omega)
  member k hk y hy := by
    rw [candidates_openGroup]
    rcases (a.mem_openGroup x y shadow k).1 hy with hy | ⟨rfl, rfl⟩
    · exact h.member k (lt_size_of_mem hy) y hy
    · exact hx

theorem members_adopt (a : Arena) (hg : g < a.size) (x : Item) (k : Nat) :
    ((a.adopt g x).draft k).members =
      if k = g then (a.draft g).members ++ [x] else (a.draft k).members := by
  rw [adopt, draft_update, size_markAdopted, draft_markAdopted]
  by_cases hk : g = k
  · subst hk
    rw [if_pos ⟨rfl, hg⟩, if_pos rfl]
  · rw [if_neg fun e => hk e.1, if_neg (Ne.symm hk)]

/-- What joins a group has to come before it. -/
theorem adopt (h : a.Founded) (hg : g < a.size) (hx : x.Under a.candidates.size g) :
    (a.adopt g x).Founded where
  ne_nil k hk := by
    rw [size_adopt] at hk
    rw [members_adopt a hg]
    split
    · exact List.append_ne_nil_of_right_ne_nil _ (List.cons_ne_nil x [])
    · exact h.ne_nil k hk
  member k hk y hy := by
    rw [size_adopt] at hk
    rw [candidates_adopt]
    rw [members_adopt a hg] at hy
    split at hy
    next hkg =>
      rcases List.mem_append.1 hy with hy | hy
      · exact hkg ▸ h.member g hg y hy
      · exact hkg ▸ List.mem_singleton.1 hy ▸ hx
    next => exact h.member k hk y hy

theorem close (h : a.Founded) (g : Nat) : (a.close g).1.Founded := by
  unfold Arena.close
  split
  · exact h.update g fun _ => rfl
  · exact h

theorem valid_close (h : a.Founded) (hg : g < a.size) : (a.close g).1.Valid (a.close g).2 := by
  unfold Arena.close
  split
  next hbare =>
    obtain ⟨_, y, hy⟩ := (Draft.isBareShadow_iff _).1 hbare
    rw [hy]
    have hvalid : a.Valid y := h.valid (hy ▸ List.mem_singleton_self y)
    exact hvalid.mono rfl (Nat.le_of_eq (a.size_update g _).symm)
  next => exact hg

end Founded

@[simp] theorem candidates_close (a : Arena) (g : Nat) :
    (a.close g).1.candidates = a.candidates := by
  unfold close
  split <;> rfl

/-! ### Longer arenas -/

/-- The arena is founded, and it is `b` with more groups. -/
structure Continues (b a : Arena) : Prop where
  founded : a.Founded
  candidates : a.candidates = b.candidates
  size_le : b.size ≤ a.size

namespace Continues

theorem refl (h : b.Founded) : Continues b b := ⟨h, rfl, Nat.le_refl _⟩

theorem valid (h : b.Continues a) (hx : b.Valid x) : a.Valid x := hx.mono h.candidates h.size_le

theorem openGroup (h : b.Continues a) (hx : a.Valid x) (shadow : Bool) :
    b.Continues (a.openGroup x shadow) where
  founded := h.founded.openGroup hx shadow
  candidates := (candidates_openGroup ..).trans h.candidates
  size_le := by
    rw [size_openGroup]
    exact Nat.le_succ_of_le h.size_le

theorem stretch (h : b.Continues a) (g : Nat) (stop : Int64) : b.Continues (a.stretch g stop) where
  founded := h.founded.stretch g stop
  candidates := h.candidates
  size_le := (size_stretch ..).symm ▸ h.size_le

theorem widen (h : b.Continues a) (g : Nat) (span : Span) : b.Continues (a.widen g span) where
  founded := h.founded.widen g span
  candidates := h.candidates
  size_le := (size_widen ..).symm ▸ h.size_le

theorem adopt (h : b.Continues a) (hg : g < a.size) (hx : x.Under a.candidates.size g) :
    b.Continues (a.adopt g x) where
  founded := h.founded.adopt hg hx
  candidates := (candidates_adopt ..).trans h.candidates
  size_le := (size_adopt ..).symm ▸ h.size_le

theorem close (h : b.Continues a) (g : Nat) : b.Continues (a.close g).1 where
  founded := h.founded.close g
  candidates := (candidates_close ..).trans h.candidates
  size_le := (size_close ..).symm ▸ h.size_le

/-- A group that is new takes in what was there before. -/
theorem takeIn (h : b.Continues a) (hx : b.Valid x) (hle : b.size ≤ g) (hlt : g < a.size)
    (stop : Int64) : b.Continues ((a.stretch g stop).adopt g x) := by
  refine (h.stretch g stop).adopt ?_ (hx.under h.candidates hle)
  rwa [size_stretch]

theorem wrap (h : b.Continues a) (hx : a.Valid x) (hinner : a.Valid inner) (span : Span) :
    b.Continues (((a.openGroup x false).widen a.size span).adopt a.size inner) := by
  refine ((h.openGroup hx false).widen a.size span).adopt ?_ ?_
  · rw [size_widen, size_openGroup]
    exact Nat.lt_succ_self a.size
  · exact hinner.under (a.candidates_openGroup x false) (Nat.le_refl _)

end Continues

/-! ### The conjunctive sweep -/

/-- The arena of a sweep that began in `b` is founded, and the heads are groups that it has opened.
-/
structure Sweep.Fits (b : Arena) (s : Sweep) : Prop extends b.Continues s.arena where
  heads : ∀ g ∈ s.heads, b.size ≤ g ∧ g < s.arena.size

namespace Sweep.Fits

variable {s : Sweep} {head : Nat} {below : List Nat}

theorem start (h : s.Fits b) (hx : b.Valid x) (shadow : Bool) : (s.start x shadow).Fits b where
  toContinues := h.openGroup (h.valid hx) shadow
  heads g hg := by
    have hle := h.size_le
    simp only [Sweep.start, size_openGroup]
    rcases List.mem_cons.1 hg with rfl | hg
    · omega
    · have hheads := h.heads g hg
      omega

theorem dropHead (h : s.Fits b) (hheads : s.heads = head :: below) :
    Fits b { s with heads := below } :=
  { h with heads := fun g hg => h.heads g (hheads ▸ List.mem_cons_of_mem head hg) }

theorem takeIn (h : s.Fits b) (hx : b.Valid x) (hhead : head ∈ s.heads) (stop : Int64) :
    Fits b { s with arena := (s.arena.stretch head stop).adopt head x } where
  toContinues := h.toContinues.takeIn hx (h.heads head hhead).1 (h.heads head hhead).2 stop
  heads g hg := by
    show b.size ≤ g ∧ g < ((s.arena.stretch head stop).adopt head x).size
    rw [size_adopt, size_stretch]
    exact h.heads g hg

theorem extend (h : s.Fits b) (hx : b.Valid x) (hhead : head ∈ s.heads) :
    (s.extend head x).Fits b :=
  (h.takeIn hx hhead _).start hx true

theorem enclose (h : s.Fits b) (hx : b.Valid x) (hheads : s.heads = head :: below) :
    (s.enclose head below x).Fits b := by
  have hhead := h.heads head (hheads ▸ List.mem_cons_self)
  have hbelow : ∀ g ∈ below, b.size ≤ g ∧ g < s.arena.size := fun g hg =>
    h.heads g (hheads ▸ List.mem_cons_of_mem head hg)
  have hclose := h.close head
  have hinner := h.founded.valid_close hhead.2
  have hsize : (s.arena.close head).1.size = s.arena.size := size_close ..
  unfold Sweep.enclose
  generalize s.arena.close head = closed at *
  obtain ⟨c, inner⟩ := closed
  dsimp only at *
  refine ⟨hclose.wrap (hclose.valid hx) hinner _, fun g hg => ?_⟩
  have hle := hclose.size_le
  rw [size_adopt, size_widen, size_openGroup]
  rcases List.mem_cons.1 hg with rfl | hg
  · omega
  · have hold := hbelow g hg
    omega

theorem step (h : s.Fits b) (hx : b.Valid x) : (s.step x).Fits b := by
  cases hheads : s.heads with
  | nil =>
    rw [step_nil hheads]
    exact h.start hx false
  | cons head below =>
    rw [step_cons hheads]
    split
    · exact (h.dropHead hheads).start hx false
    · split
      · exact h.extend hx (hheads ▸ List.mem_cons_self)
      · exact h.enclose hx hheads

theorem foldl {items : List Item} (h : s.Fits b) (hitems : ∀ x ∈ items, b.Valid x) :
    (items.foldl Sweep.step s).Fits b := by
  induction items generalizing s with
  | nil => exact h
  | cons x rest ih =>
    obtain ⟨hx, hrest⟩ := List.forall_mem_cons.1 hitems
    exact ih (h.step hx) hrest

end Sweep.Fits

theorem Sweep.fits_start (h : b.Founded) : Sweep.Fits b ⟨b, []⟩ :=
  ⟨.refl h, fun _ hg => absurd hg List.not_mem_nil⟩

/-! ### The disjunctive sweep -/

/-- The arena of a sweep that began in `b` is founded, and the growing group is one that it has
opened. -/
structure Union.Fits (b : Arena) (u : Union) : Prop extends b.Continues u.arena where
  current : ∀ g ∈ u.current, b.size ≤ g ∧ g < u.arena.size

namespace Union.Fits

variable {u : Union}

theorem fresh (h : u.Fits b) (hx : b.Valid x) :
    Fits b ⟨u.arena.openGroup x false, some u.arena.size⟩ where
  toContinues := h.openGroup (h.valid hx) false
  current g hg := by
    obtain rfl := Option.some.inj hg
    have hle := h.size_le
    simp only [size_openGroup]
    omega

theorem takeIn (h : u.Fits b) (hx : b.Valid x) (hg : g ∈ u.current) (stop : Int64) :
    Fits b ⟨(u.arena.stretch g stop).adopt g x, some g⟩ where
  toContinues := h.toContinues.takeIn hx (h.current g hg).1 (h.current g hg).2 stop
  current k hk := by
    obtain rfl := Option.some.inj hk
    rw [size_adopt, size_stretch]
    exact h.current g hg

theorem step (h : u.Fits b) (hx : b.Valid x) : (u.step x).Fits b := by
  unfold Union.step
  dsimp only
  split
  · exact h.fresh hx
  next g hcurrent =>
    split
    · exact h.takeIn hx hcurrent _
    · exact h.fresh hx

theorem foldl {items : List Item} (h : u.Fits b) (hitems : ∀ x ∈ items, b.Valid x) :
    (items.foldl Union.step u).Fits b := by
  induction items generalizing u with
  | nil => exact h
  | cons x rest ih =>
    obtain ⟨hx, hrest⟩ := List.forall_mem_cons.1 hitems
    exact ih (h.step hx) hrest

end Union.Fits

theorem Union.fits_start (h : b.Founded) : Union.Fits b ⟨b, none⟩ :=
  ⟨.refl h, fun _ hg => absurd hg (Option.not_mem_none _)⟩

/-! ### Merges and evaluations -/

/-- A founded arena together with items that are there. -/
structure Supports (a : Arena) (items : List Item) : Prop where
  founded : a.Founded
  valid : ∀ x ∈ items, a.Valid x

theorem Supports.sorted (h : a.Supports items) : ∀ x ∈ a.sorted items, a.Valid x := by
  intro x hx
  exact h.valid x (mem_sorted.1 hx)

namespace Founded

theorem markFree (h : a.Founded) (x : Item) : (a.markFree x).Founded := by
  cases x with
  | candidate i => exact h
  | group g => exact h.update g fun _ => rfl

theorem foldl_markFree (h : a.Founded) (items : List Item) :
    (items.foldl Arena.markFree a).Founded := by
  induction items generalizing a with
  | nil => exact h
  | cons x rest ih => exact ih (h.markFree x)

/-- What a group stands for does not come after it. -/
theorem under_result? (h : a.Founded) (hg : g < a.size) (hr : a.result? g = some x) :
    x.Under a.candidates.size (g + 1) := by
  obtain ⟨_, _, rfl | ⟨hm, _⟩⟩ := result?_eq_some hr
  · exact Nat.lt_succ_self g
  · have hunder := h.member g hg x (hm ▸ List.mem_singleton_self x)
    exact hunder.mono (Nat.le_succ g)

theorem collect (h : a.Founded) (first : Nat) :
    (a.collect first).1.Supports (a.collect first).2 where
  founded := h.foldl_markFree _
  valid x hx := by
    obtain ⟨g, _, hg, hr⟩ := mem_results.1 hx
    have hvalid : a.Valid x := (h.under_result? hg hr).mono hg
    have hgrows := (Grows.refl a).foldl_markFree (a.results first)
    exact hvalid.mono hgrows.candidates hgrows.size_le

end Founded

theorem candidates_collect (a : Arena) (first : Nat) :
    (a.collect first).1.candidates = a.candidates :=
  ((Grows.refl a).foldl_markFree (a.results first)).candidates

theorem Supports.merge (h : a.Supports (left ++ right)) (op : Operator) :
    (a.merge op left right).1.Supports (a.merge op left right).2 := by
  cases op with
  | and => exact ((Sweep.fits_start h.founded).foldl h.sorted).founded.collect a.size
  | or => exact ((Union.fits_start h.founded).foldl h.sorted).founded.collect a.size

/-- What both sides of an operator leave is there when they are merged. -/
theorem Supports.append (hl : b.Supports left) (hr : a.Supports right) (h : Pass b right a) :
    a.Supports (left ++ right) where
  founded := hr.founded
  valid x hx := by
    rcases List.mem_append.1 hx with hx | hx
    · exact (hl.valid x hx).mono h.candidates h.size_le
    · exact hr.valid x hx

theorem supports_select (h : a.Founded) (stem : String) : a.Supports (a.select stem) where
  founded := h
  valid x hx := by
    obtain ⟨i, rfl, hi, _⟩ := mem_select.1 hx
    exact hi

theorem Supports.candidates_merge (h : a.Supports (left ++ right)) (op : Operator) :
    (a.merge op left right).1.candidates = a.candidates := by
  cases op with
  | and =>
    have hfits := (Sweep.fits_start h.founded).foldl h.sorted
    exact (candidates_collect ..).trans hfits.candidates
  | or =>
    have hfits := (Union.fits_start h.founded).foldl h.sorted
    exact (candidates_collect ..).trans hfits.candidates

/-- A merge from its start to its end: the arena in which it begins has the items of both sides, at
every item its sweep has only groups that are there, and it leaves items that are there, none of
them twice. -/
structure Merging.Sound (m : Merging) : Prop where
  before : m.arena.Supports (m.left ++ m.right)
  heads : m.op = .and → ∀ done, done <+: m.arena.sorted (m.left ++ m.right) →
    Sweep.Fits m.arena (done.foldl Sweep.step ⟨m.arena, []⟩)
  current : m.op = .or → ∀ done, done <+: m.arena.sorted (m.left ++ m.right) →
    Union.Fits m.arena (done.foldl Union.step ⟨m.arena, none⟩)
  after : (m.arena.merge m.op m.left m.right).1.Supports (m.arena.merge m.op m.left m.right).2
  candidates : (m.arena.merge m.op m.left m.right).1.candidates = m.arena.candidates
  nodup : (m.arena.merge m.op m.left m.right).2.Nodup

theorem Supports.nodup_merge (h : a.Supports (left ++ right)) (op : Operator) :
    (a.merge op left right).2.Nodup := by
  obtain ⟨d, hd, hmerge⟩ := exists_layer_merge a op fun x hx => (h.valid x hx).holds
  rw [hmerge]
  exact hd.nodup_results

theorem Supports.sound (h : a.Supports (left ++ right)) (op : Operator) :
    Merging.Sound ⟨a, op, left, right⟩ where
  before := h
  heads _ _ hdone := (Sweep.fits_start h.founded).foldl fun x hx => h.sorted x (hdone.subset hx)
  current _ _ hdone := (Union.fits_start h.founded).foldl fun x hx => h.sorted x (hdone.subset hx)
  after := h.merge op
  candidates := h.candidates_merge op
  nodup := h.nodup_merge op

/-- An evaluation leaves a founded arena and items that are there. -/
theorem supports_evaluate (e : Expression) (h : a.Founded) :
    (a.evaluate e).1.Supports (a.evaluate e).2 := by
  induction e generalizing a with
  | leaf stem => exact supports_select h stem
  | join op l r ihl ihr =>
    have hl := ihl h
    have hr := ihr hl.founded
    rw [evaluate_join]
    exact (hl.append hr (pass_evaluate r hl.founded.ranked)).merge op

theorem candidates_of_mem_merges {e : Expression} (ha : a.Ranked) {m : Merging}
    (hm : m ∈ a.merges e) : m.arena.candidates = a.candidates := by
  induction e generalizing a with
  | leaf stem => exact absurd hm List.not_mem_nil
  | join op l r ihl ihr =>
    have hl := pass_evaluate l ha
    have hb := hl.ranked ha
    rcases mem_merges_join.1 hm with hm | hm | rfl
    · exact ihl ha hm
    · exact (ihr hb hm).trans hl.candidates
    · exact (pass_evaluate r hb).candidates.trans hl.candidates

theorem sound_of_mem_merges {e : Expression} (h : a.Founded) {m : Merging} (hm : m ∈ a.merges e) :
    m.Sound := by
  induction e generalizing a with
  | leaf stem => exact absurd hm List.not_mem_nil
  | join op l r ihl ihr =>
    have hl := supports_evaluate l h
    rcases mem_merges_join.1 hm with hm | hm | rfl
    · exact ihl h hm
    · exact ihr hl.founded hm
    · have hr := supports_evaluate r hl.founded
      exact (hl.append hr (pass_evaluate r hl.founded.ranked)).sound op

end Arena
end Outlier
