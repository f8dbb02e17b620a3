import Outlier.Anomaly

/-! # The arena of a grouping pass

A grouping pass works on items: candidates, named by their place in the input, and groups, named by
their place in an arena to which groups are only ever added. A group keeps its span, its members in
the order in which they joined, and three marks: `adopted` when it lies inside another group,
`shadow` when it was opened for an item that another group already records, and `discarded` when
its only member took its place. -/

namespace Outlier

/-- A closed interval of time. -/
structure Span where
  start : Int64
  stop : Int64
  deriving DecidableEq, Inhabited

/-- The least span that covers both. -/
def Span.hull (a b : Span) : Span := ⟨min a.start b.start, max a.stop b.stop⟩

/-- The span of an anomaly. -/
def Anomaly.span (a : Anomaly) : Span := ⟨a.startTime, a.endTime⟩

/-- What takes part in a merge: a candidate or a group, by its place. -/
inductive Item where
  | candidate (index : Nat)
  | group (index : Nat)
  deriving DecidableEq, Inhabited

/-- A group that is being made. -/
structure Draft where
  span : Span
  members : List Item
  /-- Opened for an item that another group records too. -/
  shadow : Bool := false
  /-- Inside another group. -/
  adopted : Bool := false
  /-- Replaced by its only member. -/
  discarded : Bool := false
  deriving Inhabited

/-- Did nothing join the group of an item that is recorded elsewhere? -/
def Draft.isBareShadow (d : Draft) : Bool := d.shadow && d.members.length == 1

/-- The candidates of a pass and the groups made so far. -/
structure Arena where
  candidates : Array Anomaly
  groups : Array Draft := #[]

namespace Arena

variable (a : Arena)

/-- The candidate at a place. -/
def candidate (i : Nat) : Anomaly := a.candidates.getD i default

/-- The group at a place. -/
def draft (g : Nat) : Draft := a.groups.getD g default

/-- The number of groups, which is the place of the next one. -/
def size : Nat := a.groups.size

/-- The span of an item. -/
def span : Item → Span
  | .candidate i => (a.candidate i).span
  | .group g => (a.draft g).span

/-- Change the group at a place. -/
def update (g : Nat) (f : Draft → Draft) : Arena := { a with groups := a.groups.modify g f }

/-- Mark an item as lying inside a group; a candidate carries no mark. -/
def markAdopted : Item → Arena
  | .candidate _ => a
  | .group g => a.update g ({ · with adopted := true })

/-- Mark an item as lying inside no group. -/
def markFree : Item → Arena
  | .candidate _ => a
  | .group g => a.update g ({ · with adopted := false })

/-- Open a group around one item; its place is the size of the arena before. -/
def openGroup (seed : Item) (shadow : Bool) : Arena :=
  let draft := { span := a.span seed, members := [seed], shadow }
  { a.markAdopted seed with groups := (a.markAdopted seed).groups.push draft }

/-- Let an item join a group, whose span stays as it is. -/
def adopt (g : Nat) (x : Item) : Arena :=
  (a.markAdopted x).update g fun d => { d with members := d.members ++ [x] }

/-- Move the end of a group. -/
def stretch (g : Nat) (stop : Int64) : Arena :=
  a.update g fun d => { d with span := { d.span with stop } }

/-- Widen a group so that it covers a span. -/
def widen (g : Nat) (span : Span) : Arena := a.update g fun d => { d with span := d.span.hull span }

/-- Close a group that is to go inside another: the item that goes there is the group itself, or,
when the group is a bare shadow, its only member, and the group is discarded. -/
def close (g : Nat) : Arena × Item :=
  if (a.draft g).isBareShadow then
    (a.update g ({ · with discarded := true }), (a.draft g).members.headD default)
  else (a, .group g)

/-- The items without repeats, the first of each kept, in order of their starts; items that start
together stay in the order given. -/
def sorted (items : List Item) : List Item :=
  items.eraseDups.mergeSort fun x y => (a.span x).start ≤ (a.span y).start

/-- What a group stands for after a merge: nothing when it is inside another group, discarded or a
bare shadow, its member when that is a single group, and itself otherwise. -/
def result? (g : Nat) : Option Item :=
  let d := a.draft g
  if d.adopted || d.discarded || d.isBareShadow then none
  else match d.members with
    | [.group inner] => some (.group inner)
    | _ => some (.group g)

/-- The results of the groups from place `first` on; they lie inside no group any more. -/
def collect (first : Nat) : Arena × List Item :=
  let results := (List.range' first (a.size - first)).filterMap a.result?
  (results.foldl markFree a, results)

/-! ### Size and candidates

No change touches the candidates. Opening a group adds one at the end; every other change keeps the
number of groups. -/

@[simp] theorem size_update (g : Nat) (f : Draft → Draft) : (a.update g f).size = a.size := by
  simp [update, size]

@[simp] theorem candidates_update (g : Nat) (f : Draft → Draft) :
    (a.update g f).candidates = a.candidates := rfl

@[simp] theorem size_markAdopted (x : Item) : (a.markAdopted x).size = a.size := by
  cases x <;> simp [markAdopted]

@[simp] theorem candidates_markAdopted (x : Item) :
    (a.markAdopted x).candidates = a.candidates := by
  cases x <;> rfl

@[simp] theorem size_markFree (x : Item) : (a.markFree x).size = a.size := by
  cases x <;> simp [markFree]

@[simp] theorem size_openGroup (x : Item) (shadow : Bool) :
    (a.openGroup x shadow).size = a.size + 1 := by
  have h := a.size_markAdopted x
  simp only [size] at h
  simp [openGroup, size, h]

@[simp] theorem candidates_openGroup (x : Item) (shadow : Bool) :
    (a.openGroup x shadow).candidates = a.candidates := a.candidates_markAdopted x

@[simp] theorem size_adopt (g : Nat) (x : Item) : (a.adopt g x).size = a.size := by
  simp [adopt]

@[simp] theorem candidates_adopt (g : Nat) (x : Item) :
    (a.adopt g x).candidates = a.candidates := a.candidates_markAdopted x

@[simp] theorem size_stretch (g : Nat) (stop : Int64) : (a.stretch g stop).size = a.size :=
  a.size_update g _

@[simp] theorem size_widen (g : Nat) (span : Span) : (a.widen g span).size = a.size :=
  a.size_update g _

@[simp] theorem size_close (g : Nat) : (a.close g).1.size = a.size := by
  unfold close
  split
  · exact a.size_update g _
  · rfl

/-! ### Groups -/

theorem draft_update (g h : Nat) (f : Draft → Draft) :
    (a.update g f).draft h = if g = h ∧ h < a.size then f (a.draft h) else a.draft h := by
  unfold draft update size
  by_cases hlt : h < a.groups.size
  · by_cases hg : g = h
    · simp [Array.getD_eq_getD_getElem?, Array.getElem_modify, hg, hlt]
    · simp [Array.getD_eq_getD_getElem?, Array.getElem?_modify, hg]
  · simp [Array.getD_eq_getD_getElem?, hlt]

theorem draft_openGroup (x : Item) (shadow : Bool) :
    (a.openGroup x shadow).draft a.size = { span := a.span x, members := [x], shadow } := by
  have h := a.size_markAdopted x
  simp only [size] at h
  simp [draft, openGroup, Array.getD_eq_getD_getElem?, size, ← h]

/-- The groups beside a new one change by the mark of its item alone. -/
theorem draft_openGroup_of_ne {g : Nat} (x : Item) (shadow : Bool) (hg : g ≠ a.size) :
    (a.openGroup x shadow).draft g = (a.markAdopted x).draft g := by
  have h := a.size_markAdopted x
  simp only [size] at h hg
  simp [draft, openGroup, Array.getD_eq_getD_getElem?, Array.getElem?_push, h, hg]

end Arena
end Outlier
