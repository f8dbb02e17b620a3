import Outlier.Proofs.Grouping.Founded

/-! # An evaluation that looks before it steps

Each definition of an evaluation stands here once more, in a form that stops where the evaluation
would go wrong: at an item that is not there, at a change after which the arena is not founded, at a
head that is not there, at a merge that leaves something twice. Beside each stands the lemma that it
does not stop and does what the plain one does, so that an evaluation never stops (`evaluate?_eq`).
-/

namespace Outlier.Arena

variable {a b : Arena} {x : Item} {g : Nat} {items left right : List Item}

/-! ### Lookups -/

/-- The group at a place, if there is one. -/
def draft? (a : Arena) (g : Nat) : Option Draft := a.groups[g]?

theorem draft?_of_lt (hg : g < a.size) : a.draft? g = some (a.draft g) := by
  unfold size at hg
  simp [draft?, draft, Array.getD_eq_getD_getElem?, hg]

/-- The candidate at a place, if there is one. -/
def candidate? (a : Arena) (i : Nat) : Option Anomaly := a.candidates[i]?

theorem candidate?_of_lt {i : Nat} (hi : i < a.candidates.size) :
    a.candidate? i = some (a.candidate i) := by
  simp [candidate?, candidate, Array.getD_eq_getD_getElem?, hi]

/-- The span of an item, if that is there. -/
def span? (a : Arena) : Item → Option Span
  | .candidate i => (a.candidate? i).map Anomaly.span
  | .group g => (a.draft? g).map Draft.span

theorem span?_of_valid (hx : a.Valid x) : a.span? x = some (a.span x) := by
  cases x with
  | candidate i =>
    rw [span?, candidate?_of_lt hx]
    rfl
  | group g =>
    rw [span?, draft?_of_lt hx]
    rfl

/-! ### Changes -/

/-- The arena, if it is founded. -/
def checked (a : Arena) : Option Arena := if a.Founded then some a else none

theorem checked_of_founded (h : a.Founded) : a.checked = some a := if_pos h

/-- A group without members is refused. -/
example : checked { candidates := #[], groups := #[{ span := ⟨0, 9⟩, members := [] }] } = none :=
  if_neg (by decide)

def update? (a : Arena) (g : Nat) (f : Draft → Draft) : Option Arena := do
  let _ ← a.draft? g
  (a.update g f).checked

theorem update?_of_founded (hg : g < a.size) {f : Draft → Draft} (h : (a.update g f).Founded) :
    a.update? g f = some (a.update g f) := by
  rw [update?, draft?_of_lt hg]
  exact checked_of_founded h

def markAdopted? (a : Arena) : Item → Option Arena
  | .candidate _ => some a
  | .group g => a.update? g ({ · with adopted := true })

theorem markAdopted?_of_valid (h : a.Founded) (hx : a.Valid x) :
    a.markAdopted? x = some (a.markAdopted x) := by
  cases x with
  | candidate i => rfl
  | group g => exact update?_of_founded hx (h.markAdopted (.group g))

def markFree? (a : Arena) : Item → Option Arena
  | .candidate _ => some a
  | .group g => a.update? g ({ · with adopted := false })

theorem markFree?_of_valid (h : a.Founded) (hx : a.Valid x) :
    a.markFree? x = some (a.markFree x) := by
  cases x with
  | candidate i => rfl
  | group g => exact update?_of_founded hx (h.markFree (.group g))

def openGroup? (a : Arena) (seed : Item) (shadow : Bool) : Option Arena := do
  let span ← a.span? seed
  let marked ← a.markAdopted? seed
  checked { marked with groups := marked.groups.push { span, members := [seed], shadow } }

theorem openGroup?_of_valid (h : a.Founded) (hx : a.Valid x) (shadow : Bool) :
    a.openGroup? x shadow = some (a.openGroup x shadow) := by
  rw [openGroup?, span?_of_valid hx, markAdopted?_of_valid h hx]
  exact checked_of_founded (h.openGroup hx shadow)

def adopt? (a : Arena) (g : Nat) (x : Item) : Option Arena := do
  let marked ← a.markAdopted? x
  marked.update? g fun d => { d with members := d.members ++ [x] }

theorem adopt?_of_under (h : a.Founded) (hg : g < a.size) (hx : x.Under a.candidates.size g) :
    a.adopt? g x = some (a.adopt g x) := by
  rw [adopt?, markAdopted?_of_valid h (hx.mono (Nat.le_of_lt hg))]
  exact update?_of_founded (by rwa [size_markAdopted]) (h.adopt hg hx)

def stretch? (a : Arena) (g : Nat) (stop : Int64) : Option Arena :=
  a.update? g fun d => { d with span := { d.span with stop } }

theorem stretch?_of_lt (h : a.Founded) (hg : g < a.size) (stop : Int64) :
    a.stretch? g stop = some (a.stretch g stop) :=
  update?_of_founded hg (h.stretch g stop)

def widen? (a : Arena) (g : Nat) (span : Span) : Option Arena :=
  a.update? g fun d => { d with span := d.span.hull span }

theorem widen?_of_lt (h : a.Founded) (hg : g < a.size) (span : Span) :
    a.widen? g span = some (a.widen g span) :=
  update?_of_founded hg (h.widen g span)

def close? (a : Arena) (g : Nat) : Option (Arena × Item) := do
  let d ← a.draft? g
  if d.isBareShadow then
    let closed ← a.update? g ({ · with discarded := true })
    let only ← d.members.head?
    some (closed, only)
  else some (a, .group g)

theorem close?_of_lt (h : a.Founded) (hg : g < a.size) : a.close? g = some (a.close g) := by
  rw [close?, draft?_of_lt hg, close]
  by_cases hbare : (a.draft g).isBareShadow = true
  · obtain ⟨_, y, hy⟩ := (Draft.isBareShadow_iff _).1 hbare
    have hclosed := update?_of_founded hg (h.update g (f := ({ · with discarded := true }))
      fun _ => rfl)
    simp [hbare, hclosed, hy]
  · simp [hbare]

/-! ### The conjunctive sweep -/

namespace Sweep

/-- The sweep, if its heads are there. -/
def checked (s : Sweep) : Option Sweep := if ∀ g ∈ s.heads, g < s.arena.size then some s else none

variable {s : Sweep} {head : Nat} {below : List Nat}

theorem checked_of_fits (h : s.Fits b) : s.checked = some s :=
  if_pos fun g hg => (h.heads g hg).2

def start? (s : Sweep) (x : Item) (shadow : Bool) : Option Sweep := do
  let opened ← s.arena.openGroup? x shadow
  checked ⟨opened, s.arena.size :: s.heads⟩

theorem start?_of_fits (h : s.Fits b) (hx : b.Valid x) (shadow : Bool) :
    s.start? x shadow = some (s.start x shadow) := by
  rw [start?, openGroup?_of_valid h.founded (h.valid hx)]
  exact checked_of_fits (h.start hx shadow)

def extend? (s : Sweep) (head : Nat) (x : Item) : Option Sweep := do
  let span ← s.arena.span? x
  let stretched ← s.arena.stretch? head span.stop
  let joined ← stretched.adopt? head x
  start? { s with arena := joined } x true

theorem extend?_of_fits (h : s.Fits b) (hx : b.Valid x) (hhead : head ∈ s.heads) :
    s.extend? head x = some (s.extend head x) := by
  obtain ⟨hle, hlt⟩ := h.heads head hhead
  have hadopt := adopt?_of_under (h.founded.stretch head (s.arena.span x).stop)
    (by rwa [size_stretch]) (hx.under h.candidates hle)
  simp only [extend?, span?_of_valid (h.valid hx), stretch?_of_lt h.founded hlt, hadopt,
    Option.bind_eq_bind, Option.bind_some]
  exact start?_of_fits (h.takeIn hx hhead _) hx true

def enclose? (s : Sweep) (head : Nat) (below : List Nat) (x : Item) : Option Sweep := do
  let (closed, inner) ← s.arena.close? head
  let opened ← closed.openGroup? x false
  let span ← opened.span? inner
  let widened ← opened.widen? closed.size span
  let joined ← widened.adopt? closed.size inner
  checked ⟨joined, closed.size :: below⟩

theorem enclose?_of_fits (h : s.Fits b) (hx : b.Valid x) (hheads : s.heads = head :: below) :
    s.enclose? head below x = some (s.enclose head below x) := by
  obtain ⟨_, hlt⟩ := h.heads head (hheads ▸ List.mem_cons_self)
  have hclose := h.close head
  have hinner := h.founded.valid_close hlt
  have hfits := h.enclose hx hheads
  rw [enclose?, close?_of_lt h.founded hlt]
  unfold enclose at hfits ⊢
  generalize s.arena.close head = closed at *
  obtain ⟨c, inner⟩ := closed
  dsimp only at *
  have hvalid : c.Valid x := hclose.valid hx
  have hopened := hclose.founded.openGroup hvalid false
  have hlt : c.size < (c.openGroup x false).size := by
    rw [size_openGroup]
    exact Nat.lt_succ_self c.size
  have hinner' : (c.openGroup x false).Valid inner :=
    hinner.mono (c.candidates_openGroup x false) (Nat.le_of_lt hlt)
  have hwidened := hopened.widen c.size ((c.openGroup x false).span inner)
  have hadopt := adopt?_of_under hwidened (x := inner) (by rwa [size_widen])
    (hinner.under (c.candidates_openGroup x false) (Nat.le_refl _))
  simp only [openGroup?_of_valid hclose.founded hvalid, span?_of_valid hinner',
    widen?_of_lt hopened hlt, hadopt, Option.bind_eq_bind, Option.bind_some]
  exact checked_of_fits hfits

def step? (s : Sweep) (x : Item) : Option Sweep := do
  let span ← s.arena.span? x
  match s.heads with
  | [] => s.start? x false
  | head :: below =>
    let d ← s.arena.draft? head
    if d.span.stop < span.start then start? { s with heads := below } x false
    else if d.span.stop < span.stop then s.extend? head x
    else s.enclose? head below x

theorem step?_of_fits (h : s.Fits b) (hx : b.Valid x) : s.step? x = some (s.step x) := by
  simp only [step?, span?_of_valid (h.valid hx), Option.bind_eq_bind, Option.bind_some]
  cases hheads : s.heads with
  | nil =>
    rw [step_nil hheads]
    exact start?_of_fits h hx false
  | cons head below =>
    have hhead : head ∈ s.heads := hheads ▸ List.mem_cons_self
    rw [step_cons hheads]
    simp only [draft?_of_lt (h.heads head hhead).2, Option.bind_some]
    split
    · exact start?_of_fits (h.dropHead hheads) hx false
    · split
      · exact extend?_of_fits h hx hhead
      · exact enclose?_of_fits h hx hheads

theorem foldlM_step? (h : s.Fits b) (hitems : ∀ x ∈ items, b.Valid x) :
    items.foldlM step? s = some (items.foldl step s) := by
  refine foldlM_eq_some (P := Fits b) (fun s hs x hx => ⟨?_, ?_⟩) h
  · exact step?_of_fits hs (hitems x hx)
  · exact hs.step (hitems x hx)

end Sweep

/-! ### The disjunctive sweep -/

namespace Union

/-- The sweep, if the growing group is there. -/
def checked (u : Union) : Option Union := if ∀ g ∈ u.current, g < u.arena.size then some u else none

variable {u : Union}

theorem checked_of_fits (h : u.Fits b) : u.checked = some u :=
  if_pos fun g hg => (h.current g hg).2

def fresh? (u : Union) (x : Item) : Option Union := do
  let opened ← u.arena.openGroup? x false
  checked ⟨opened, some u.arena.size⟩

theorem fresh?_of_fits (h : u.Fits b) (hx : b.Valid x) :
    u.fresh? x = some ⟨u.arena.openGroup x false, some u.arena.size⟩ := by
  rw [fresh?, openGroup?_of_valid h.founded (h.valid hx)]
  exact checked_of_fits (h.fresh hx)

def join? (u : Union) (g : Nat) (stop : Int64) (x : Item) : Option Union := do
  let stretched ← u.arena.stretch? g stop
  let joined ← stretched.adopt? g x
  checked ⟨joined, some g⟩

theorem join?_of_fits (h : u.Fits b) (hx : b.Valid x) (hg : g ∈ u.current) (stop : Int64) :
    u.join? g stop x = some ⟨(u.arena.stretch g stop).adopt g x, some g⟩ := by
  obtain ⟨hle, hlt⟩ := h.current g hg
  have hadopt := adopt?_of_under (h.founded.stretch g stop) (by rwa [size_stretch])
    (hx.under h.candidates hle)
  simp only [join?, stretch?_of_lt h.founded hlt, hadopt, Option.bind_eq_bind, Option.bind_some]
  exact checked_of_fits (h.takeIn hx hg stop)

def step? (u : Union) (x : Item) : Option Union := do
  let span ← u.arena.span? x
  match u.current with
  | none => u.fresh? x
  | some g =>
    let d ← u.arena.draft? g
    if span.start ≤ d.span.stop then u.join? g (max d.span.stop span.stop) x else u.fresh? x

theorem step?_of_fits (h : u.Fits b) (hx : b.Valid x) : u.step? x = some (u.step x) := by
  simp only [step?, step, span?_of_valid (h.valid hx), Option.bind_eq_bind, Option.bind_some]
  cases hcurrent : u.current with
  | none => exact fresh?_of_fits h hx
  | some g =>
    simp only [draft?_of_lt (h.current g hcurrent).2, Option.bind_some]
    split
    · exact join?_of_fits h hx hcurrent _
    · exact fresh?_of_fits h hx

theorem foldlM_step? (h : u.Fits b) (hitems : ∀ x ∈ items, b.Valid x) :
    items.foldlM step? u = some (items.foldl step u) := by
  refine foldlM_eq_some (P := Fits b) (fun u hu x hx => ⟨?_, ?_⟩) h
  · exact step?_of_fits hu (hitems x hx)
  · exact hu.step (hitems x hx)

end Union

/-! ### Collecting the results -/

/-- Collect what one more group stands for. -/
def collectOne? (p : Arena × List Item) (g : Nat) : Option (Arena × List Item) := do
  let _ ← p.1.draft? g
  match p.1.result? g with
  | none => some p
  | some r =>
    let freed ← p.1.markFree? r
    some (freed, p.2 ++ [r])

theorem collectOne?_of_lt (h : a.Founded) (hg : g < a.size) (out : List Item) :
    collectOne? (a, out) g = some (match a.result? g with
      | none => (a, out)
      | some r => (a.markFree r, out ++ [r])) := by
  rw [collectOne?, draft?_of_lt hg]
  dsimp only [Option.bind_eq_bind, Option.bind_some]
  cases hr : a.result? g with
  | none => rfl
  | some r =>
    have hvalid : a.Valid r := (h.under_result? hg hr).mono hg
    dsimp only
    rw [markFree?_of_valid h hvalid]
    rfl

theorem draft_foldl_markFree_of_notMem (a : Arena) (h : .group g ∉ items) :
    (items.foldl markFree a).draft g = a.draft g := by
  induction items generalizing a with
  | nil => rfl
  | cons x rest ih =>
    obtain ⟨hx, hrest⟩ := List.ne_and_not_mem_of_not_mem_cons h
    refine (ih (a.markFree x) hrest).trans ?_
    cases x with
    | candidate i => rfl
    | group k =>
      rw [markFree, draft_update, if_neg fun e => hx (congrArg Item.group e.1.symm)]

/-- The results are collected one after the other. What is marked as free for a group does not come
after it, so that the groups that follow are as they were. -/
theorem foldlM_collectOne? (h : a.Founded) (first n : Nat) (hn : first + n ≤ a.size) :
    (List.range' first n).foldlM collectOne? (a, []) =
      some (((List.range' first n).filterMap a.result?).foldl markFree a,
        (List.range' first n).filterMap a.result?) := by
  induction n with
  | zero => rfl
  | succ n ih =>
    let out := (List.range' first n).filterMap a.result?
    have hlater : .group (first + n) ∉ out := by
      intro hm
      obtain ⟨k, hk, hr⟩ := List.mem_filterMap.1 hm
      rw [List.mem_range'_1] at hk
      have hunder : first + n < k + 1 := h.under_result? (by omega) hr
      omega
    have hdraft : (out.foldl Arena.markFree a).draft (first + n) = a.draft (first + n) :=
      a.draft_foldl_markFree_of_notMem hlater
    rw [List.range'_1_concat, List.foldlM_append, ih (by omega), List.filterMap_append]
    simp only [List.foldlM_cons, List.foldlM_nil, Option.bind_eq_bind, Option.bind_some]
    rw [collectOne?_of_lt (h.foldl_markFree _) (by rw [size_foldl_markFree]; omega),
      result?_congr hdraft]
    cases hr : a.result? (first + n) with
    | none => simp [hr]
    | some r => simp [hr]

/-- The results of the groups from place `first` on, if they are there and no two are the same. -/
def collect? (a : Arena) (first : Nat) : Option (Arena × List Item) := do
  let (freed, out) ← (List.range' first (a.size - first)).foldlM collectOne? (a, [])
  if out.Nodup ∧ ∀ x ∈ out, freed.Valid x then some (freed, out) else none

theorem collect?_of_nodup (h : a.Founded) {first : Nat} (hfirst : first ≤ a.size)
    (hnodup : (a.results first).Nodup) : a.collect? first = some (a.collect first) := by
  rw [collect?, foldlM_collectOne? h first _ (by omega)]
  exact if_pos ⟨hnodup, (h.collect first).valid⟩

/-! ### Merges and evaluations -/

/-- The items in order, if they are there. -/
def sorted? (a : Arena) (items : List Item) : Option (List Item) := do
  let _ ← items.mapM a.span?
  some (a.sorted items)

theorem sorted?_of_supports (h : a.Supports items) : a.sorted? items = some (a.sorted items) := by
  rw [sorted?, mapM_eq_some fun x hx => span?_of_valid (h.valid x hx)]
  rfl

def merge? (a : Arena) (op : Operator) (left right : List Item) : Option (Arena × List Item) := do
  let items ← a.sorted? (left ++ right)
  match op with
  | .and =>
    let s ← items.foldlM Sweep.step? ⟨a, []⟩
    s.arena.collect? a.size
  | .or =>
    let u ← items.foldlM Union.step? ⟨a, none⟩
    u.arena.collect? a.size

theorem merge?_of_supports (h : a.Supports (left ++ right)) (op : Operator) :
    a.merge? op left right = some (a.merge op left right) := by
  have hholds : ∀ x ∈ left ++ right, a.Holds x := fun x hx => (h.valid x hx).holds
  simp only [merge?, sorted?_of_supports h, Option.bind_eq_bind, Option.bind_some]
  cases op with
  | and =>
    have hfits := (Sweep.fits_start h.founded).foldl h.sorted
    simp only [Sweep.foldlM_step? (Sweep.fits_start h.founded) h.sorted, Option.bind_some]
    exact collect?_of_nodup hfits.founded hfits.size_le (layer_andSweep a hholds).nodup_results
  | or =>
    have hfits := (Union.fits_start h.founded).foldl h.sorted
    simp only [Union.foldlM_step? (Union.fits_start h.founded) h.sorted, Option.bind_some]
    exact collect?_of_nodup hfits.founded hfits.size_le (layer_orSweep a hholds).nodup_results

/-- The items that an expression leaves, if those that its leaves select are there. -/
def evaluate? (a : Arena) : Expression → Option (Arena × List Item)
  | .leaf stem => if ∀ x ∈ a.select stem, a.Valid x then some (a, a.select stem) else none
  | .join op l r => do
    let (a, left) ← a.evaluate? l
    let (a, right) ← a.evaluate? r
    a.merge? op left right

/-- In a founded arena an evaluation never stops. -/
theorem evaluate?_eq (e : Expression) (h : a.Founded) : a.evaluate? e = some (a.evaluate e) := by
  induction e generalizing a with
  | leaf stem => exact if_pos (supports_select h stem).valid
  | join op l r ihl ihr =>
    have hl := supports_evaluate l h
    have hr := supports_evaluate r hl.founded
    have happend := hl.append hr (pass_evaluate r hl.founded.ranked)
    simp only [evaluate?, ihl h, ihr hl.founded, Option.bind_eq_bind, Option.bind_some]
    exact merge?_of_supports happend op

end Outlier.Arena
