import Outlier.Proofs.Grouping.Sweep

/-! # Links of a conjunctive merge

The conjunctive merge reads its items in the order of their starts and keeps in mind how far the
items of the run reach. An item opens a run, is a record, which reaches further, or is enclosed by
what came before (`Role`). Each item that is not enclosed leads a link, with the items it encloses
and the record after them (`Link`). So the links of a run hang together by its records, and two
links have nothing else in common (`shared_of_split`). -/

namespace Outlier.Arena

variable {a : Arena} {x y : Item}

/-! ### Roles -/

/-- What an item is for the run. -/
inductive Role where
  /-- It starts after the run has ended, and opens the next one. -/
  | opening
  /-- It starts within the run and ends after it. -/
  | record
  | enclosed
  deriving DecidableEq

/-- The role of the next item, where the run ends at `reach`. -/
def role (a : Arena) (reach : Option Int64) (x : Item) : Role :=
  match reach with
  | none => .opening
  | some stop =>
    if stop < (a.span x).start then .opening
    else if stop < (a.span x).stop then .record
    else .enclosed

/-- The end of the run after the next item. -/
def nextReach (a : Arena) (reach : Option Int64) (x : Item) : Option Int64 :=
  match a.role reach x with
  | .opening | .record => some (a.span x).stop
  | .enclosed => reach

/-- The items with their roles. -/
def roles (a : Arena) : Option Int64 → List Item → List (Item × Role)
  | _, [] => []
  | reach, x :: rest => (x, a.role reach x) :: a.roles (a.nextReach reach x) rest

theorem roles_concat (a : Arena) (reach : Option Int64) (items : List Item) (x : Item) :
    a.roles reach (items ++ [x]) =
      a.roles reach items ++ [(x, a.role (items.foldl a.nextReach reach) x)] := by
  induction items generalizing reach with
  | nil => rfl
  | cons y rest ih => exact congrArg ((y, a.role reach y) :: ·) (ih _)

theorem map_fst_roles (a : Arena) (reach : Option Int64) (items : List Item) :
    (a.roles reach items).map Prod.fst = items := by
  induction items generalizing reach with
  | nil => rfl
  | cons y rest ih => exact congrArg (y :: ·) (ih _)

theorem dropWhile_roles (a : Arena) (items : List Item) :
    (a.roles none items).dropWhile (·.2 = .enclosed) = a.roles none items := by
  cases items <;> rfl

/-! ### Links -/

/-- An item that is not enclosed, and what comes with it. -/
structure Link where
  lead : Item
  role : Role
  /-- The items after it, up to the next one that is not enclosed. -/
  enclosed : List Item
  /-- That one, if it is a record. -/
  closing : Option Item
  deriving DecidableEq

namespace Link

/-- The lead and the enclosed items; every item belongs to one link in this way. -/
def own (k : Link) : List Item := k.lead :: k.enclosed

/-- All items of the link. -/
def items (k : Link) : List Item := k.own ++ k.closing.toList

/-- The link of a record that nothing follows in its run. -/
def isBare (k : Link) : Bool := k.role = .record && k.enclosed.isEmpty && k.closing.isNone

/-- The lead, if it is a record. -/
def record? (k : Link) : Option Item := if k.role = .record then some k.lead else none

theorem isBare_iff {k : Link} :
    k.isBare = true ↔ (k.role = .record ∧ k.enclosed = []) ∧ k.closing = none := by
  simp [isBare]

theorem record?_eq_some {k : Link} : k.record? = some x ↔ k.role = .record ∧ k.lead = x := by
  unfold record?
  split
  next h => simp [h]
  next h => simp [h]

/-- The last link when one more item has come. -/
def follow (k : Link) : Item × Role → Link
  | (_, .opening) => k
  | (x, .record) => { k with closing := some x }
  | (x, .enclosed) => { k with enclosed := k.enclosed ++ [x] }

end Link

/-- The link that an item leads, when the other items come after it. -/
def linkOf (p : Item × Role) (rest : List (Item × Role)) : Link where
  lead := p.1
  role := p.2
  enclosed := (rest.takeWhile (·.2 = .enclosed)).map Prod.fst
  closing := (rest.find? (·.2 ≠ .enclosed)).bind fun q => if q.2 = .record then some q.1 else none

/-- The links of items with their roles. -/
def linksOf : List (Item × Role) → List Link
  | [] => []
  | p :: rest => if p.2 = .enclosed then linksOf rest else linkOf p rest :: linksOf rest

/-- The links of the items of a merge. -/
def links (a : Arena) (items : List Item) : List Link := linksOf (a.roles none (a.sorted items))

section

variable {l l' : List (Item × Role)} {p q : Item × Role} {ks before between after : List Link}
  {k k' : Link}

theorem linksOf_cons_of_enclosed (h : p.2 = .enclosed) (l : List (Item × Role)) :
    linksOf (p :: l) = linksOf l := if_pos h

theorem linksOf_cons (h : p.2 ≠ .enclosed) (l : List (Item × Role)) :
    linksOf (p :: l) = linkOf p l :: linksOf l := if_neg h

theorem linksOf_append_of_enclosed (h : ∀ q ∈ l, q.2 = .enclosed) (l' : List (Item × Role)) :
    linksOf (l ++ l') = linksOf l' := by
  induction l with
  | nil => rfl
  | cons p rest ih =>
    rw [List.cons_append, linksOf_cons_of_enclosed (h p List.mem_cons_self)]
    exact ih fun q hq => h q (List.mem_cons_of_mem p hq)

theorem enclosed_of_linksOf_eq_nil (h : linksOf l = []) : ∀ q ∈ l, q.2 = .enclosed := by
  induction l with
  | nil => exact nofun
  | cons p rest ih =>
    by_cases hp : p.2 = .enclosed
    · rw [linksOf_cons_of_enclosed hp] at h
      exact List.forall_mem_cons.2 ⟨hp, ih h⟩
    · rw [linksOf_cons hp] at h
      cases h

theorem linkOf_cons_of_enclosed (hq : q.2 = .enclosed) (p : Item × Role)
    (l : List (Item × Role)) :
    linkOf p (q :: l) = { linkOf p l with enclosed := q.1 :: (linkOf p l).enclosed } := by
  simp [linkOf, hq]

theorem linkOf_cons (hq : q.2 ≠ .enclosed) (p : Item × Role) (l : List (Item × Role)) :
    linkOf p (q :: l) =
      { lead := p.1, role := p.2, enclosed := []
        closing := if q.2 = .record then some q.1 else none } := by
  simp [linkOf, hq]

/-- What comes after the next item that is not enclosed does not belong to the link. -/
theorem linkOf_append (h : linksOf l ≠ []) (p : Item × Role) (l' : List (Item × Role)) :
    linkOf p (l ++ l') = linkOf p l := by
  induction l with
  | nil => exact absurd rfl h
  | cons q rest ih =>
    rw [List.cons_append]
    by_cases hq : q.2 = .enclosed
    · rw [linksOf_cons_of_enclosed hq] at h
      rw [linkOf_cons_of_enclosed hq, linkOf_cons_of_enclosed hq, ih h]
    · rw [linkOf_cons hq, linkOf_cons hq]

/-- While only enclosed items have come, the next item goes to the link. -/
theorem linkOf_concat (h : ∀ q ∈ l, q.2 = .enclosed) (p q : Item × Role) :
    linkOf p (l ++ [q]) = (linkOf p l).follow q := by
  induction l with
  | nil =>
    obtain ⟨x, role⟩ := q
    cases role <;> rfl
  | cons r rest ih =>
    obtain ⟨hr, hrest⟩ := List.forall_mem_cons.1 h
    rw [List.cons_append, linkOf_cons_of_enclosed hr, linkOf_cons_of_enclosed hr, ih hrest]
    obtain ⟨x, role⟩ := q
    cases role <;> rfl

/-- One more item goes to the last link, and leads the next one if it is not enclosed. -/
theorem linksOf_concat (h : linksOf l = ks ++ [k]) (p : Item × Role) :
    linksOf (l ++ [p]) = ks ++ k.follow p :: linksOf [p] := by
  induction l generalizing ks with
  | nil => exact absurd h.symm (List.append_ne_nil_of_right_ne_nil _ (List.cons_ne_nil _ _))
  | cons q rest ih =>
    rw [List.cons_append]
    by_cases hq : q.2 = .enclosed
    · rw [linksOf_cons_of_enclosed hq] at h ⊢
      exact ih h
    · rw [linksOf_cons hq] at h ⊢
      cases ks with
      | nil =>
        obtain ⟨rfl, hrest⟩ := List.cons.inj h
        have henclosed := enclosed_of_linksOf_eq_nil hrest
        rw [linkOf_concat henclosed, linksOf_append_of_enclosed henclosed]
        rfl
      | cons first ks =>
        obtain ⟨rfl, hrest⟩ := List.cons.inj h
        have hne : linksOf rest ≠ [] := by
          rw [hrest]
          exact List.append_ne_nil_of_right_ne_nil _ (List.cons_ne_nil _ _)
        rw [linkOf_append hne, ih hrest]
        rfl

/-! ### What links have in common -/

theorem map_lead (l : List (Item × Role)) :
    (linksOf l).map (fun k => (k.lead, k.role)) = l.filter (·.2 ≠ .enclosed) := by
  induction l with
  | nil => rfl
  | cons p rest ih =>
    by_cases hp : p.2 = .enclosed
    · rw [linksOf_cons_of_enclosed hp, ih]
      simp [hp]
    · rw [linksOf_cons hp, List.map_cons, ih]
      simp [hp, linkOf]

/-- Every item from the first link on belongs to one link as its own. -/
theorem flatMap_own (l : List (Item × Role)) :
    (linksOf l).flatMap Link.own = (l.dropWhile (·.2 = .enclosed)).map Prod.fst := by
  induction l with
  | nil => rfl
  | cons p rest ih =>
    by_cases hp : p.2 = .enclosed
    · rw [linksOf_cons_of_enclosed hp, ih]
      simp [hp]
    · rw [linksOf_cons hp, List.flatMap_cons, ih]
      simp only [Link.own, linkOf, List.cons_append, ← List.map_append,
        List.takeWhile_append_dropWhile]
      simp [hp]

theorem closing_linkOf (p : Item × Role) (l : List (Item × Role)) :
    (linkOf p l).closing = (linksOf l).head?.bind Link.record? := by
  induction l with
  | nil => rfl
  | cons q rest ih =>
    by_cases hq : q.2 = .enclosed
    · rw [linksOf_cons_of_enclosed hq, ← ih]
      simp [linkOf, hq]
    · rw [linksOf_cons hq]
      simp [linkOf, Link.record?, hq]

theorem closing_of_split (h : linksOf l = before ++ k :: after) :
    k.closing = after.head?.bind Link.record? := by
  induction l generalizing before with
  | nil => exact absurd h.symm (List.append_ne_nil_of_right_ne_nil _ (List.cons_ne_nil _ _))
  | cons p rest ih =>
    by_cases hp : p.2 = .enclosed
    · rw [linksOf_cons_of_enclosed hp] at h
      exact ih h
    · rw [linksOf_cons hp] at h
      cases before with
      | nil =>
        obtain ⟨rfl, rfl⟩ := List.cons.inj h
        exact closing_linkOf p rest
      | cons _ before =>
        obtain ⟨-, hrest⟩ := List.cons.inj h
        exact ih hrest

/-- An item of a link is its own or leads the next one, and is a record then. -/
theorem own_or_next (h : linksOf l = before ++ k :: after) (hx : x ∈ k.items) :
    x ∈ k.own ∨ ∃ next rest, after = next :: rest ∧ next.role = .record ∧ next.lead = x := by
  refine (List.mem_append.1 hx).imp_right fun hclosing => ?_
  rw [Option.mem_toList, closing_of_split h] at hclosing
  cases after with
  | nil => cases hclosing
  | cons next rest => exact ⟨next, rest, rfl, Link.record?_eq_some.1 hclosing⟩

theorem flatMap_own_sublist (l : List (Item × Role)) :
    ((linksOf l).flatMap Link.own).Sublist (l.map Prod.fst) := by
  rw [flatMap_own]
  exact (List.dropWhile_sublist _).map _

theorem mem_of_mem_items (hk : k ∈ linksOf l) (hx : x ∈ k.items) : x ∈ l.map Prod.fst := by
  have hown {k : Link} (hk : k ∈ linksOf l) {x : Item} (hx : x ∈ k.own) : x ∈ l.map Prod.fst :=
    (flatMap_own_sublist l).subset (List.mem_flatMap.2 ⟨k, hk, hx⟩)
  obtain ⟨before, after, h⟩ := List.append_of_mem hk
  obtain hx | ⟨next, rest, rfl, -, rfl⟩ := own_or_next h hx
  · exact hown hk hx
  · exact hown (k := next) (by simp [h]) List.mem_cons_self

/-- No item is the own item of two links, or twice of one. -/
theorem nodup_own (hnodup : (l.map Prod.fst).Nodup) (h : linksOf l = before ++ k :: after) :
    k.own.Nodup ∧ ∀ x ∈ k.own, ∀ k' ∈ after, x ∉ k'.own := by
  have hown := (flatMap_own_sublist l).nodup hnodup
  rw [h, List.flatMap_append, List.flatMap_cons] at hown
  obtain ⟨hk, -, hlater⟩ := List.nodup_append.1 (List.nodup_append.1 hown).2.1
  exact ⟨hk, fun x hx k' hk' hx' => hlater x hx x (List.mem_flatMap.2 ⟨k', hk', hx'⟩) rfl⟩

/-- Two links have an item in common only if they come one after the other, and the item is the
record that leads the second one. -/
theorem shared_of_split (hnodup : (l.map Prod.fst).Nodup)
    (h : linksOf l = before ++ k :: (between ++ k' :: after)) (hx : x ∈ k.items)
    (hx' : x ∈ k'.items) : between = [] ∧ k'.role = .record ∧ x = k'.lead := by
  have hearlier {before between : List Link} {n : Link}
      (h : linksOf l = before ++ n :: (between ++ k' :: after)) : x ∉ n.own := by
    intro hn
    have hsplit : linksOf l = (before ++ n :: between) ++ k' :: after := by simp [h]
    obtain hown | ⟨next, rest, rfl, -, rfl⟩ := own_or_next hsplit hx'
    · exact (nodup_own hnodup h).2 x hn k' (by simp) hown
    · exact (nodup_own hnodup h).2 _ hn next (by simp) List.mem_cons_self
  obtain hown | ⟨next, rest, hnext, hrole, rfl⟩ := own_or_next h hx
  · exact absurd hown (hearlier h)
  · cases between with
    | nil =>
      obtain ⟨rfl, -⟩ := List.cons.inj hnext
      exact ⟨rfl, hrole, rfl⟩
    | cons n between =>
      obtain ⟨rfl, -⟩ := List.cons.inj hnext
      have hsplit : linksOf l = (before ++ [k]) ++ n :: (between ++ k' :: after) := by simp [h]
      exact absurd List.mem_cons_self (hearlier hsplit)

/-! ### Links that are not bare -/

theorem exists_split_filter {α : Type} {p : α → Bool} {l before after : List α} {x : α}
    (h : l.filter p = before ++ x :: after) :
    ∃ before' after', l = before' ++ x :: after' ∧ after'.filter p = after := by
  obtain ⟨l₁, l₂, rfl, -, hl₂⟩ := List.filter_eq_append_iff.1 h
  obtain ⟨l₃, l₄, rfl, -, -, hafter⟩ := List.filter_eq_cons_iff.1 hl₂
  exact ⟨l₁ ++ l₃, l₄, by rw [List.append_assoc], hafter⟩

/-- Two links that are not bare have nothing in common but the record that leads the second one, if
they come one after the other. -/
theorem shared_of_full (hnodup : (l.map Prod.fst).Nodup)
    (h : (linksOf l).filter (!·.isBare) = before ++ k :: (between ++ k' :: after))
    (hx : x ∈ k.items) (hx' : x ∈ k'.items) : between = [] ∧ k'.role = .record ∧ x = k'.lead := by
  obtain ⟨before', rest, hlinks, hrest⟩ := exists_split_filter h
  obtain ⟨l₁, l₂, rfl, hbetween, hl₂⟩ := List.filter_eq_append_iff.1 hrest
  obtain ⟨l₃, l₄, rfl, -, -, -⟩ := List.filter_eq_cons_iff.1 hl₂
  rw [← List.append_assoc] at hlinks
  obtain ⟨hnil, hrecord⟩ := shared_of_split hnodup hlinks hx hx'
  obtain ⟨rfl, -⟩ := List.append_eq_nil_iff.1 hnil
  exact ⟨hbetween.symm, hrecord⟩

/-- A record that leads a link that is not bare closes the one before. -/
theorem closing_of_full (h : (linksOf l).filter (!·.isBare) = before ++ k :: k' :: after)
    (hrole : k'.role = .record) : k.closing = some k'.lead := by
  obtain ⟨before', rest, hlinks, hrest⟩ := exists_split_filter h
  obtain ⟨between, after', rfl, hbare, -, -⟩ := List.filter_eq_cons_iff.1 hrest
  rcases List.eq_nil_or_concat between with rfl | ⟨between, m, rfl⟩
  · rw [closing_of_split hlinks]
    exact Link.record?_eq_some.2 ⟨hrole, rfl⟩
  · rw [List.concat_eq_append] at hlinks hbare
    have hsplit : linksOf l = (before' ++ k :: between) ++ m :: (k' :: after') := by simp [hlinks]
    have hclosing : m.closing = some k'.lead := by
      rw [closing_of_split hsplit]
      exact Link.record?_eq_some.2 ⟨hrole, rfl⟩
    have hm : m.isBare = true := by simpa using hbare m (by simp)
    rw [(Link.isBare_iff.1 hm).2] at hclosing
    cases hclosing

theorem exists_ne_lead (hnodup : (l.map Prod.fst).Nodup) (hk : k ∈ (linksOf l).filter (!·.isBare))
    (hrole : k.role = .record) : ∃ x ∈ k.items, x ≠ k.lead := by
  obtain ⟨hk, hbare⟩ := List.mem_filter.1 hk
  obtain ⟨before, after, h⟩ := List.append_of_mem hk
  obtain ⟨hown, hlater⟩ := nodup_own hnodup h
  cases henclosed : k.enclosed with
  | cons e rest =>
    have he : e ∈ k.enclosed := henclosed ▸ List.mem_cons_self
    refine ⟨e, List.mem_append_left _ (List.mem_cons_of_mem _ he), ?_⟩
    rintro rfl
    exact (List.nodup_cons.1 hown).1 he
  | nil =>
    cases hclosing : k.closing with
    | none => simp [Link.isBare, hrole, henclosed, hclosing] at hbare
    | some x =>
      have hx : x ∈ k.items := List.mem_append_right _ (by simp [hclosing])
      refine ⟨x, hx, ?_⟩
      rw [closing_of_split h] at hclosing
      cases after with
      | nil => cases hclosing
      | cons next after =>
        obtain ⟨-, rfl⟩ := Link.record?_eq_some.1 hclosing
        intro heq
        exact hlater k.lead List.mem_cons_self next List.mem_cons_self (heq ▸ List.mem_cons_self)

end

/-! ### The links of a merge -/

section

variable (a : Arena) (items : List Item)

theorem nodup_map_fst_roles : ((a.roles none (a.sorted items)).map Prod.fst).Nodup := by
  rw [map_fst_roles]
  exact a.nodup_sorted items

theorem flatMap_own_links : (a.links items).flatMap Link.own = a.sorted items := by
  rw [links, flatMap_own, dropWhile_roles, map_fst_roles]

variable {a items}

theorem mem_of_mem_links {k : Link} (hk : k ∈ a.links items) (hx : x ∈ k.items) : x ∈ items := by
  have hsorted := mem_of_mem_items hk hx
  rw [map_fst_roles] at hsorted
  exact mem_sorted.1 hsorted

end

end Outlier.Arena
