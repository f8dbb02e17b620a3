/-! # Tables keyed by name

A `Table β` maps finitely many names to values of `β`. It holds its entries in strictly
ascending key order, so two tables with the same entries are equal and every listing of a
table is in key order. Keys are compared character by character, by code point.

`NameSet` is the same container without values: a finite set of names in ascending order. -/

namespace Outlier

universe u

/-- A finite map from names to values, listed in strictly ascending key order. -/
structure Table (β : Type u) where
  /-- The keys with their values. -/
  entries : List (String × β)
  ascending : entries.Pairwise (fun a b => a.1 < b.1)

namespace Table

variable {β : Type u}

instance [DecidableEq β] : DecidableEq (Table β) := fun a b =>
  decidable_of_iff (a.entries = b.entries) (by cases a; cases b; simp)

/-- The table without entries. -/
def empty : Table β := ⟨[], .nil⟩

instance : EmptyCollection (Table β) := ⟨empty⟩
instance : Inhabited (Table β) := ⟨empty⟩

/-- Put a value under a key in an ascending list of entries; an entry of that key is replaced. -/
def put (key : String) (value : β) : List (String × β) → List (String × β)
  | [] => [(key, value)]
  | (k, v) :: rest =>
    if key < k then (key, value) :: (k, v) :: rest
    else if k < key then (k, v) :: put key value rest
    else (key, value) :: rest

theorem key_of_mem_put {key : String} {value : β} {p : String × β} :
    ∀ {l : List (String × β)}, p ∈ put key value l → p.1 = key ∨ p ∈ l
  | [], h => by simp only [put, List.mem_singleton] at h; exact .inl (by rw [h])
  | (k, v) :: rest, h => by
    unfold put at h
    split at h
    · rcases List.mem_cons.1 h with rfl | h
      · exact .inl rfl
      · exact .inr h
    · split at h
      · rcases List.mem_cons.1 h with rfl | h
        · exact .inr (.head _)
        · exact (key_of_mem_put h).imp_right (.tail _)
      · rcases List.mem_cons.1 h with rfl | h
        · exact .inl rfl
        · exact .inr (.tail _ h)

theorem ascending_put {key : String} {value : β} :
    ∀ {l : List (String × β)}, l.Pairwise (fun a b => a.1 < b.1) →
      (put key value l).Pairwise (fun a b => a.1 < b.1)
  | [], _ => by simp [put]
  | (k, v) :: rest, h => by
    have hk := (List.pairwise_cons.1 h).1
    have hr := (List.pairwise_cons.1 h).2
    unfold put
    split
    next hlt =>
      refine List.pairwise_cons.2 ⟨fun p hp => ?_, h⟩
      rcases List.mem_cons.1 hp with rfl | hp
      · exact hlt
      · exact String.lt_trans hlt (hk p hp)
    next hlt =>
      split
      next hgt =>
        refine List.pairwise_cons.2 ⟨fun p hp => ?_, ascending_put hr⟩
        rcases key_of_mem_put hp with e | hp
        · exact e ▸ hgt
        · exact hk p hp
      next hgt =>
        have e : k = key := String.le_antisymm (String.not_lt.1 hlt) (String.not_lt.1 hgt)
        exact List.pairwise_cons.2 ⟨fun p hp => e ▸ hk p hp, hr⟩

/-- The table with `value` at `key`, whatever was there before. -/
def insert (t : Table β) (key : String) (value : β) : Table β :=
  ⟨put key value t.entries, ascending_put t.ascending⟩

/-- The value at `key`. -/
def get? (t : Table β) (key : String) : Option β := t.entries.lookup key

/-- The table of a list of entries, in which the last entry of a key counts. -/
def ofList (l : List (String × β)) : Table β := l.foldl (fun t p => t.insert p.1 p.2) ∅

/-- The keys in ascending order. -/
def keys (t : Table β) : List String := t.entries.map Prod.fst

/-- Is there no entry? -/
def isEmpty (t : Table β) : Bool := t.entries.isEmpty

/-! ### Entries -/

theorem ext {s t : Table β} (h : s.entries = t.entries) : s = t := by
  cases s
  cases t
  cases h
  rfl

@[simp] theorem entries_empty : (∅ : Table β).entries = [] := rfl

theorem put_of_forall_lt {key : String} {value : β} {l : List (String × β)}
    (h : ∀ p ∈ l, p.1 < key) : put key value l = l ++ [(key, value)] := by
  induction l with
  | nil => rfl
  | cons p l ih =>
    have hp := h p (List.mem_cons_self ..)
    simp [put, String.lt_asymm hp, hp, ih fun q hq => h q (List.mem_cons_of_mem _ hq)]

theorem entries_foldl_insert {l : List (String × β)} {t : Table β}
    (h : (t.entries ++ l).Pairwise (fun a b => a.1 < b.1)) :
    (l.foldl (fun t p => t.insert p.1 p.2) t).entries = t.entries ++ l := by
  induction l generalizing t with
  | nil => simp
  | cons p l ih =>
    have hp : ∀ q ∈ t.entries, q.1 < p.1 := fun q hq =>
      (List.pairwise_append.1 h).2.2 q hq p (List.mem_cons_self ..)
    have he : (t.insert p.1 p.2).entries = t.entries ++ [p] := put_of_forall_lt hp
    rw [List.foldl_cons, ih (by rw [he]; simpa using h), he]
    simp

@[simp] theorem ofList_entries (t : Table β) : ofList t.entries = t :=
  ext (entries_foldl_insert (by simpa using t.ascending))

/-! ### Look-up -/

@[simp] theorem get?_empty (k : String) : (∅ : Table β).get? k = none := rfl

end Table

/-- A finite set of names in ascending order. -/
abbrev NameSet := Table Unit

namespace NameSet

/-- The names of the set in ascending order. -/
def names (s : NameSet) : List String := s.keys

/-- The set with one more name. -/
def add (s : NameSet) (name : String) : NameSet := s.insert name ()

/-- The set of the names in a list. -/
def ofNames (l : List String) : NameSet := l.foldl add ∅

/-- Is the name in the set? -/
def has (s : NameSet) (name : String) : Bool := (s.get? name).isSome

/-- Is every name of `s` in `t`? -/
def subset (s t : NameSet) : Bool := s.names.all t.has

@[simp] theorem ofNames_names (s : NameSet) : ofNames s.names = s := by
  have h := s.ofList_entries
  have e : s.entries = s.names.map (·, ()) := by
    rw [names, Table.keys, List.map_map]
    exact (List.map_id s.entries).symm
  rwa [Table.ofList, e, List.foldl_map] at h

end NameSet
end Outlier
