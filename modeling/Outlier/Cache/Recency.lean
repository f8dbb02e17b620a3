import Outlier.Slice

/-! # Entries in order of recency

The entries of a cache, each under its own slice, from the most to the least recently used. Putting
an entry in and touching one move it to the front; an entry that is put into a full map pushes out
the last one. Looking through the map moves nothing. -/

namespace Outlier

/-- The anomalies of a slice and the time of their last use. -/
structure Entry where
  anomalies : List Anomaly
  lastAccess : Nat

/-- Was the entry used within the last `ttl` milliseconds? -/
def Entry.isFresh (e : Entry) (now ttl : Nat) : Bool := now - e.lastAccess < ttl

/-- Entries from the most to the least recently used, at most `capacity` of them. -/
structure Recency where
  capacity : Nat
  entries : List (Slice × Entry) := []

namespace Recency

variable (r : Recency)

/-- The number of entries. -/
def size : Nat := r.entries.length

/-- The entry of a slice. -/
def get? (s : Slice) : Option Entry := r.entries.lookup s

/-- The entries without that of a slice. -/
def erase (s : Slice) : Recency := { r with entries := r.entries.filter (·.1 ≠ s) }

/-- Put an entry in front; a full map loses its last entry. -/
def push (s : Slice) (e : Entry) : Recency :=
  { r with entries := ((s, e) :: (r.erase s).entries).take r.capacity }

/-- Note a use of the entry of a slice. -/
def touch (s : Slice) (now : Nat) : Recency :=
  match r.get? s with
  | some e => { r with entries := (s, { e with lastAccess := now }) :: (r.erase s).entries }
  | none => r

/-- The most recently used fresh entry whose slice contains `s`. -/
def container? (s : Slice) (now ttl : Nat) : Option (Slice × Entry) :=
  r.entries.find? fun (k, e) => e.isFresh now ttl && k.contains s

/-- The slices whose entries are expired. -/
def expired (now ttl : Nat) : List Slice :=
  (r.entries.filter (!·.2.isFresh now ttl)).map Prod.fst

/-- The entries without those of several slices, which go one after the other. -/
def eraseAll (slices : List Slice) : Recency := slices.foldl erase r

/-- The entries without the least recently used one. -/
def dropLast : Recency := { r with entries := r.entries.dropLast }

/-- Drop the least recently used entry, again and again while there are more than `limit`, and
count how many went. -/
def shrink (r : Recency) (limit : Nat) : Nat × Recency :=
  if limit < r.size then
    let (n, rest) := r.dropLast.shrink limit
    (n + 1, rest)
  else (0, r)
termination_by r.size
decreasing_by
  simp only [size, dropLast, List.length_dropLast] at *
  omega

/-- No entries. -/
def cleared : Recency := { r with entries := [] }

/-! ### Size and capacity

No operation changes the capacity, and `push` keeps to it. -/

@[simp] theorem capacity_push (s : Slice) (e : Entry) : (r.push s e).capacity = r.capacity := rfl

@[simp] theorem capacity_touch (s : Slice) (now : Nat) :
    (r.touch s now).capacity = r.capacity := by
  unfold touch
  split <;> rfl

theorem size_push_le (s : Slice) (e : Entry) : (r.push s e).size ≤ r.capacity :=
  List.length_take_le ..

theorem size_erase_le (s : Slice) : (r.erase s).size ≤ r.size := List.length_filter_le ..

/-! ### Entries

No operation makes up an entry: what is there afterwards was there before or was just put in, and
touching an entry changes the time of its last use alone. -/

theorem mem_of_get? {s : Slice} {e : Entry} (h : r.get? s = some e) : (s, e) ∈ r.entries := by
  obtain ⟨l, l', he, -⟩ := List.lookup_eq_some_iff.1 h
  rw [he]
  exact List.mem_append_right _ (List.mem_cons_self ..)

theorem mem_of_mem_erase {s : Slice} {p : Slice × Entry} (h : p ∈ (r.erase s).entries) :
    p ∈ r.entries :=
  (List.mem_filter.1 h).1

theorem mem_of_mem_push {s : Slice} {e : Entry} {p : Slice × Entry}
    (h : p ∈ (r.push s e).entries) : p = (s, e) ∨ p ∈ r.entries :=
  (List.mem_cons.1 (List.mem_of_mem_take h)).imp_right r.mem_of_mem_erase

theorem mem_of_mem_touch {s : Slice} {now : Nat} {p : Slice × Entry}
    (h : p ∈ (r.touch s now).entries) :
    ∃ e, (p.1, e) ∈ r.entries ∧ e.anomalies = p.2.anomalies := by
  unfold touch at h
  split at h
  next e he =>
    rcases List.mem_cons.1 h with rfl | h
    · exact ⟨e, r.mem_of_get? he, rfl⟩
    · exact ⟨p.2, r.mem_of_mem_erase h, rfl⟩
  next => exact ⟨p.2, h, rfl⟩

/-! ### Cleaning up

Slices are dropped together by one filter, and what is left of too many entries is the first of
them. -/

theorem eraseAll_eq (slices : List Slice) :
    r.eraseAll slices = { r with entries := r.entries.filter (·.1 ∉ slices) } := by
  unfold eraseAll
  induction slices generalizing r with
  | nil =>
    have hall : r.entries.filter (·.1 ∉ ([] : List Slice)) = r.entries :=
      List.filter_eq_self.2 fun p _ => by simp
    rw [hall, List.foldl_nil]
  | cons s rest ih =>
    rw [List.foldl_cons, ih]
    simp only [erase, List.filter_filter, List.mem_cons, not_or, Bool.decide_and, ne_eq,
      Bool.and_comm]

theorem shrink_eq (limit : Nat) :
    r.shrink limit = (r.size - limit, { r with entries := r.entries.take limit }) := by
  fun_induction shrink r limit with
  | case1 r hlt n rest heq ih =>
    have hsize : r.dropLast.size = r.size - 1 := List.length_dropLast
    obtain ⟨hn, rfl⟩ := Prod.mk.inj (heq.symm.trans ih)
    refine Prod.ext ?_ ?_
    · show n + 1 = r.size - limit
      omega
    · have hlt' : limit ≤ r.entries.length - 1 := Nat.le_sub_one_of_lt hlt
      simp only [dropLast, List.dropLast_eq_take, List.take_take, Nat.min_eq_left hlt']
  | case2 r hle =>
    have hfits : r.entries.length ≤ limit := Nat.not_lt.1 hle
    refine Prod.ext (Nat.sub_eq_zero_of_le hfits).symm ?_
    simp only [List.take_of_length_le hfits]

/-! ### Look-up -/

theorem get?_erase_self (s : Slice) : (r.erase s).get? s = none := by
  simp only [get?, erase, List.lookup_eq_none_iff, List.mem_filter]
  rintro p ⟨-, hp⟩
  have hne : p.1 ≠ s := of_decide_eq_true hp
  exact bne_iff_ne.2 hne.symm

theorem of_container?_eq_some {s : Slice} {now ttl : Nat} {p : Slice × Entry}
    (h : r.container? s now ttl = some p) :
    p ∈ r.entries ∧ p.2.isFresh now ttl ∧ p.1.contains s := by
  have hp := List.find?_some h
  simp only [Bool.and_eq_true] at hp
  exact ⟨List.mem_of_find?_eq_some h, hp⟩

end Recency
end Outlier
