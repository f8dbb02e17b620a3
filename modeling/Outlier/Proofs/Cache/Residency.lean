import Mathlib.Data.List.Nodup
import Outlier.Proofs.Cache.Landing

/-! # What stays in a cache

An entry is found until it is pushed out, and meanwhile only the time of its last use changes. So
after a batch was answered, each of its slices whose entry is still there has the anomalies that it
was answered with (`Recency.Current`), and an entry is there as long as its slice is among the most
recently used ones (`Recency.Within`): touching an entry and putting one in move the others back by
one place at most. -/

namespace Outlier

namespace Recency

variable {r : Recency} {s t : Slice} {e e' : Entry} {now k : Nat} {answers : Answers}
variable {rows : List Anomaly}

/-! ### Finding entries -/

theorem get?_erase_of_ne (r : Recency) (h : t ≠ s) : (r.erase s).get? t = r.get? t := by
  simp only [get?, erase]
  induction r.entries with
  | nil => rfl
  | cons p rest ih =>
    obtain ⟨key, e⟩ := p
    by_cases hs : key = s
    · subst hs
      rw [List.filter_cons_of_neg (by simp), ih, List.lookup_cons, beq_false_of_ne h]
    · rw [List.filter_cons_of_pos (by simp [hs]), List.lookup_cons, List.lookup_cons, ih]

theorem get?_touch (r : Recency) (s t : Slice) (now : Nat) :
    (r.touch s now).get? t =
      if t = s then (r.get? s).map ({ · with lastAccess := now }) else r.get? t := by
  unfold touch
  split
  next e he =>
    split
    next heq =>
      rw [heq, he, get?, List.lookup_cons_self]
      rfl
    next hne =>
      rw [get?, List.lookup_cons, beq_false_of_ne hne]
      exact r.get?_erase_of_ne hne
  next hnone =>
    split
    next heq => rw [heq, hnone]; rfl
    next => rfl

theorem get?_push (h : (r.push s e).get? t = some e') :
    t = s ∧ e' = e ∨ t ≠ s ∧ r.get? t = some e' := by
  have hall : ((s, e) :: (r.erase s).entries).lookup t = some e' := by
    rw [← List.take_append_drop r.capacity ((s, e) :: _), List.lookup_append]
    rw [push, get?] at h
    rw [h]
    rfl
  by_cases hts : t = s
  · subst hts
    rw [List.lookup_cons_self] at hall
    exact .inl ⟨rfl, (Option.some.inj hall).symm⟩
  · rw [List.lookup_cons, beq_false_of_ne hts] at hall
    exact .inr ⟨hts, (r.get?_erase_of_ne hts).symm.trans hall⟩

/-! ### Entries that have the answers -/

/-- The entries of the slices that were answered, as far as they are there, hold the answers and
were used just now. -/
def Current (now : Nat) (answers : Answers) (r : Recency) : Prop :=
  ∀ q ∈ answers, ∀ e, r.get? q.1 = some e → e = { anomalies := q.2, lastAccess := now }

namespace Current

theorem touch (h : r.Current now answers) (s : Slice) : (r.touch s now).Current now answers := by
  intro q hq e he
  rw [get?_touch] at he
  split at he
  next hs =>
    obtain ⟨e', he', rfl⟩ := Option.map_eq_some_iff.1 he
    rw [h q hq e' (hs ▸ he')]
  next => exact h q hq e he

theorem erase (h : r.Current now answers) (hs : s ∉ answers.map Prod.fst) :
    (r.erase s).Current now answers := by
  intro q hq e he
  have hne : q.1 ≠ s := fun heq => hs (heq ▸ List.mem_map_of_mem hq)
  rw [get?_erase_of_ne r hne] at he
  exact h q hq e he

theorem push (h : r.Current now answers) {more : Answers}
    (hmore : ∀ q ∈ more, q ∈ answers ∨ q.1 = s) (hs : ∀ q ∈ more, q.1 = s → q.2 = rows) :
    (r.push s { anomalies := rows, lastAccess := now }).Current now more := by
  intro q hq e he
  rcases get?_push he with ⟨hqs, rfl⟩ | ⟨hne, he⟩
  · rw [hs q hq hqs]
  · exact h q ((hmore q hq).resolve_right hne) e he

end Current

/-! ### The most recently used slices -/

/-- The slice is one of the `k` most recently used. -/
def Within (r : Recency) (k : Nat) (s : Slice) : Prop := s ∈ (r.entries.take k).map Prod.fst

namespace Within

theorem exists_get? (h : r.Within k s) : ∃ e, r.get? s = some e := by
  obtain ⟨q, hq, rfl⟩ := List.mem_map.1 h
  rw [← Option.isSome_iff_exists, Option.isSome_iff_ne_none, get?, Ne, List.lookup_eq_none_iff]
  exact fun hnone => by simpa using hnone q (List.mem_of_mem_take hq)

theorem mono (h : r.Within k s) {n : Nat} (hn : k ≤ n) : r.Within n s := by
  obtain ⟨q, hq, rfl⟩ := List.mem_map.1 h
  exact List.mem_map_of_mem ((List.take_sublist_take_left hn).subset hq)

theorem erase (h : r.Within k s) (hne : s ≠ t) : (r.erase t).Within k s := by
  obtain ⟨q, hq, rfl⟩ := List.mem_map.1 h
  have hlen : ((r.entries.take k).filter (·.1 ≠ t)).length ≤ k :=
    Nat.le_trans (List.length_filter_le ..) (List.length_take_le ..)
  refine List.mem_map_of_mem ?_
  rw [Recency.erase, ← List.take_append_drop k r.entries, List.filter_append, List.take_append,
    List.take_of_length_le hlen]
  exact List.mem_append_left _ (List.mem_filter.2 ⟨hq, by simpa using hne⟩)

theorem touch (h : r.Within k s) (t : Slice) (now : Nat) :
    (r.touch t now).Within (k + 1) s := by
  unfold Recency.touch
  split
  · by_cases hst : s = t
    · exact hst ▸ List.mem_cons_self
    · exact List.mem_cons_of_mem _ (h.erase hst)
  · exact h.mono (Nat.le_succ k)

theorem touch_self (h : r.get? s = some e) (now : Nat) : (r.touch s now).Within 1 s := by
  unfold Recency.touch
  rw [h]
  exact List.mem_cons_self

theorem push_self (r : Recency) (s : Slice) (e : Entry) (h : 0 < r.capacity) :
    (r.push s e).Within 1 s := by
  have hlen : min 1 r.capacity = 1 := Nat.min_eq_left h
  rw [Within, Recency.push, List.take_take, hlen]
  exact List.mem_cons_self

theorem push (h : r.Within k s) (t : Slice) (e : Entry) (hk : k < r.capacity) :
    (r.push t e).Within (k + 1) s := by
  by_cases hst : s = t
  · subst hst
    exact (push_self r s e (by omega)).mono (by omega)
  · have hlen : min (k + 1) r.capacity = k + 1 := Nat.min_eq_left hk
    rw [Within, Recency.push, List.take_take, hlen]
    exact List.mem_cons_of_mem _ (h.erase hst)

end Within

/-! ### Putting in one entry after the other -/

/-- Entries put in one after the other. -/
def pushAll (r : Recency) (now : Nat) (l : Answers) : Recency :=
  l.foldl (fun r p => r.push p.1 { anomalies := p.2, lastAccess := now }) r

theorem insertAll_eq_pushAll (r : Recency) (m : List Anomaly) {landed : List (Slice × Nat)}
    (h : ∀ q ∈ landed, q.2 = now) :
    r.insertAll m landed = r.pushAll now (landed.map fun q => (q.1, q.1.select m)) := by
  induction landed generalizing r with
  | nil => rfl
  | cons q rest ih =>
    rw [insertAll, List.foldl_cons, h q List.mem_cons_self]
    exact ih _ fun p hp => h p (List.mem_cons_of_mem _ hp)

/-- Answers of one list, in which each slice has one, are current after they were put in. -/
theorem Current.pushAll (h : r.Current now answers) {l all : Answers}
    (hall : (all.map Prod.fst).Nodup) (ha : ∀ q ∈ answers, q ∈ all) (hl : ∀ q ∈ l, q ∈ all) :
    (r.pushAll now l).Current now (answers ++ l) := by
  induction l generalizing r answers with
  | nil => simpa [Recency.pushAll] using h
  | cons q rest ih =>
    obtain ⟨hq, hrest⟩ := List.forall_mem_cons.1 hl
    have hmem : ∀ p ∈ answers ++ [q], p ∈ all := by
      intro p hp
      rcases List.mem_append.1 hp with hp | hp
      · exact ha p hp
      · exact List.mem_singleton.1 hp ▸ hq
    rw [List.append_cons]
    refine ih (h.push (fun p hp => ?_) fun p hp hpq => ?_) hmem hrest
    · rcases List.mem_append.1 hp with hp | hp
      · exact .inl hp
      · exact .inr (congrArg Prod.fst (List.mem_singleton.1 hp))
    · exact congrArg Prod.snd (List.inj_on_of_nodup_map hall (hmem p hp) hq hpq)

theorem Within.pushAll (h : r.Within k s) (now : Nat) {l : Answers}
    (hk : k + l.length ≤ r.capacity) : (r.pushAll now l).Within (k + l.length) s := by
  induction l generalizing r k with
  | nil => exact h
  | cons q rest ih =>
    rw [List.length_cons] at hk ⊢
    have hnext := ih (h.push q.1 { anomalies := q.2, lastAccess := now } (by omega))
      (by rw [capacity_push]; omega)
    exact hnext.mono (by omega)

theorem within_pushAll (now : Nat) {l : Answers} (hs : s ∈ l.map Prod.fst)
    (hl : l.length ≤ r.capacity) : (r.pushAll now l).Within l.length s := by
  induction l generalizing r with
  | nil => exact absurd hs List.not_mem_nil
  | cons q rest ih =>
    rw [List.length_cons] at hl
    rcases List.mem_cons.1 hs with rfl | hs
    · have hfirst := Within.push_self r q.1 { anomalies := q.2, lastAccess := now } (by omega)
      have hrest := hfirst.pushAll now (l := rest) (by rw [capacity_push]; omega)
      exact hrest.mono (by rw [List.length_cons]; omega)
    · exact (ih hs (by rw [capacity_push]; omega)).mono (by rw [List.length_cons]; omega)

end Recency

namespace SliceCache

theorem entries_foldl_keep (now : Nat) (l : Answers) (c : SliceCache) :
    (l.foldl (fun c p => c.keep now p.1 p.2) c).entries = c.entries.pushAll now l := by
  induction l generalizing c with
  | nil => rfl
  | cons p rest ih => exact ih _

/-! ### Looking up -/

namespace Lookup

/-- What a look-up found is current, and each answer is to be kept as an entry of its own or is that
of one of the slices that were used last. -/
structure Tracked (now : Nat) (l : Lookup) : Prop where
  current : l.entries.Current now l.answers
  derived : l.derived.Sublist l.answers
  recent : ∀ q ∈ l.answers, q ∈ l.derived ∨ l.entries.Within l.answers.length q.1

variable {l : Lookup} {now ttl : Nat} {s : Slice}

theorem Tracked.erase (h : l.Tracked now) (hs : s ∉ l.answers.map Prod.fst) :
    Tracked now { l with entries := l.entries.erase s } where
  current := h.current.erase hs
  derived := h.derived
  recent q hq := (h.recent q hq).imp_right fun hw =>
    hw.erase fun heq => hs (heq ▸ List.mem_map_of_mem hq)

theorem Tracked.derive (h : l.Tracked now) (hs : l.entries.get? s = none) :
    (l.derive now ttl s).Tracked now := by
  unfold Lookup.derive
  split
  · exact h
  next key e hc =>
    refine ⟨fun q hq e' he' => ?_, h.derived.append_right _, fun q hq => ?_⟩
    · rcases List.mem_append.1 hq with hq | hq
      · exact h.current.touch key q hq e' he'
      · obtain rfl := List.mem_singleton.1 hq
        rw [Recency.get?_touch] at he'
        split at he'
        next heq =>
          rw [← heq, hs] at he'
          cases he'
        next =>
          rw [hs] at he'
          cases he'
    · rcases List.mem_append.1 hq with hq | hq
      · refine (h.recent q hq).imp (List.mem_append_left _) fun hw => ?_
        rw [List.length_append]
        exact hw.touch key now
      · exact .inl (List.mem_append_right _ hq)

theorem Tracked.step (h : l.Tracked now) (ttl : Nat) (s : Slice) :
    (l.step now ttl s).Tracked now := by
  unfold Lookup.step
  split
  · exact h
  next hnone =>
    have hs : s ∉ l.answers.map Prod.fst :=
      lookup_eq_none_iff_not_mem.1 (Option.not_isSome_iff_eq_none.1 hnone)
    split
    next hget => exact h.derive hget
    next e he =>
      split
      · refine ⟨fun q hq e' he' => ?_, h.derived.trans (List.sublist_append_left ..),
          fun q hq => ?_⟩
        · rcases List.mem_append.1 hq with hq | hq
          · exact h.current.touch s q hq e' he'
          · obtain rfl := List.mem_singleton.1 hq
            rw [Recency.get?_touch, if_pos rfl, he] at he'
            exact (Option.some.inj he').symm
        · rcases List.mem_append.1 hq with hq | hq
          · refine (h.recent q hq).imp_right fun hw => ?_
            rw [List.length_append]
            exact hw.touch s now
          · obtain rfl := List.mem_singleton.1 hq
            refine .inr ((Recency.Within.touch_self he now).mono ?_)
            rw [List.length_append]
            exact Nat.le_add_left ..
      · exact (h.erase hs).derive (Recency.get?_erase_self _ s)

theorem Tracked.foldl (h : l.Tracked now) (ttl : Nat) (slices : List Slice) :
    (slices.foldl (Lookup.step now ttl) l).Tracked now := by
  induction slices generalizing l with
  | nil => exact h
  | cons s rest ih => exact ih (h.step ttl s)

/-! ### Slices with fresh entries -/

theorem answers_step (l : Lookup) (now ttl : Nat) (s : Slice) :
    ∃ more, (l.step now ttl s).answers = l.answers ++ more ∧ ∀ q ∈ more, q.1 = s := by
  have hderive (l : Lookup) :
      ∃ more, (l.derive now ttl s).answers = l.answers ++ more ∧ ∀ q ∈ more, q.1 = s := by
    unfold Lookup.derive
    split
    · exact ⟨[], (List.append_nil _).symm, nofun⟩
    · exact ⟨_, rfl, fun q hq => congrArg Prod.fst (List.mem_singleton.1 hq)⟩
  unfold Lookup.step
  split
  · exact ⟨[], (List.append_nil _).symm, nofun⟩
  · split
    · exact hderive l
    · split
      · exact ⟨_, rfl, fun q hq => congrArg Prod.fst (List.mem_singleton.1 hq)⟩
      · exact hderive _

variable {t : Slice} {e : Entry} {rows : List Anomaly}

theorem lookup_step_of_some (h : l.answers.lookup t = some rows) (now ttl : Nat) (s : Slice) :
    (l.step now ttl s).answers.lookup t = some rows := by
  obtain ⟨more, hmore, -⟩ := l.answers_step now ttl s
  rw [hmore, List.lookup_append, h]
  rfl

theorem lookup_step_of_ne (hts : t ≠ s) (now ttl : Nat) :
    (l.step now ttl s).answers.lookup t = l.answers.lookup t := by
  obtain ⟨more, hmore, hkeys⟩ := l.answers_step now ttl s
  have hnone : more.lookup t = none := List.lookup_eq_none_iff.2 fun q hq => by
    rw [hkeys q hq]
    exact bne_iff_ne.2 hts
  rw [hmore, List.lookup_append, hnone, Option.or_none]

/-- The slice has a fresh entry with these anomalies. -/
def HasFresh (now ttl : Nat) (t : Slice) (rows : List Anomaly) (r : Recency) : Prop :=
  ∃ e, r.get? t = some e ∧ e.isFresh now ttl ∧ e.anomalies = rows

theorem HasFresh.touch {r : Recency} (h : HasFresh now ttl t rows r) (s : Slice) :
    HasFresh now ttl t rows (r.touch s now) := by
  obtain ⟨e, he, hfresh, hrows⟩ := h
  rw [HasFresh, Recency.get?_touch]
  split
  next hs =>
    have hpos : now - now < ttl := by
      have hage : now - e.lastAccess < ttl := by simpa [Entry.isFresh] using hfresh
      omega
    exact ⟨{ e with lastAccess := now }, by rw [← hs, he]; rfl,
      by simpa [Entry.isFresh] using hpos, hrows⟩
  next => exact ⟨e, he, hfresh, hrows⟩

theorem HasFresh.step (h : HasFresh now ttl t rows l.entries) (hts : t ≠ s) :
    HasFresh now ttl t rows (l.step now ttl s).entries := by
  have hderive {l : Lookup} (h : HasFresh now ttl t rows l.entries) :
      HasFresh now ttl t rows (l.derive now ttl s).entries := by
    unfold Lookup.derive
    split
    · exact h
    · exact h.touch _
  unfold Lookup.step
  split
  · exact h
  · split
    · exact hderive h
    · split
      · exact h.touch s
      · refine hderive ?_
        rw [HasFresh, Recency.get?_erase_of_ne _ hts]
        exact h

theorem lookup_foldl_of_fresh {slices : List Slice} (h : HasFresh now ttl t rows l.entries)
    (hnone : l.answers.lookup t = none) (ht : t ∈ slices) :
    (slices.foldl (Lookup.step now ttl) l).answers.lookup t = some rows := by
  have hdone : ∀ (slices : List Slice) (l : Lookup), l.answers.lookup t = some rows →
      (slices.foldl (Lookup.step now ttl) l).answers.lookup t = some rows := by
    intro slices
    induction slices with
    | nil => exact fun _ h => h
    | cons s rest ih => exact fun l h => ih _ (lookup_step_of_some h now ttl s)
  induction slices generalizing l with
  | nil => exact absurd ht List.not_mem_nil
  | cons s rest ih =>
    by_cases hts : t = s
    · subst hts
      obtain ⟨e, he, hfresh, hrows⟩ := h
      refine hdone rest _ ?_
      simp only [Lookup.step, hnone, Option.isSome_none, Bool.false_eq_true, if_false, he, hfresh,
        if_true, List.lookup_append, List.lookup_cons_self, hrows]
      rfl
    · have hrest : t ∈ rest := (List.mem_cons.1 ht).resolve_left hts
      exact ih (h.step hts) ((lookup_step_of_ne hts now ttl).trans hnone) hrest

end Lookup

/-! ### A whole look-up -/

variable {c : SliceCache} {now : Nat} {slices : List Slice}

theorem tracked_lookUp (c : SliceCache) (now : Nat) (slices : List Slice) :
    ∃ l : Lookup, l.Tracked now ∧ l.entries.capacity = c.entries.capacity ∧
      (c.lookUp now slices).1 = l.answers ∧
      (c.lookUp now slices).2.entries = l.entries.pushAll now l.derived := by
  have hstart : Lookup.Tracked now { entries := c.entries, stats := c.stats } :=
    ⟨nofun, .slnil, nofun⟩
  refine ⟨_, hstart.foldl c.settings.idleTtl slices, ?_, rfl, entries_foldl_keep ..⟩
  exact (lookup_foldl _ now c.settings.idleTtl slices).1.capacity

theorem current_lookUp (h : ((c.lookUp now slices).1.map Prod.fst).Nodup) :
    (c.lookUp now slices).2.entries.Current now (c.lookUp now slices).1 := by
  obtain ⟨l, hl, -, hanswers, hentries⟩ := tracked_lookUp c now slices
  rw [hanswers] at h ⊢
  rw [hentries]
  have hall := hl.current.pushAll h (fun q hq => hq) fun q hq => hl.derived.subset hq
  exact fun q hq => hall q (List.mem_append_left _ hq)

/-- The slices that were found are the ones used last; each made one or two entries move. -/
theorem within_lookUp {n : Nat} (hn : 2 * (c.lookUp now slices).1.length ≤ n + 1)
    (hroom : n ≤ c.entries.capacity) :
    ∀ q ∈ (c.lookUp now slices).1, (c.lookUp now slices).2.entries.Within n q.1 := by
  obtain ⟨l, hl, hcapacity, hanswers, hentries⟩ := tracked_lookUp c now slices
  rw [hanswers] at hn ⊢
  rw [hentries]
  intro q hq
  have hle := hl.derived.length_le
  have hpos : 0 < l.answers.length := List.length_pos_of_mem hq
  rcases Classical.em (q ∈ l.derived) with hd | hd
  · have hin := Recency.within_pushAll (r := l.entries) now
      (List.mem_map_of_mem (f := Prod.fst) hd) (by omega)
    exact hin.mono (by omega)
  · have hlt : l.derived.length < l.answers.length :=
      Nat.lt_of_le_of_ne hle fun heq => hd (hl.derived.eq_of_length heq ▸ hq)
    have hin := ((hl.recent q hq).resolve_left hd).pushAll now (l := l.derived) (by omega)
    exact hin.mono (by omega)

theorem lookup_lookUp_of_fresh {t : Slice} {e : Entry} (he : c.entries.get? t = some e)
    (hfresh : e.isFresh now c.settings.idleTtl) (ht : t ∈ slices) :
    (c.lookUp now slices).1.lookup t = some e.anomalies :=
  Lookup.lookup_foldl_of_fresh (l := { entries := c.entries, stats := c.stats })
    ⟨e, he, hfresh, rfl⟩ rfl ht

end SliceCache
end Outlier
