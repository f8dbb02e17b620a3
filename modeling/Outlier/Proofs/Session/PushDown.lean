import Outlier.Proofs.Session.Ledger
import Outlier.Proofs.Slice.PushDown

/-! # What a cache asks the store for

A cache asks for slices that were checked, and for nothing else: the slices for which it calls the
store, those whose calls hang and those that wait have a predicate (`SliceCache.Checked`). What it
asks for has a comparison, so that the memory store answers it, and the answer holds every anomaly
of the slice (`Session.pushDown_run`). -/

namespace Outlier

/-- The slices that the cache waits for are without fault: those whose calls hang, and those that
have not been sent to the store. -/
structure SliceCache.Checked (c : SliceCache) : Prop where
  hanging : ∀ t ∈ c.hanging, t.fault? = none
  waiting : ∀ t ∈ c.waiting, t.fault? = none

theorem SliceCache.checked_new (settings : Settings) (mode : Mode) :
    (new settings mode).Checked :=
  ⟨nofun, nofun⟩

theorem Backend.hung_sublist (b : Backend) (isOpen : Bool) (sent : List Slice) :
    (b.hung isOpen sent).Sublist sent := by
  cases isOpen with
  | true => exact List.nil_sublist _
  | false =>
    have hhangs := List.filter_sublist (l := b.plan b.asked.length sent) (p := (·.2.hangs))
    have h := hhangs.map Prod.fst
    rwa [b.map_fst_plan] at h

theorem Access.fault?_of_mem_missed {x : Access} {slices : List Slice} {t : Slice}
    (h : t ∈ x.missed slices) : t.fault? = none := by
  unfold missed at h
  split at h
  · exact absurd h List.not_mem_nil
  next hvalid => exact List.findSome?_eq_none_iff.1 hvalid t (mem_pending.1 h).1

namespace Session

variable {s : Session} {i : Nat} {r : Request} {c c' : SliceCache} {sent : List Slice}

theorem stillHanging_sublist (i : Nat) (r : Request) (hanging : List Slice) :
    (stillHanging i r hanging).Sublist hanging := by
  cases r with
  | land j place =>
    rw [stillHanging]
    split
    next => exact List.eraseIdx_sublist ..
    next => exact .refl _
  | release => exact List.nil_sublist _
  | _ => exact .refl _

theorem fault?_of_mem_missed {t : Slice} (h : t ∈ s.missed i r) : t.fault? = none := by
  unfold missed at h
  split at h
  · exact absurd h List.not_mem_nil
  · split at h
    · exact absurd h List.not_mem_nil
    · exact Access.fault?_of_mem_missed h

/-- A request calls for slices without fault, if the cache waits for no others. -/
theorem Books.checked (h : s.Books i r sent c c') (hc : c.Checked) :
    (∀ t ∈ sent, t.fault? = none) ∧ c'.Checked := by
  have hall : ∀ t ∈ sent ++ c'.waiting, t.fault? = none := by
    intro t ht
    rcases List.mem_append.1 (h.waiting.mem_iff.1 ht) with ht | ht
    · exact hc.waiting t ht
    · exact fault?_of_mem_missed ht
  have hsent : ∀ t ∈ sent, t.fault? = none := fun t ht => hall t (List.mem_append_left _ ht)
  refine ⟨hsent, fun t ht => ?_, fun t ht => hall t (List.mem_append_right _ ht)⟩
  rw [h.hanging, List.mem_append] at ht
  rcases ht with ht | ht
  · exact hc.hanging t ((stillHanging_sublist i r c.hanging).mem ht)
  · exact hsent t ((s.backend.hung_sublist _ sent).mem ht)

theorem checked_run (hc : s.caches[i]? = some c) (h : c.Checked) (requests : List Request) :
    (∃ c', (s.run requests).caches[i]? = some c' ∧ c'.Checked) ∧
      ∀ p ∈ asksOver i s requests, ∃ t : Slice, t.fault? = none ∧ t.predicate = p := by
  induction requests generalizing s c with
  | nil => exact ⟨⟨c, hc, h⟩, nofun⟩
  | cons r rest ih =>
    obtain ⟨d, sent, hbooks⟩ := exists_books hc r
    obtain ⟨hsent, hd⟩ := hbooks.checked h
    obtain ⟨hend, hrest⟩ := ih hbooks.after hd
    refine ⟨hend, fun p hp => ?_⟩
    rw [asksOver, hbooks.asked, List.mem_append, List.mem_map] at hp
    rcases hp with ⟨t, ht, rfl⟩ | hp
    · exact ⟨t, hsent t ht, rfl⟩
    · exact hrest p hp

/-- **Push-down.** A slice has a predicate if and only if it has no fault, and otherwise the fault
is reported. The predicate compares something and leaves out the dimensions alone, so that checking
an answer again that has all of its anomalies gives what the slice selects from the store. In a
batch that was checked, no fetch lacks its predicate. Whatever a cache does in a run, each predicate
for which it calls a store, and each of a call that hangs or of a fetch that waits, is one of a
slice, and no memory store refuses it. -/
theorem pushDown_run :
    (∀ t : Slice, ((∃ p, t.toPredicate = .ok p) ↔ t.fault? = none) ∧
        (∀ f, t.toPredicate = .error f ↔ t.fault? = some f) ∧
        ∀ p, t.toPredicate = .ok p → t.Asks p) ∧
      (∀ (slices : List Slice) (answers : Answers), slices.findSome? Slice.fault? = none →
        (Access.pending slices answers).mapM Slice.toPredicate =
          .ok ((Access.pending slices answers).map Slice.predicate)) ∧
      ∀ (s : Session) (i : Nat) (settings : Settings) (mode : Mode),
        s.caches[i]? = some (SliceCache.new settings mode) → ∀ requests : List Request,
          ∃ c, (s.run requests).caches[i]? = some c ∧
            ∀ p ∈ asksOver i s requests ++ (c.hanging ++ c.waiting).map Slice.predicate,
              (∃ t : Slice, t.toPredicate = .ok p) ∧
                ∀ m : MemoryStore, (m.find p).1 = .ok (m.anomalies.filter p.holds) := by
  refine ⟨fun t => ⟨?_, fun f => Slice.toPredicate_eq_error_iff,
    fun p => Slice.asks_of_toPredicate⟩, fun slices answers hvalid => ?_,
    fun s i settings mode hnew requests => ?_⟩
  · constructor
    · rintro ⟨p, hp⟩
      exact (Slice.toPredicate_eq_ok_iff.1 hp).1
    · intro hvalid
      exact ⟨t.predicate, Slice.toPredicate_of_valid hvalid⟩
  · have hall := List.findSome?_eq_none_iff.1 hvalid
    exact Slice.mapM_toPredicate fun t ht => hall t (Access.mem_pending.1 ht).1
  · obtain ⟨⟨c, hc, hchecked⟩, hasked⟩ :=
      checked_run hnew (SliceCache.checked_new settings mode) requests
    refine ⟨c, hc, fun p hp => ?_⟩
    obtain ⟨t, hvalid, rfl⟩ : ∃ t : Slice, t.fault? = none ∧ t.predicate = p := by
      rcases List.mem_append.1 hp with hp | hp
      · exact hasked p hp
      · obtain ⟨t, ht, rfl⟩ := List.mem_map.1 hp
        rcases List.mem_append.1 ht with ht | ht
        · exact ⟨t, hchecked.hanging t ht, rfl⟩
        · exact ⟨t, hchecked.waiting t ht, rfl⟩
    refine ⟨⟨t, Slice.toPredicate_of_valid hvalid⟩, fun m => ?_⟩
    rw [MemoryStore.find, if_neg (Slice.conjuncts_predicate_ne_zero hvalid)]

/-- A detector in one country: the store is asked for the detector alone, answers with one anomaly
too many, and what is left of that is what the country has. -/
theorem pushDown_oneCountry :
    let t : Slice := ({ detector := some 1 } : Slice).withFilter "country" "de"
    let here := (Anomaly.stored 1 1 0 100).withDimension "country" "de"
    let there := (Anomaly.stored 2 1 0 100).withDimension "country" "us"
    let stored := [there, .stored 3 2 0 100, here, .stored 4 2 0 100]
    let rows := [there, here, .stored 4 2 0 100]
    ∃ p, t.toPredicate = .ok p ∧ stored.filter p.holds = [there, here] ∧
      t.select rows = t.select stored ∧ t.select rows = [here] := by
  intro t here there stored rows
  have hp : t.toPredicate = .ok (.allOf [.compare .equals .detectorId 1]) := rfl
  have hsub : rows.Sublist stored := .cons_cons _ (.cons _ (.refl _))
  exact ⟨_, hp, rfl, ((pushDown_run.1 t).2.2 _ hp).select_eq stored rows hsub
    (.cons_cons _ (.cons_cons _ (.cons _ (.refl [])))), rfl⟩

end Session
end Outlier
