import Outlier.Proofs.Predicate.Flattening
import Outlier.Proofs.Session.Steps

/-! # Questions to the memory store

What the memory store finds is said by the comparisons of the predicate alone
(`MemoryStore.find_eq`). Without any it refuses to answer, since it would have to hand out all it
has; otherwise it counts the question and answers with the anomalies that meet them. In a session
these stand in the order in which they came, whatever the caches did in between
(`Session.found_run`). -/

namespace Outlier

variable {p : Predicate}

theorem MemoryStore.find_eq (m : MemoryStore) (p : Predicate) :
    m.find p =
      if p.flatten = [] then (.error (.rejected "empty predicate"), m)
      else (.ok (m.anomalies.filter fun a => ∀ x ∈ p.flatten, Predicate.Met a x),
        { m with queries := m.queries + 1 }) := by
  have hfilter : m.anomalies.filter p.holds =
      m.anomalies.filter fun a => ∀ x ∈ p.flatten, Predicate.Met a x := by
    refine List.filter_congr fun a _ => ?_
    rw [Bool.eq_iff_iff, decide_eq_true_iff]
    exact Predicate.holds_iff
  rw [find, hfilter]
  simp only [Predicate.conjuncts_eq_zero_iff]

namespace Session

variable {s : Session} {r : Request} {requests : List Request}

/-! ### What the store has -/

/-- The anomalies that a request brings into the store. -/
def arrivals : Request → List Anomaly
  | .extend l => l
  | _ => []

theorem arrivals_of_ne (h : ∀ l, r ≠ .extend l) : arrivals r = [] := by
  cases r with
  | extend l => exact absurd rfl (h l)
  | _ => rfl

theorem anomalies_step_eq (s : Session) (r : Request) :
    (s.step r).2.backend.memory.anomalies = s.backend.memory.anomalies ++ arrivals r := by
  by_cases hr : ∃ l, r = .extend l
  · obtain ⟨l, rfl⟩ := hr
    rfl
  · have hne : ∀ l, r ≠ .extend l := fun l h => hr ⟨l, h⟩
    rw [anomalies_step s hne, arrivals_of_ne hne, List.append_nil]

/-- The store has what it had before, and then what came, in the order in which it came. -/
theorem anomalies_run (s : Session) (requests : List Request) :
    (s.run requests).backend.memory.anomalies =
      s.backend.memory.anomalies ++ requests.flatMap arrivals := by
  induction requests generalizing s with
  | nil => exact (List.append_nil _).symm
  | cons r rest ih =>
    calc
      (s.run (r :: rest)).backend.memory.anomalies
        = (s.step r).2.backend.memory.anomalies ++ rest.flatMap arrivals := ih _
      _ = s.backend.memory.anomalies ++ (r :: rest).flatMap arrivals := by
        rw [anomalies_step_eq, List.append_assoc, List.flatMap_cons]

/-! ### What the store has counted -/

/-- The request may make a cache call the store. -/
def mayCall : Request → Bool
  | .get .. | .getAll .. | .land .. | .release => true
  | _ => false

/-- The request is a question in which something is compared. -/
def compares : Request → Bool
  | .find p => p.flatten ≠ []
  | _ => false

theorem queries_step (h : mayCall r = false) :
    (s.step r).2.backend.memory.queries =
      s.backend.memory.queries + [r].countP compares := by
  cases r with
  | find p =>
    show (s.backend.memory.find p).2.queries = _
    rw [MemoryStore.find_eq]
    by_cases hp : p.flatten = []
    · simp [compares, hp]
    · simp [compares, hp]
  | get | getAll | land | release => cases h
  | extend | setScript | sleep => rfl
  | cleanUp | clear | shared | instanceOf | isolated | cleanUpShared =>
    rw [s.backend_step rfl]
    rfl

/-- As long as no cache calls it, the store counts the questions in which something is compared. -/
theorem queries_run (h : ∀ r ∈ requests, mayCall r = false) :
    (s.run requests).backend.memory.queries =
      s.backend.memory.queries + requests.countP compares := by
  induction requests generalizing s with
  | nil => rfl
  | cons r rest ih =>
    obtain ⟨hr, hrest⟩ := List.forall_mem_cons.1 h
    calc
      (s.run (r :: rest)).backend.memory.queries
        = (s.step r).2.backend.memory.queries + rest.countP compares := ih hrest
      _ = s.backend.memory.queries + ([r].countP compares + rest.countP compares) := by
        rw [queries_step hr, Nat.add_assoc]
      _ = s.backend.memory.queries + (r :: rest).countP compares := by
        rw [← List.countP_append, List.singleton_append]

/-! ### What the store answers -/

theorem step_find (s : Session) (p : Predicate) :
    s.step (.find p) =
      if p.flatten = [] then (.found (.error (.rejected "empty predicate")), s)
      else (.found (.ok (s.backend.memory.anomalies.filter fun a =>
          ∀ x ∈ p.flatten, Predicate.Met a x)),
        { s with backend.memory.queries := s.backend.memory.queries + 1 }) := by
  rw [step, MemoryStore.find_eq]
  by_cases hp : p.flatten = []
  · simp only [if_pos hp]
  · simp only [if_neg hp]

/-- Every store refuses the predicate, which would let all anomalies through, and stays as it is. -/
structure Refused (p : Predicate) : Prop where
  holds : ∀ a, p.holds a
  find : ∀ m : MemoryStore, m.find p = (.error (.rejected "empty predicate"), m)
  step : ∀ s : Session, s.step (.find p) = (.found (.error (.rejected "empty predicate")), s)

/-- Every store answers the predicate with the anomalies that meet its comparisons, and counts the
question. -/
structure Answered (p : Predicate) : Prop where
  find : ∀ m : MemoryStore, m.find p =
    (.ok (m.anomalies.filter fun a => ∀ x ∈ p.flatten, Predicate.Met a x),
      { m with queries := m.queries + 1 })
  /-- After any requests, also of caches, the anomalies stand in the order in which they came. -/
  run : ∀ (s : Session) (requests : List Request),
    (s.run requests).step (.find p) =
      (.found (.ok ((s.backend.memory.anomalies ++ requests.flatMap arrivals).filter fun a =>
          ∀ x ∈ p.flatten, Predicate.Met a x)),
        { s.run requests with
          backend.memory.queries := (s.run requests).backend.memory.queries + 1 })

theorem refused_of_flatten_eq_nil (h : p.flatten = []) : Refused p where
  holds := Predicate.holds_of_flatten_eq_nil h
  find m := by rw [m.find_eq, if_pos h]
  step s := by rw [s.step_find, if_pos h]

theorem answered_of_flatten_ne_nil (h : p.flatten ≠ []) : Answered p where
  find m := by rw [m.find_eq, if_neg h]
  run s requests := by rw [step_find, if_neg h, anomalies_run]

/-- **Questions to the store.** A predicate says what its comparisons say, read from left to right.
The store refuses it if and only if there is none at any depth; then the predicate holds for every
anomaly, and the refusal is not counted. Any other predicate is answered and counted. In a run in
which no cache calls the store, it counts the questions in which something is compared. -/
theorem found_run (p : Predicate) :
    p.Flattens ∧
      (∀ m : MemoryStore, (∃ e, (m.find p).1 = .error e) ↔ ∀ x, ¬ p.Has x) ∧
      ((∀ x, ¬ p.Has x) → Refused p) ∧
      ((∃ x, p.Has x) → Answered p) ∧
      ∀ (s : Session) (requests : List Request), (∀ r ∈ requests, mayCall r = false) →
        (s.run requests).backend.memory.queries =
          s.backend.memory.queries + requests.countP compares := by
  have hrefused (h : ∀ x, ¬ p.Has x) : Refused p :=
    refused_of_flatten_eq_nil (Predicate.flatten_eq_nil_iff.2 h)
  have hanswered (h : ∃ x, p.Has x) : Answered p := by
    obtain ⟨x, hx⟩ := h
    refine answered_of_flatten_ne_nil fun hnil => ?_
    exact Predicate.flatten_eq_nil_iff.1 hnil x hx
  refine ⟨p.flattens, fun m => ⟨?_, ?_⟩, hrefused, hanswered, fun s requests => queries_run⟩
  · rintro ⟨e, he⟩ x hx
    rw [(hanswered ⟨x, hx⟩).find m] at he
    cases he
  · intro h
    exact ⟨_, congrArg Prod.fst ((hrefused h).find m)⟩

/-- Conjunctions of conjunctions: in the first nothing is compared, and it is refused; the second
asks for a detector and a start, and leaves out the anomaly without detector. -/
theorem found_nested :
    let bare : Predicate := .allOf [.allOf [], .allOf [.allOf []]]
    let p : Predicate := .allOf [.allOf [], .compare .equals .detectorId 1,
      .allOf [.compare .atLeast .startTime 0, .allOf []]]
    let s : Session := { backend := { memory := { anomalies := [.stored 1 1 0 100] } } }
    let requests : List Request :=
      [.extend [.synthetic 5 9, .stored 2 1 (-7) 0], .find bare, .find p, .sleep 10,
        .extend [.stored 3 2 50 60, .stored 4 1 50 60]]
    bare.flatten = [] ∧ (∀ a, bare.holds a) ∧ s.step (.find bare) =
        (.found (.error (.rejected "empty predicate")), s) ∧
      p.flatten = [(.equals, .detectorId, 1), (.atLeast, .startTime, 0)] ∧ p.conjuncts = 2 ∧
      (Anomaly.synthetic 5 9).detector = none ∧ ¬ p.holds (.synthetic 5 9) ∧
      ((s.run requests).step (.find p)).1 = .found (.ok [.stored 1 1 0 100, .stored 4 1 50 60]) ∧
      (∀ r ∈ requests, mayCall r = false) ∧ (s.run requests).backend.memory.queries = 1 := by
  intro bare p s requests
  have hbare : ∀ x, ¬ bare.Has x := Predicate.flatten_eq_nil_iff.1 rfl
  have hdetector : p.Has (.equals, .detectorId, 1) := .part (.tail _ (.head _)) .here
  have hrequests : ∀ r ∈ requests, mayCall r = false := by simp [requests, mayCall]
  obtain ⟨-, -, hrefused, -, -⟩ := found_run bare
  obtain ⟨hflattens, -, -, hanswered, hqueries⟩ := found_run p
  refine ⟨rfl, (hrefused hbare).holds, (hrefused hbare).step s, rfl, hflattens.conjuncts, rfl,
    (hflattens.absent _ _ _ rfl).2 hdetector, ?_, hrequests, hqueries s requests hrequests⟩
  rw [(hanswered ⟨_, hdetector⟩).run s requests]
  rfl

end Session
end Outlier
