import Mathlib.Tactic.Common

/-!
# Bounded queues that drop the newest

A queue with a capacity: what is offered to a full queue is dropped, and the
oldest entry is taken first.  Besides its entries a queue keeps what has been
offered and taken so far, so that every entry is accounted for.
-/

namespace BoundedQueues

/-- The entries, with the history of the queue. -/
structure BoundedQueue (α : Type*) where
  entries : List α := []
  offered : List α := []
  taken : List α := []
  dropped : Nat := 0

variable {α : Type*} {capacity : Int} {q : BoundedQueue α}

def BoundedQueue.isFull (capacity : Int) (q : BoundedQueue α) : Bool :=
  decide (capacity ≤ q.entries.length)

/-- A full queue drops `x`. -/
def BoundedQueue.offer (capacity : Int) (q : BoundedQueue α) (x : α) : BoundedQueue α :=
  if q.isFull capacity then
    { q with offered := q.offered ++ [x], dropped := q.dropped + 1 }
  else { q with entries := q.entries ++ [x], offered := q.offered ++ [x] }

/-- The queue without its oldest entry `x`. -/
def BoundedQueue.pop (q : BoundedQueue α) (x : α) (rest : List α) : BoundedQueue α :=
  { q with entries := rest, taken := q.taken ++ [x] }

/-- Nothing is lost, reordered or repeated. -/
structure Balanced (capacity : Int) (q : BoundedQueue α) : Prop where
  bounded : q.entries.length ≤ capacity.toNat
  ordered : (q.taken ++ q.entries).Sublist q.offered
  counted : q.offered.length = q.dropped + q.entries.length + q.taken.length

theorem balanced_empty (capacity : Int) : Balanced capacity ({} : BoundedQueue α) := by
  constructor <;> simp

@[simp]
theorem taken_offer (x : α) : (q.offer capacity x).taken = q.taken := by
  unfold BoundedQueue.offer
  split_ifs <;> rfl

/-- Every offer counts as one, whether there is room or not. -/
@[simp]
theorem offered_offer (x : α) : (q.offer capacity x).offered = q.offered ++ [x] := by
  unfold BoundedQueue.offer
  split_ifs <;> rfl

/-- Only a full queue drops what is offered. -/
theorem dropped_offer (capacity : Int) (q : BoundedQueue α) (x : α) :
    (q.offer capacity x).dropped = q.dropped + if q.isFull capacity then 1 else 0 := by
  unfold BoundedQueue.offer
  split_ifs <;> rfl

/-- **Offering** keeps the balance. -/
theorem Balanced.offer (hq : Balanced capacity q) (x : α) :
    Balanced capacity (q.offer capacity x) := by
  obtain ⟨hbounded, hordered, hcounted⟩ := hq
  unfold BoundedQueue.offer
  split_ifs with hfull
  · refine ⟨hbounded, hordered.trans (List.sublist_append_left _ _), ?_⟩
    simp only [List.length_append, List.length_singleton]
    omega
  · have hroom : (q.entries.length : Int) < capacity := by
      simpa [BoundedQueue.isFull] using hfull
    refine ⟨?_, ?_, ?_⟩
    · simp only [List.length_append, List.length_singleton]
      omega
    · rw [← List.append_assoc]
      exact hordered.append (List.Sublist.refl [x])
    · simp only [List.length_append, List.length_singleton]
      omega

/-- **Taking** keeps the balance. -/
theorem Balanced.pop (hq : Balanced capacity q) {x : α} {rest : List α}
    (hfront : q.entries = x :: rest) : Balanced capacity (q.pop x rest) := by
  obtain ⟨hbounded, hordered, hcounted⟩ := hq
  rw [hfront, List.length_cons] at hbounded hcounted
  rw [hfront] at hordered
  refine ⟨Nat.le_of_succ_le hbounded, ?_, ?_⟩
  · simpa [BoundedQueue.pop] using hordered
  · simp only [BoundedQueue.pop, List.length_append, List.length_singleton]
    omega

theorem Balanced.taken_sublist (hq : Balanced capacity q) : q.taken.Sublist q.offered :=
  (List.sublist_append_left _ _).trans hq.ordered

end BoundedQueues
