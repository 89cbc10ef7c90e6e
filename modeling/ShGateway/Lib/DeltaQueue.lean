import Mathlib

/-!
Timer queues in which every entry has its time relative to the entry before it.
-/

namespace ShGateway.Lib.DeltaQueue

variable {α : Type*}

/-- The entries with the times at which they are due. -/
def due (now : Nat) : List (α × Nat) → List (α × Nat)
  | [] => []
  | (a, d) :: q => (a, now + d) :: due (now + d) q

/-- The time to the last entry. -/
def total : List (α × Nat) → Nat
  | [] => 0
  | (_, d) :: q => d + total q

/-- The time of an entry that leaves goes to the one behind it. -/
def carry (d : Nat) : List (α × Nat) → List (α × Nat)
  | [] => []
  | (a, e) :: q => (a, e + d) :: q

section

variable {now d limit : Nat} {a : α} {q q' : List (α × Nat)}

theorem length_due : (due now q).length = q.length := by
  induction q generalizing now with
  | nil => rfl
  | cons e q ih => rw [due, List.length_cons, ih, List.length_cons]

theorem due_append : due now (q ++ q') = due now q ++ due (now + total q) q' := by
  induction q generalizing now with
  | nil => rfl
  | cons e q ih => rw [List.cons_append, due, ih, due, total, Nat.add_assoc, List.cons_append]

theorem total_append : total (q ++ q') = total q + total q' := by
  induction q with
  | nil => exact (Nat.zero_add _).symm
  | cons e q ih => rw [List.cons_append, total, ih, total, Nat.add_assoc]

theorem due_carry : due now (carry d q) = due (now + d) q := by
  cases q with
  | nil => rfl
  | cons e q => rw [carry, due, due, Nat.add_comm e.2 d, Nat.add_assoc]

theorem total_carry_le : total (carry d q) ≤ d + total q := by
  cases q with
  | nil => exact Nat.zero_le _
  | cons e q =>
      rw [carry, total, total]
      omega

/-- An entry that is put at the end is due after the limit, and the others as before. -/
theorem due_push (h : total q ≤ limit) :
    due now (q ++ [(a, limit - total q)]) = due now q ++ [(a, now + limit)] := by
  rw [due_append, due, due, show now + total q + (limit - total q) = now + limit by omega]

theorem total_push (h : total q ≤ limit) : total (q ++ [(a, limit - total q)]) = limit := by
  rw [total_append, total, total]
  omega

theorem map_fst_carry : (carry d q).map Prod.fst = q.map Prod.fst := by
  cases q with
  | nil => rfl
  | cons e q => rfl

/-- An entry that leaves takes nothing from the times of the others. -/
theorem due_unlink (now : Nat) (q q' : List (α × Nat)) (a : α) (d : Nat) :
    ∃ due₁ due₂ t, due now (q ++ (a, d) :: q') = due₁ ++ (a, t) :: due₂ ∧
      due now (q ++ carry d q') = due₁ ++ due₂ := by
  refine ⟨due now q, due (now + total q + d) q', now + total q + d, ?_, ?_⟩
  · rw [due_append, due]
  · rw [due_append, due_carry]

theorem due_ge {e : α × Nat} (h : e ∈ due now q) : now ≤ e.2 := by
  induction q generalizing now with
  | nil => exact absurd h List.not_mem_nil
  | cons f q ih =>
      rw [due, List.mem_cons] at h
      rcases h with rfl | h
      · exact Nat.le_add_right _ _
      · exact Nat.le_trans (Nat.le_add_right _ _) (ih h)

theorem map_fst_due (now : Nat) (q : List (α × Nat)) :
    (due now q).map Prod.fst = q.map Prod.fst := by
  induction q generalizing now with
  | nil => rfl
  | cons e q ih => rw [due, List.map_cons, List.map_cons, ih]

end

end ShGateway.Lib.DeltaQueue
