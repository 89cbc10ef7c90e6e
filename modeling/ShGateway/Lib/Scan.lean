import Mathlib

/-!
Scans that go on up to the first stop, over a list and over a memory.
-/

namespace ShGateway.Lib.Scan

variable {α : Type*}

section

variable {p : α → Bool} {l front rest : List α}

/-- The longest part at the head of a list that satisfies `p`, and what follows it. -/
structure Munch (p : α → Bool) (l front rest : List α) : Prop where
  eq : l = front ++ rest
  front : ∀ a ∈ front, p a = true
  rest : ∀ a ∈ rest.head?, p a = false

theorem munch (p : α → Bool) (l : List α) : Munch p l (l.takeWhile p) (l.dropWhile p) where
  eq := List.takeWhile_append_dropWhile.symm
  front := fun _ => List.mem_takeWhile_imp
  rest := by
    rintro a ha
    have hhead := List.head?_dropWhile_not p l
    rw [Option.mem_def.mp ha] at hhead
    exact hhead

theorem Munch.takeWhile (h : Munch p l front rest) : l.takeWhile p = front := by
  obtain ⟨rfl, hfront, hrest⟩ := h
  rw [List.takeWhile_append_of_pos hfront]
  cases rest with
  | nil => exact List.append_nil front
  | cons a rest =>
      rw [List.takeWhile_cons_of_neg (by rw [hrest a rfl]; exact nofun), List.append_nil]

theorem Munch.dropWhile (h : Munch p l front rest) : l.dropWhile p = rest := by
  refine List.append_cancel_left (?_ : front ++ _ = _)
  calc front ++ l.dropWhile p
      = l.takeWhile p ++ l.dropWhile p := by rw [h.takeWhile]
    _ = front ++ rest := List.takeWhile_append_dropWhile.trans h.eq

end

section

variable {stop : α → Bool} {m : Nat → α} {n i k : Nat}

/-- The indices that a scan from `i` on looks at, the first stop among them. -/
def visited (stop : α → Bool) (m : Nat → α) : Nat → Nat → List Nat
  | 0, _ => []
  | n + 1, i => i :: if stop (m i) then [] else visited stop m n (i + 1)

theorem mem_visited :
    k ∈ visited stop m n i ↔ i ≤ k ∧ k < i + n ∧ ∀ j, i ≤ j → j < k → stop (m j) = false := by
  induction n generalizing i with
  | zero =>
      refine iff_of_false List.not_mem_nil ?_
      rintro ⟨hle, hlt, -⟩
      omega
  | succ n ih =>
      rw [visited, List.mem_cons]
      constructor
      · rintro (rfl | hk)
        · exact ⟨le_rfl, by omega, fun j hle hlt => absurd hlt (by omega)⟩
        · split at hk
          · exact absurd hk List.not_mem_nil
          · next hgo =>
              obtain ⟨hle, hlt, hbefore⟩ := ih.mp hk
              refine ⟨by omega, by omega, fun j hj hjk => ?_⟩
              rcases Nat.eq_or_lt_of_le hj with rfl | hj
              · exact Bool.eq_false_of_not_eq_true hgo
              · exact hbefore j hj hjk
      · rintro ⟨hle, hlt, hbefore⟩
        rcases Nat.eq_or_lt_of_le hle with rfl | hik
        · exact .inl rfl
        · rw [if_neg (by rw [hbefore i le_rfl hik]; exact nofun)]
          exact .inr (ih.mpr ⟨hik, by omega, fun j hj => hbefore j (by omega)⟩)

end

end ShGateway.Lib.Scan
