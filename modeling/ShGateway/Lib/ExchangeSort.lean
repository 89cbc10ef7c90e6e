import Mathlib

/-!
Sorting a list in place by exchanging neighbours that are out of order.
-/

namespace ShGateway.Lib.ExchangeSort

variable {α : Type*} [LinearOrder α]

/-- The elements at `j` and `j + 1` are exchanged if they are out of order. -/
def exchange (xs : List α) (j : Nat) : List α :=
  match xs[j]?, xs[j + 1]? with
  | some a, some b => if b < a then (xs.set j b).set (j + 1) a else xs
  | _, _ => xs

/-- The exchanges at `0`, ..., `m - 1`. -/
def pass (xs : List α) (m : Nat) : List α := (List.range m).foldl exchange xs

/-- The first `k` passes over the first `n` elements, each one shorter than the last. -/
def passes (n k : Nat) (xs : List α) : List α :=
  (List.range k).foldl (fun xs i => pass xs (n - i - 1)) xs

/-- The passes over `n` elements. -/
def exchangeSort (n : Nat) (xs : List α) : List α := passes n (n - 1) xs

theorem exchange_append (front rest : List α) (a b : α) :
    exchange (front ++ a :: b :: rest) front.length =
      front ++ (if b < a then b :: a :: rest else a :: b :: rest) := by
  have ha : (front ++ a :: b :: rest)[front.length]? = some a := by simp
  have hb : (front ++ a :: b :: rest)[front.length + 1]? = some b := by simp
  simp only [exchange, ha, hb]
  split_ifs
  · simp
  · rfl

theorem pass_spec {xs : List α} {m : Nat} (hm : m < xs.length) :
    ∃ front a, pass xs m = front ++ a :: xs.drop (m + 1) ∧ front.length = m ∧
      (front ++ [a]).Perm (xs.take (m + 1)) ∧ ∀ x ∈ front, x ≤ a := by
  induction m with
  | zero =>
      refine ⟨[], xs[0], ?_, rfl, ?_, nofun⟩
      · exact (List.cons_getElem_drop_succ (h := hm)).symm
      · rw [List.take_succ_eq_append_getElem hm]
        rfl
  | succ m ih =>
      obtain ⟨front, a, heq, hlen, hperm, hle⟩ := ih (by omega)
      have hdrop : xs.drop (m + 1) = xs[m + 1] :: xs.drop (m + 1 + 1) :=
        (List.cons_getElem_drop_succ (h := hm)).symm
      have hstep : pass xs (m + 1) = exchange (pass xs m) m := by
        rw [pass, List.range_succ, List.foldl_append]
        rfl
      rw [hstep, heq, hdrop, List.take_succ_eq_append_getElem hm]
      generalize xs[m + 1] = b
      rw [← hlen, exchange_append]
      split_ifs with hlt
      · refine ⟨front ++ [b], a, by simp, by simp, ?_, ?_⟩
        · rw [List.append_assoc]
          refine (List.Perm.append_left front (List.Perm.swap a b [])).trans ?_
          rw [← hlen] at hperm
          simpa using hperm.append_right [b]
        · intro x hx
          rcases List.mem_append.mp hx with hx | hx
          · exact hle x hx
          · obtain rfl := List.mem_singleton.mp hx
            exact hlt.le
      · refine ⟨front ++ [a], b, by simp, by simp, ?_, ?_⟩
        · rw [← hlen] at hperm
          exact hperm.append_right [b]
        · intro x hx
          rcases List.mem_append.mp hx with hx | hx
          · exact (hle x hx).trans (not_lt.mp hlt)
          · obtain rfl := List.mem_singleton.mp hx
            exact not_lt.mp hlt

/-- After `k` passes the `k` greatest elements stand sorted at the end. -/
theorem passes_spec {xs : List α} {k : Nat} (hk : k < xs.length) :
    ∃ front back, passes xs.length k xs = front ++ back ∧ back.length = k ∧
      (front ++ back).Perm xs ∧ back.Pairwise (· ≤ ·) ∧ ∀ x ∈ front, ∀ y ∈ back, x ≤ y := by
  induction k with
  | zero => exact ⟨xs, [], by simp [passes], rfl, by simp, List.Pairwise.nil, nofun⟩
  | succ k ih =>
      obtain ⟨front, back, heq, hlen, hperm, hsorted, hle⟩ := ih (by omega)
      have hfront : front.length = xs.length - k - 1 + 1 := by
        have hlength := hperm.length_eq
        rw [List.length_append] at hlength
        omega
      have hstep : passes xs.length (k + 1) xs =
          pass (front ++ back) (xs.length - k - 1) := by
        rw [passes, List.range_succ, List.foldl_append, ← heq]
        rfl
      obtain ⟨front', a, hpass, -, hperm', hmax⟩ :=
        @pass_spec _ _ (front ++ back) (xs.length - k - 1) (by rw [List.length_append]; omega)
      rw [← hfront, List.drop_left] at hpass
      rw [← hfront, List.take_left] at hperm'
      have hmem : ∀ x, x ∈ front' ∨ x = a → x ∈ front := by
        intro x hx
        refine hperm'.mem_iff.mp (List.mem_append.mpr ?_)
        exact hx.imp_right List.mem_singleton.mpr
      refine ⟨front', a :: back, hstep.trans hpass, by rw [List.length_cons, hlen], ?_, ?_, ?_⟩
      · refine List.Perm.trans ?_ hperm
        simpa using hperm'.append_right back
      · refine List.Pairwise.cons ?_ hsorted
        exact fun y hy => hle a (hmem a (.inr rfl)) y hy
      · intro x hx y hy
        rcases List.mem_cons.mp hy with rfl | hy
        · exact hmax x hx
        · exact hle x (hmem x (.inl hx)) y hy

theorem exchangeSort_perm (xs : List α) : (exchangeSort xs.length xs).Perm xs := by
  rcases Nat.eq_zero_or_pos xs.length with hzero | hpos
  · rw [exchangeSort, hzero]
    exact List.Perm.refl xs
  · obtain ⟨front, back, heq, -, hperm, -⟩ := @passes_spec _ _ xs (xs.length - 1) (by omega)
    rw [exchangeSort, heq]
    exact hperm

theorem exchangeSort_sorted (xs : List α) :
    (exchangeSort xs.length xs).Pairwise (· ≤ ·) := by
  rcases Nat.eq_zero_or_pos xs.length with hzero | hpos
  · obtain rfl := List.length_eq_zero_iff.mp hzero
    exact List.Pairwise.nil
  · obtain ⟨front, back, heq, hlen, hperm, hsorted, hle⟩ :=
      @passes_spec _ _ xs (xs.length - 1) (by omega)
    have hlength := hperm.length_eq
    rw [List.length_append] at hlength
    obtain ⟨x, rfl⟩ := List.length_eq_one_iff.mp (show front.length = 1 by omega)
    rw [exchangeSort, heq]
    exact List.Pairwise.cons (fun y hy => hle x (List.mem_singleton_self x) y hy) hsorted

theorem exchangeSort_eq_mergeSort {xs ys : List α} (h : xs.Perm ys) :
    exchangeSort xs.length xs = ys.mergeSort := by
  have hys : ys.mergeSort.Pairwise (· ≤ ·) := by
    have hpairwise := @List.pairwise_mergeSort α (fun a b => decide (a ≤ b))
      (fun a b c hab hbc => by
        simp only [decide_eq_true_eq] at hab hbc ⊢
        exact hab.trans hbc)
      (fun a b => by simpa using le_total a b) ys
    simpa using hpairwise
  exact (((exchangeSort_perm xs).trans h).trans (List.mergeSort_perm ys _).symm).eq_of_pairwise'
    (exchangeSort_sorted xs) hys

end ShGateway.Lib.ExchangeSort
