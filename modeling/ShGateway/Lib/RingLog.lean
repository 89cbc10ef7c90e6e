import Mathlib

/-!
Rings of `n` slots that always keep the last `n` values written to them.
-/

namespace ShGateway.Lib.RingLog

variable {α β : Type*}

/-- The last `n` of some values, behind empty slots for those that are not there yet. -/
def window (n : Nat) (xs : List α) : List (Option α) :=
  List.replicate (n - xs.length) none ++ (xs.drop (xs.length - n)).map some

theorem window_nil (n : Nat) : window n ([] : List α) = List.replicate n none := by
  rw [window, List.drop_nil, List.map_nil, List.append_nil]
  rfl

theorem window_snoc {n : Nat} (hn : 0 < n) (xs : List α) (x : α) :
    window n (xs ++ [x]) = (window n xs).tail ++ [some x] := by
  rcases Nat.lt_or_ge xs.length n with hlt | hge
  · -- an empty slot is left
    have hsub : xs.length - n = 0 := by omega
    have hsub' : (xs ++ [x]).length - n = 0 := by
      rw [List.length_append, List.length_singleton]
      omega
    obtain ⟨k, hk⟩ : ∃ k, n - xs.length = k + 1 := ⟨n - xs.length - 1, by omega⟩
    have hk' : n - (xs ++ [x]).length = k := by
      rw [List.length_append, List.length_singleton]
      omega
    rw [window, window, hsub, hsub', hk, hk', List.drop_zero, List.drop_zero,
      List.replicate_succ, List.cons_append, List.tail_cons, List.map_append, List.append_assoc]
    rfl
  · have hk : n - xs.length = 0 := by omega
    have hk' : n - (xs ++ [x]).length = 0 := by
      rw [List.length_append, List.length_singleton]
      omega
    have hsub : (xs ++ [x]).length - n = xs.length - n + 1 := by
      rw [List.length_append, List.length_singleton]
      omega
    rw [window, window, hk, hk', hsub, List.replicate_zero, List.nil_append, List.nil_append,
      List.drop_append_of_le_length (by omega), List.map_append, ← List.map_tail, List.tail_drop]
    rfl

/-- Read from the slot behind the oldest value on, a ring that has room yields its values in
order, and a full one yields the oldest value last. -/
theorem window_rotate_one (n : Nat) (xs : List α) :
    ((window n xs).rotate 1).filterMap id =
      if xs.length < n then xs else (xs.drop (xs.length - n)).rotate 1 := by
  have hsome : ∀ ys : List α, (ys.map some).filterMap id = ys := by
    intro ys
    rw [List.filterMap_map]
    exact List.filterMap_some
  rcases Nat.lt_or_ge xs.length n with hlt | hge
  · have hsub : xs.length - n = 0 := by omega
    obtain ⟨k, hk⟩ : ∃ k, n - xs.length = k + 1 := ⟨n - xs.length - 1, by omega⟩
    rw [if_pos hlt, window, hsub, hk, List.drop_zero, List.replicate_succ, List.cons_append,
      List.rotate_cons_succ, List.rotate_zero, List.filterMap_append, List.filterMap_append,
      hsome, List.filterMap_replicate_of_none rfl]
    simp
  · have hk : n - xs.length = 0 := by omega
    rw [if_neg (Nat.not_lt.mpr hge), window, hk, List.replicate_zero, List.nil_append,
      ← List.map_rotate, hsome]

theorem rotate_set {l : List α} {p : Nat} (hp : p < l.length) (x : α) :
    (l.set p x).rotate (p + 1) = (l.rotate p).tail ++ [x] := by
  obtain ⟨a, y, b, rfl, rfl⟩ : ∃ a y b, l = a ++ y :: b ∧ a.length = p := by
    refine ⟨l.take p, l[p], l.drop (p + 1), ?_, List.length_take_of_le hp.le⟩
    rw [List.cons_getElem_drop_succ, List.take_append_drop]
  have hset : (a ++ y :: b).set a.length x = a ++ [x] ++ b := by
    rw [List.set_append_right _ _ (Nat.le_refl _), Nat.sub_self, List.append_assoc]
    rfl
  have hlength : a.length + 1 = (a ++ [x]).length := by
    rw [List.length_append, List.length_singleton]
  rw [hset, hlength, List.rotate_append_length_eq, List.rotate_append_length_eq,
    List.cons_append, List.tail_cons, List.append_assoc]

/-- A ring written to at its position keeps the window. -/
theorem write_window {l : List (Option α)} {p : Nat} {xs : List α}
    (h : l.rotate p = window l.length xs) (hp : p < l.length) (x : α) :
    (l.set p (some x)).rotate (p + 1) = window l.length (xs ++ [x]) := by
  rw [rotate_set hp, h, window_snoc (by omega)]

/-! ## Walking around -/

/-- The slots from `p` on, `n` of them, going back to the first after the last. -/
def walk (l : List α) : Nat → Nat → List α
  | 0, _ => []
  | n + 1, p =>
      match l[p]? with
      | some x => x :: walk l n (if p + 1 ≥ l.length then 0 else p + 1)
      | none => []

theorem walk_eq (l : List α) {n p : Nat} (hn : n ≤ l.length) (hp : p < l.length) :
    walk l n p = (l.rotate p).take n := by
  induction n generalizing p with
  | zero => rfl
  | succ n ih =>
      obtain ⟨rest, hrest⟩ : ∃ rest, l.rotate p = l[p] :: rest := by
        have hhead : (l.rotate p).head? = some l[p] := by
          rw [List.head?_rotate hp, List.getElem?_eq_getElem hp]
        exact ⟨_, List.eq_cons_of_mem_head? hhead⟩
      have hlength : rest.length + 1 = l.length := by
        rw [← List.length_rotate l p, hrest, List.length_cons]
      have hnext : l.rotate (if p + 1 ≥ l.length then 0 else p + 1) = rest ++ [l[p]] := by
        have hone : l.rotate (p + 1) = rest ++ [l[p]] := by
          rw [← List.rotate_rotate, hrest, List.rotate_cons_succ, List.rotate_zero]
        split_ifs with hwrap
        · have hend : p + 1 = l.length := by omega
          rw [List.rotate_zero, ← hone, hend, List.rotate_length]
        · exact hone
      have hlt : (if p + 1 ≥ l.length then 0 else p + 1) < l.length := by
        split_ifs <;> omega
      rw [walk, List.getElem?_eq_getElem hp, hrest, List.take_succ_cons]
      dsimp only
      rw [ih (by omega) hlt, hnext, List.take_append_of_le_length (by omega)]

theorem walk_length (l : List α) {p : Nat} (hp : p < l.length) :
    walk l l.length p = l.rotate p := by
  rw [walk_eq l (Nat.le_refl _) hp, List.take_of_length_le (List.length_rotate l p).le]

end ShGateway.Lib.RingLog
