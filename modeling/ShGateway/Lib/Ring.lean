import Mathlib

/-!
Queues in a ring of `n` slots, of which at most `n - 1` are in use.
-/

namespace ShGateway.Lib.Ring

variable {α β : Type*}

/-- What the slots from `tail` up to `head` hold, oldest first. -/
def contents (n : Nat) (storage : Nat → α) (head tail : Nat) : List α :=
  (List.range ((head + n - tail) % n)).map fun i => storage ((tail + i) % n)

/-- The ring holds the list `xs`. -/
structure Represents (n : Nat) (storage : Nat → α) (head tail : Nat) (xs : List α) :
    Prop where
  tail_lt : tail < n
  head_eq : head = (tail + xs.length) % n
  room : xs.length < n
  slot : ∀ (i : Nat) (hi : i < xs.length), storage ((tail + i) % n) = xs[i]

section

variable {n : Nat} {storage : Nat → α} {head tail : Nat} {xs : List α}

theorem represents_nil (storage : Nat → α) (hn : 0 < n) : Represents n storage 0 0 [] where
  tail_lt := hn
  head_eq := by simp
  room := hn
  slot := by simp

theorem add_mod_ring {a k : Nat} (ha : a < n) (hk : k < n) :
    (a + k) % n = if a + k < n then a + k else a + k - n := by
  split_ifs with hsum
  · exact Nat.mod_eq_of_lt hsum
  · rw [Nat.mod_eq_sub_mod (by omega), Nat.mod_eq_of_lt (by omega)]

theorem Represents.length_eq (h : Represents n storage head tail xs) :
    (head + n - tail) % n = xs.length := by
  have htail := h.tail_lt
  have hroom := h.room
  have hhead := h.head_eq
  rw [add_mod_ring htail hroom] at hhead
  split_ifs at hhead with hsum
  · have : head + n - tail = xs.length + n := by omega
    rw [this, Nat.add_mod_right, Nat.mod_eq_of_lt hroom]
  · have : head + n - tail = xs.length := by omega
    rw [this, Nat.mod_eq_of_lt hroom]

theorem Represents.contents_eq (h : Represents n storage head tail xs) :
    contents n storage head tail = xs := by
  rw [contents, h.length_eq]
  apply List.ext_getElem
  · simp
  · intro i hi hi'
    rw [List.getElem_map, List.getElem_range]
    exact h.slot i hi'

theorem Represents.empty_iff (h : Represents n storage head tail xs) :
    head = tail ↔ xs = [] := by
  have htail := h.tail_lt
  have hlen := h.length_eq
  have hroom := h.room
  rw [← List.length_eq_zero_iff, ← hlen]
  constructor
  · rintro rfl
    have : head + n - head = n := by omega
    rw [this, Nat.mod_self]
  · intro hzero
    rw [hzero] at hlen
    have hhead := h.head_eq
    rw [← hlen, Nat.add_zero, Nat.mod_eq_of_lt htail] at hhead
    exact hhead

/-- The ring is full when the slot behind the newest element is the last one. -/
theorem Represents.full_iff (h : Represents n storage head tail xs) :
    (head + 1) % n = tail ↔ xs.length + 1 = n := by
  have htail := h.tail_lt
  have hroom := h.room
  have hhead := h.head_eq
  rw [hhead, Nat.mod_add_mod, Nat.add_assoc]
  rcases Nat.eq_or_lt_of_le (show xs.length + 1 ≤ n from hroom) with heq | hlt
  · rw [heq, Nat.add_mod_right, Nat.mod_eq_of_lt htail]
    exact iff_of_true rfl rfl
  · rw [add_mod_ring htail hlt]
    split_ifs <;> omega

theorem Represents.front {x : α} (h : Represents n storage head tail (x :: xs)) :
    storage tail = x := by
  have hslot := h.slot 0 (by simp)
  rw [Nat.add_zero, Nat.mod_eq_of_lt h.tail_lt] at hslot
  exact hslot

theorem Represents.push (h : Represents n storage head tail xs) (hroom : xs.length + 1 < n)
    (x : α) :
    Represents n (Function.update storage head x) ((head + 1) % n) tail (xs ++ [x]) where
  tail_lt := h.tail_lt
  head_eq := by
    rw [h.head_eq, Nat.mod_add_mod, List.length_append, List.length_singleton,
      Nat.add_assoc]
  room := by simpa using hroom
  slot := by
    intro i hi
    have htail := h.tail_lt
    rw [List.length_append, List.length_singleton] at hi
    rcases Nat.eq_or_lt_of_le (Nat.le_of_lt_succ hi) with rfl | hlt
    · rw [← h.head_eq, Function.update_self]
      simp
    · have hne : (tail + i) % n ≠ head := by
        rw [h.head_eq, add_mod_ring htail (by omega), add_mod_ring htail (by omega)]
        split_ifs <;> omega
      rw [Function.update_of_ne hne, List.getElem_append_left hlt]
      exact h.slot i hlt

theorem Represents.pop {x : α} (h : Represents n storage head tail (x :: xs)) :
    Represents n storage head ((tail + 1) % n) xs where
  tail_lt := Nat.mod_lt _ (Nat.zero_lt_of_lt h.tail_lt)
  head_eq := by
    rw [h.head_eq, Nat.mod_add_mod, List.length_cons, Nat.add_right_comm, Nat.add_assoc]
  room := by
    have hroom := h.room
    rw [List.length_cons] at hroom
    omega
  slot := by
    intro i hi
    have hslot := h.slot (i + 1) (by simpa using hi)
    rw [Nat.mod_add_mod, Nat.add_assoc, Nat.add_comm 1 i, hslot]
    simp

theorem contents_length_lt (hn : 0 < n) (storage : Nat → α) (head tail : Nat) :
    (contents n storage head tail).length < n := by
  rw [contents, List.length_map, List.length_range]
  exact Nat.mod_lt _ hn

theorem Represents.drop (h : Represents n storage head tail xs) {k : Nat}
    (hk : k ≤ xs.length) : Represents n storage head ((tail + k) % n) (xs.drop k) := by
  induction k with
  | zero =>
      rw [Nat.add_zero, Nat.mod_eq_of_lt h.tail_lt]
      exact h
  | succ k ih =>
      have hpop := ih (by omega)
      rw [List.drop_eq_getElem_cons (by omega)] at hpop
      have hnext := hpop.pop
      rw [Nat.mod_add_mod, Nat.add_assoc] at hnext
      exact hnext

theorem Represents.linear (h : Represents n storage head tail xs) {k : Nat}
    (hk : k ≤ xs.length) (hlin : tail + k ≤ n) :
    (List.range k).map (fun i => storage (tail + i)) = xs.take k := by
  apply List.ext_getElem
  · simp [hk]
  · intro i hi hi'
    rw [List.length_map, List.length_range] at hi
    have hslot := h.slot i (by omega)
    rw [Nat.mod_eq_of_lt (by omega)] at hslot
    rw [List.getElem_map, List.getElem_range, List.getElem_take, hslot]

end

end ShGateway.Lib.Ring
