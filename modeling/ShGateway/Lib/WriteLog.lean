import Mathlib

/-!
Memory from the start of an object on, with a record of the offsets that are written.
-/

namespace ShGateway.Lib.WriteLog

structure Region where
  bytes : Nat → UInt8
  written : List Nat := []

def Region.poke (r : Region) (i : Nat) (b : UInt8) : Region where
  bytes := Function.update r.bytes i b
  written := r.written ++ [i]

/-- The bytes `bs` one after another, from offset `i` on. -/
def Region.copy (r : Region) (i : Nat) : List UInt8 → Region
  | [] => r
  | b :: bs => (r.poke i b).copy (i + 1) bs

/-- The first `n` bytes. -/
def Region.slice (r : Region) (n : Nat) : List UInt8 := (List.range n).map r.bytes

section

variable {r : Region} {i n : Nat} {b : UInt8} {bs : List UInt8}

@[simp] theorem poke_written : (r.poke i b).written = r.written ++ [i] := rfl

@[simp] theorem poke_bytes_self : (r.poke i b).bytes i = b := Function.update_self ..

theorem poke_bytes_of_ne {j : Nat} (h : j ≠ i) : (r.poke i b).bytes j = r.bytes j :=
  Function.update_of_ne h _ _

@[simp] theorem slice_length : (r.slice n).length = n := by
  rw [Region.slice, List.length_map, List.length_range]

theorem copy_written : (r.copy i bs).written = r.written ++ List.range' i bs.length := by
  induction bs generalizing r i with
  | nil => exact (List.append_nil _).symm
  | cons b bs ih =>
      rw [Region.copy, ih, poke_written, List.append_assoc]
      rfl

theorem copy_bytes_of_lt {j : Nat} (h : j < i) : (r.copy i bs).bytes j = r.bytes j := by
  induction bs generalizing r i with
  | nil => rfl
  | cons b bs ih =>
      rw [Region.copy, ih (by omega), poke_bytes_of_ne (by omega)]

theorem copy_bytes {k : Nat} (hk : k < bs.length) : (r.copy i bs).bytes (i + k) = bs[k] := by
  induction bs generalizing r i k with
  | nil => exact absurd hk (Nat.not_lt_zero k)
  | cons b bs ih =>
      rw [Region.copy]
      cases k with
      | zero => exact (copy_bytes_of_lt (Nat.lt_succ_self i)).trans poke_bytes_self
      | succ k =>
          have hnext := @ih (r.poke i b) (i + 1) k (Nat.lt_of_succ_lt_succ hk)
          rwa [Nat.add_assoc, Nat.add_comm 1 k] at hnext

theorem slice_copy_take (hn : n ≤ bs.length) : (r.copy 0 bs).slice n = bs.take n := by
  apply List.ext_getElem
  · rw [slice_length, List.length_take_of_le hn]
  · intro k hk _
    rw [slice_length] at hk
    have hbyte := @copy_bytes r 0 bs k (hk.trans_le hn)
    rw [Nat.zero_add] at hbyte
    simpa [Region.slice] using hbyte

theorem slice_copy : (r.copy 0 bs).slice bs.length = bs := by
  rw [slice_copy_take (Nat.le_refl _), List.take_length]

theorem slice_succ : r.slice (n + 1) = r.slice n ++ [r.bytes n] := by
  rw [Region.slice, List.range_succ, List.map_append]
  rfl

theorem slice_poke (h : n ≤ i) : (r.poke i b).slice n = r.slice n := by
  apply List.map_congr_left
  intro j hj
  exact poke_bytes_of_ne (by have := List.mem_range.mp hj; omega)

/-- A string with its terminator, copied to the start. -/
theorem slice_copy_poke : ((r.copy 0 bs).poke bs.length b).slice (bs.length + 1) = bs ++ [b] := by
  rw [slice_succ, slice_poke (Nat.le_refl _), slice_copy, poke_bytes_self]

end

end ShGateway.Lib.WriteLog
