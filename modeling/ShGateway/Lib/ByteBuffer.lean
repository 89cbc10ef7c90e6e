import Mathlib

/-!
A buffer of a fixed length: an access behind its end is `none`.
-/

namespace ShGateway.Lib.ByteBuffer

variable {α : Type*}

/-- The values `xs` are stored from position `i` on. -/
def store (buf : List α) (i : Nat) (xs : List α) : Option (List α) :=
  if i + xs.length ≤ buf.length then some (buf.take i ++ xs ++ buf.drop (i + xs.length)) else none

/-- The `n` values from position `i` on. -/
def load (buf : List α) (i n : Nat) : Option (List α) :=
  if i + n ≤ buf.length then some ((buf.drop i).take n) else none

/-- A difference of unsigned numbers; it is `none` if it wraps around. -/
def minus (a b : Nat) : Option Nat := if b ≤ a then some (a - b) else none

variable {buf buf' xs : List α} {a b i j n : Nat}

theorem minus_of_le (h : b ≤ a) : minus a b = some (a - b) := if_pos h

theorem load_of_le (h : i + n ≤ buf.length) : load buf i n = some ((buf.drop i).take n) := if_pos h

theorem store_of_le (h : i + xs.length ≤ buf.length) :
    store buf i xs = some (buf.take i ++ xs ++ buf.drop (i + xs.length)) := if_pos h

theorem store_some (h : store buf i xs = some buf') :
    i + xs.length ≤ buf.length ∧ buf' = buf.take i ++ xs ++ buf.drop (i + xs.length) := by
  rw [store] at h
  split at h
  · rename_i hfits
    exact ⟨hfits, (Option.some_inj.mp h).symm⟩
  · exact nomatch h

theorem store_length (h : store buf i xs = some buf') : buf'.length = buf.length := by
  obtain ⟨hfits, rfl⟩ := store_some h
  simp only [List.length_append, List.length_take, List.length_drop]
  omega

theorem exists_store (h : i + xs.length ≤ buf.length) : ∃ buf', store buf i xs = some buf' :=
  ⟨_, store_of_le h⟩

end ShGateway.Lib.ByteBuffer
