import ShGateway.Lib.NorFlash

/-!
Memory in which any bytes can be overwritten.
-/

namespace ShGateway.Lib.Ram

open ShGateway.Lib.NorFlash

/-- The bytes `bs` are stored from address `a` on. -/
def storeBytes (m : Mem) (a : Nat) (bs : List UInt8) : Mem := fun i =>
  if a ≤ i ∧ i < a + bs.length then bs.getD (i - a) 0 else m i

variable {m : Mem} {a i : Nat} {bs cs : List UInt8}

theorem storeBytes_inside (hi : i < bs.length) : storeBytes m a bs (a + i) = bs[i] := by
  rw [storeBytes, if_pos ⟨by omega, by omega⟩, Nat.add_sub_cancel_left,
    List.getD_eq_getElem _ _ hi]

theorem storeBytes_outside (hi : i < a ∨ a + bs.length ≤ i) : storeBytes m a bs i = m i :=
  if_neg (by omega)

theorem storeBytes_append :
    storeBytes m a (bs ++ cs) = storeBytes (storeBytes m a bs) (a + bs.length) cs := by
  funext i
  rcases Nat.lt_or_ge i a with hlow | hlow
  · rw [storeBytes_outside (.inl hlow), storeBytes_outside (.inl (by omega)),
      storeBytes_outside (.inl hlow)]
  obtain ⟨k, rfl⟩ := Nat.exists_eq_add_of_le hlow
  rcases Nat.lt_or_ge k bs.length with hk | hk
  · rw [storeBytes_inside (by rw [List.length_append]; omega),
      storeBytes_outside (.inl (by omega)), storeBytes_inside hk, List.getElem_append_left hk]
  obtain ⟨j, rfl⟩ := Nat.exists_eq_add_of_le hk
  rcases Nat.lt_or_ge j cs.length with hj | hj
  · rw [storeBytes_inside (by rw [List.length_append]; omega), ← Nat.add_assoc,
      storeBytes_inside hj, List.getElem_append_right (by omega)]
    simp only [Nat.add_sub_cancel_left]
  · rw [storeBytes_outside (.inr (by rw [List.length_append]; omega)),
      storeBytes_outside (.inr (by omega)), storeBytes_outside (.inr (by omega))]

theorem readBytes_storeBytes : readBytes (storeBytes m a bs) a bs.length = bs :=
  (readBytes_eq_iff _ _ _).mpr fun _ hi => storeBytes_inside hi

theorem readBytes_split {n k : Nat} (h : k ≤ n) :
    readBytes m a n = readBytes m a k ++ readBytes m (a + k) (n - k) := by
  rw [← readBytes_add, Nat.add_sub_cancel' h]

end ShGateway.Lib.Ram
