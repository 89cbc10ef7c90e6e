import Mathlib

/-!
A loop that polls until a turn has a result, with what happens outside between the turns.
-/

namespace ShGateway.Lib.PollLoop

variable {σ ρ : Type*}

/-- The turns from number `i` on, `none` when the fuel is used up before one has a result.
Behind turn `i` comes `wait i`. -/
def poll (turn : σ → ρ ⊕ σ) (wait : Nat → σ → σ) : Nat → Nat → σ → Option ρ
  | 0, _, _ => none
  | fuel + 1, i, s =>
      match turn s with
      | .inl r => some r
      | .inr s => poll turn wait fuel (i + 1) (wait i s)

section

variable {turn : σ → ρ ⊕ σ} {wait : Nat → σ → σ} {Inv : Nat → σ → Prop} {i k fuel : Nat} {s : σ}
  {r : ρ}

theorem poll_of_inr {s' : σ} (h : turn s = .inr s') :
    poll turn wait (fuel + 1) i s = poll turn wait fuel (i + 1) (wait i s') := by
  rw [poll, h]

theorem poll_of_inl (h : turn s = .inl r) : poll turn wait (fuel + 1) i s = some r := by
  rw [poll, h]

theorem poll_none
    (hturn : ∀ i s, i < k → Inv i s → ∃ s', turn s = .inr s' ∧ Inv (i + 1) (wait i s'))
    (hs : Inv i s) (hk : i + fuel ≤ k) : poll turn wait fuel i s = none := by
  induction fuel generalizing i s with
  | zero => rfl
  | succ fuel ih =>
      obtain ⟨s', hturn', hnext⟩ := hturn i s (by omega) hs
      rw [poll_of_inr hturn']
      exact ih hnext (by omega)

/-- The first turn with a result is number `k`. -/
theorem poll_some {R : ρ → Prop}
    (hturn : ∀ i s, i < k → Inv i s → ∃ s', turn s = .inr s' ∧ Inv (i + 1) (wait i s'))
    (hend : ∀ s, Inv k s → ∃ r, turn s = .inl r ∧ R r) (hs : Inv i s) (hi : i ≤ k)
    (hk : k < i + fuel) : ∃ r, poll turn wait fuel i s = some r ∧ R r := by
  induction fuel generalizing i s with
  | zero => omega
  | succ fuel ih =>
      rcases Nat.eq_or_lt_of_le hi with rfl | hlt
      · obtain ⟨r, hturn', hr⟩ := hend s hs
        exact ⟨r, poll_of_inl hturn', hr⟩
      · obtain ⟨s', hturn', hnext⟩ := hturn i s hlt hs
        rw [poll_of_inr hturn']
        exact ih hnext hlt (by omega)

end

end ShGateway.Lib.PollLoop
