import Mathlib

/-!
Binary search between two positions, both of them included.
-/

namespace ShGateway.Lib.BinarySearch

variable {κ : Type*} [LinearOrder κ]

/-- A position between `lo` and `hi` with the key `x`. -/
def search (key : Nat → κ) (x : κ) (lo hi : Nat) : Option Nat :=
  if lo < hi then
    let mid := (lo + hi) / 2
    if x = key mid then some mid
    else if x < key mid then search key x lo (mid - 1)
    else search key x (mid + 1) hi
  else if lo = hi ∧ x = key lo then some lo
  else none
termination_by hi - lo
decreasing_by all_goals omega

/-- The keys increase from `lo` to `hi`. -/
def Increasing (key : Nat → κ) (lo hi : Nat) : Prop :=
  ∀ i j, lo ≤ i → i < j → j ≤ hi → key i < key j

variable {key : Nat → κ} {x : κ} {lo hi i : Nat}

theorem Increasing.mono {lo' hi' : Nat} (h : Increasing key lo hi) (hlo : lo ≤ lo') (hhi : hi' ≤ hi) :
    Increasing key lo' hi' :=
  fun i j hi hij hj => h i j (Nat.le_trans hlo hi) hij (Nat.le_trans hj hhi)

/-- The search finds a key if, and only if, it is there. -/
theorem search_eq_some (h : Increasing key lo hi) :
    search key x lo hi = some i ↔ lo ≤ i ∧ i ≤ hi ∧ key i = x := by
  fun_induction search key x lo hi with
  | case1 lo hi hlt mid heq =>
      rw [Option.some_inj]
      constructor
      · rintro rfl
        exact ⟨by omega, by omega, heq.symm⟩
      · rintro ⟨hlo, hhi, hkey⟩
        rcases Nat.lt_trichotomy mid i with hi' | hi' | hi'
        · exact absurd (heq.symm.trans hkey.symm) (h mid i (by omega) hi' hhi).ne
        · exact hi'
        · exact absurd (hkey.trans heq) (h i mid hlo hi' (by omega)).ne
  | case2 lo hi hlt mid hne hless ih =>
      rw [ih (h.mono (Nat.le_refl lo) (by omega))]
      constructor
      · rintro ⟨hlo, hhi, hkey⟩
        exact ⟨hlo, by omega, hkey⟩
      · rintro ⟨hlo, hhi, hkey⟩
        refine ⟨hlo, ?_, hkey⟩
        rcases Nat.lt_trichotomy mid i with hi' | hi' | hi'
        · have hmid := h mid i (by omega) hi' hhi
          rw [hkey] at hmid
          exact absurd hmid hless.asymm
        · exact absurd (hi' ▸ hkey).symm hne
        · omega
  | case3 lo hi hlt mid hne hless ih =>
      rw [ih (h.mono (by omega) (Nat.le_refl hi))]
      constructor
      · rintro ⟨hlo, hhi, hkey⟩
        exact ⟨by omega, hhi, hkey⟩
      · rintro ⟨hlo, hhi, hkey⟩
        refine ⟨?_, hhi, hkey⟩
        rcases Nat.lt_trichotomy mid i with hi' | hi' | hi'
        · omega
        · exact absurd (hi' ▸ hkey).symm hne
        · have hmid := h i mid hlo hi' (by omega)
          rw [hkey] at hmid
          exact absurd hmid hless
  | case4 lo hi hlt hfound =>
      rw [Option.some_inj]
      constructor
      · rintro rfl
        exact ⟨Nat.le_refl _, hfound.1.le, hfound.2.symm⟩
      · rintro ⟨hlo, hhi, -⟩
        omega
  | case5 lo hi hlt hmissing =>
      constructor
      · exact nofun
      rintro ⟨hlo, hhi, hkey⟩
      have hends : lo = hi := by omega
      have hi' : i = lo := by omega
      exact absurd ⟨hends, (hi' ▸ hkey).symm⟩ hmissing

end ShGateway.Lib.BinarySearch
