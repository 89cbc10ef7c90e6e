import Mathlib

/-!
A loop that counts up to an inclusive bound, as far as its fuel goes.
-/

namespace ShGateway.Lib.CountedLoop

section

variable {ι σ : Type*} [LE ι] [DecidableLE ι]

/-- `for(; i <= stop; i = next i) body`, `none` when the fuel is used up before it ends. -/
def loop (next : ι → ι) (stop : ι) (body : ι → σ → σ) : Nat → ι → σ → Option σ
  | 0, _, _ => none
  | fuel + 1, i, s =>
      if i ≤ stop then loop next stop body fuel (next i) (body i s) else some s

variable {next : ι → ι} {stop i : ι} {body : ι → σ → σ} {n fuel : Nat} {s : σ}

/-- A loop whose counter passes the bound after `n` turns. -/
theorem loop_of_passed (hturns : ∀ j ∈ List.iterate next i n, j ≤ stop)
    (hend : ¬ next^[n] i ≤ stop) (hfuel : n < fuel) :
    loop next stop body fuel i s =
      some ((List.iterate next i n).foldl (fun s j => body j s) s) := by
  induction n generalizing fuel i s with
  | zero =>
      obtain ⟨fuel, rfl⟩ := Nat.exists_eq_succ_of_ne_zero (Nat.ne_of_gt hfuel)
      exact if_neg hend
  | succ n ih =>
      obtain ⟨fuel, rfl⟩ := Nat.exists_eq_succ_of_ne_zero (Nat.ne_of_gt (n.succ_pos.trans hfuel))
      have hfirst : i ≤ stop := hturns i List.mem_cons_self
      rw [loop, if_pos hfirst]
      exact ih (fun j hj => hturns j (List.mem_cons_of_mem i hj)) hend
        (Nat.lt_of_succ_lt_succ hfuel)

/-- A loop whose bound no counter passes. -/
theorem loop_of_forall_le (h : ∀ j, j ≤ stop) : loop next stop body fuel i s = none := by
  induction fuel generalizing i s with
  | zero => rfl
  | succ fuel ih =>
      rw [loop, if_pos (h i)]
      exact ih

end

/-! ## Counters of eight bits -/

section

variable {i : UInt8} {n : Nat}

theorem toNat_add_one (h : i.toNat + 1 < 256) : (i + 1).toNat = i.toNat + 1 := by
  rw [UInt8.toNat_add]
  exact Nat.mod_eq_of_lt h

theorem iterate_toNat (h : i.toNat + n < 256) : ((· + 1)^[n] i).toNat = i.toNat + n := by
  induction n generalizing i with
  | zero => rfl
  | succ n ih =>
      have hnext := toNat_add_one (show i.toNat + 1 < 256 by omega)
      rw [Function.iterate_succ_apply, ih (by omega), hnext]
      omega

theorem map_toNat_iterate (h : i.toNat + n ≤ 256) :
    (List.iterate (· + 1) i n).map UInt8.toNat = List.range' i.toNat n := by
  induction n generalizing i with
  | zero => rfl
  | succ n ih =>
      rw [List.iterate, List.map_cons, List.range'_succ]
      cases n with
      | zero => rfl
      | succ n =>
          have hnext := toNat_add_one (show i.toNat + 1 < 256 by omega)
          rw [ih (by omega), hnext]

end

end ShGateway.Lib.CountedLoop
