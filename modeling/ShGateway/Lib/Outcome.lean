import Mathlib

/-!
Computations that may fail: that one of them does not, and what holds of its result.
-/

namespace ShGateway.Lib.Outcome

universe u

variable {α β σ : Type u}

/-- There is a result, and it satisfies `Q`. -/
def Ends (o : Option α) (Q : α → Prop) : Prop := ∃ a, o = some a ∧ Q a

variable {o : Option α} {P Q : α → Prop} {R : β → Prop} {a : α} {f : α → Option β}

theorem Ends.some (h : Q a) : Ends (some a) Q := ⟨a, rfl, h⟩

theorem Ends.mono (h : Ends o P) (hPQ : ∀ a, P a → Q a) : Ends o Q := by
  obtain ⟨a, ha, hP⟩ := h
  exact ⟨a, ha, hPQ a hP⟩

theorem Ends.and (hP : Ends o P) (hQ : Ends o Q) : Ends o fun a => P a ∧ Q a := by
  obtain ⟨a, rfl, hPa⟩ := hP
  obtain ⟨b, hb, hQb⟩ := hQ
  rw [← Option.some.inj hb] at hQb
  exact ⟨a, rfl, hPa, hQb⟩

theorem Ends.bind (h : Ends o P) (hf : ∀ a, P a → Ends (f a) R) : Ends (o >>= f) R := by
  obtain ⟨a, rfl, hP⟩ := h
  exact hf a hP

theorem Ends.ite {c : Prop} [Decidable c] {o' : Option α} (hc : c → Ends o Q)
    (hnc : ¬ c → Ends o' Q) : Ends (if c then o else o') Q := by
  split
  · rename_i h
    exact hc h
  · rename_i h
    exact hnc h

/-- The rule for runs: no step fails in a state with the invariant, and each keeps it. -/
theorem Ends.foldlM {step : σ → β → Option σ} {Inv : σ → Prop} {s : σ} (hs : Inv s)
    (hstep : ∀ s x, Inv s → Ends (step s x) Inv) (xs : List β) : Ends (xs.foldlM step s) Inv := by
  induction xs generalizing s with
  | nil => exact Ends.some hs
  | cons x xs ih =>
      rw [List.foldlM_cons]
      exact Ends.bind (hstep s x hs) fun _ h => ih h

/-- The rule for waiting: each step has an end, or comes closer to it. -/
theorem Ends.waiting {step : σ → β → Option σ} {C : β → Prop} {Inv Q : σ → Prop} (μ : σ → Nat)
    (hstep : ∀ s x, Inv s → C x → Ends (step s x) fun s' => Q s' ∨ Inv s' ∧ μ s' < μ s) (s : σ)
    (hs : Inv s) (xs : List β) (hxs : ∀ x ∈ xs, C x) (hlong : μ s < xs.length) :
    ∃ k ≤ μ s + 1, Ends ((xs.take k).foldlM step s) Q := by
  induction xs generalizing s with
  | nil => exact absurd hlong (Nat.not_lt_zero _)
  | cons x xs ih =>
      obtain ⟨s', hs', hend | ⟨hinv, hless⟩⟩ := hstep s x hs (hxs x List.mem_cons_self)
      · refine ⟨1, Nat.succ_le_succ (Nat.zero_le _), s', ?_, hend⟩
        rw [List.take_succ_cons, List.take_zero, List.foldlM_cons, hs']
        rfl
      · obtain ⟨k, hk, hends⟩ := ih s' hinv (fun y hy => hxs y (List.mem_cons_of_mem x hy))
          (hless.trans_le (Nat.le_of_lt_succ hlong))
        refine ⟨k + 1, Nat.succ_le_succ (hk.trans hless), ?_⟩
        rw [List.take_succ_cons, List.foldlM_cons, hs']
        exact hends

end ShGateway.Lib.Outcome
