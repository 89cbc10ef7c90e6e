import Mathlib

/-!
Computations on a state whose loops may go on for ever, and what holds when they end or when their
fuel is used up.
-/

namespace ShGateway.Lib.LoopRules

/-- The result of a computation on a state, `none` when the fuel is used up, and the state reached. -/
def Attempt (σ α : Type) := σ → Option α × σ

variable {σ α β ρ : Type}

instance : Monad (Attempt σ) where
  pure a := fun s => (some a, s)
  bind x f := fun s =>
    match x s with
    | (some a, s) => f a s
    | (none, s) => (none, s)

def getState : Attempt σ σ := fun s => (some s, s)

def update (f : σ → σ) : Attempt σ Unit := fun s => (some (), f s)

def outOfFuel : Attempt σ α := fun s => (none, s)

/-- A loop over `turn`, which ends it with a result or goes on with new local variables. -/
def iterate (turn : β → Attempt σ (ρ ⊕ β)) : Nat → β → Attempt σ ρ
  | 0, _ => outOfFuel
  | fuel + 1, b => do
      match ← turn b with
      | .inl r => pure r
      | .inr b => iterate turn fuel b

/-- From `s` the computation ends with `Q`, or uses up its fuel with `E`. -/
def Wp (x : Attempt σ α) (Q : α → σ → Prop) (E : σ → Prop) (s : σ) : Prop :=
  match x s with
  | (some a, s) => Q a s
  | (none, s) => E s

section

variable {x : Attempt σ α} {Q Q' : α → σ → Prop} {E E' : σ → Prop} {s : σ}

@[simp] theorem wp_getState {Q : σ → σ → Prop} : Wp getState Q E s ↔ Q s s := Iff.rfl

@[simp] theorem wp_update {f : σ → σ} {Q : Unit → σ → Prop} :
    Wp (update f) Q E s ↔ Q () (f s) := Iff.rfl

@[simp] theorem wp_bind {f : α → Attempt σ β} {Q : β → σ → Prop} :
    Wp (x >>= f) Q E s ↔ Wp x (fun a s => Wp (f a) Q E s) E s := by
  change (match (match x s with | (some a, s) => f a s | (none, s) => (none, s)) with
    | (some b, s) => Q b s
    | (none, s) => E s) ↔ _
  rw [Wp]
  rcases x s with ⟨_ | a, s⟩
  · exact Iff.rfl
  · exact Iff.rfl

theorem Wp.mono (h : Wp x Q E s) (hQ : ∀ a s, Q a s → Q' a s) (hE : ∀ s, E s → E' s) :
    Wp x Q' E' s := by
  revert h
  rw [Wp, Wp]
  rcases x s with ⟨_ | a, s⟩
  · exact hE s
  · exact hQ a s

theorem Wp.ite {c : Prop} [Decidable c] {y : Attempt σ α} (hx : c → Wp x Q E s)
    (hy : ¬ c → Wp y Q E s) : Wp (if c then x else y) Q E s := by
  split_ifs with hc
  · exact hx hc
  · exact hy hc

/-- What every turn keeps holds when a turn ends the loop, and when the fuel ends it. -/
theorem Wp.iterate {turn : β → Attempt σ (ρ ⊕ β)} (Inv : β → σ → Prop) {Q : ρ → σ → Prop}
    (hturn : ∀ b s, Inv b s → Wp (turn b) (fun r s => r.elim (Q · s) (Inv · s)) E s)
    (hfuel : ∀ b s, Inv b s → E s) (fuel : Nat) {b : β} (h : Inv b s) :
    Wp (iterate turn fuel b) Q E s := by
  induction fuel generalizing b s with
  | zero => exact hfuel b s h
  | succ fuel ih =>
      rw [LoopRules.iterate, wp_bind]
      refine (hturn b s h).mono (fun r s hr => ?_) fun _ => id
      rcases r with r | b
      · exact hr
      · exact ih hr

end

section

variable {x : Attempt σ α} {Q : α → σ → Prop} {E : σ → Prop} {s : σ}

theorem Wp.result (h : Wp x Q E s) {a : α} (ha : (x s).1 = some a) : Q a (x s).2 := by
  rw [Wp] at h
  rcases hx : x s with ⟨_ | a', s'⟩
  · rw [hx] at ha
    cases ha
  · rw [hx] at h ha
    obtain rfl := Option.some.inj ha
    exact h

/-- What holds of every end, and of the state where the fuel is used up. -/
theorem Wp.reached (h : Wp x Q E s) {R : σ → Prop} (hQ : ∀ a s, Q a s → R s)
    (hE : ∀ s, E s → R s) : R (x s).2 := by
  rw [Wp] at h
  rcases hx : x s with ⟨_ | a, s'⟩
  · rw [hx] at h
    exact hE s' h
  · rw [hx] at h
    exact hQ a s' h

end

end ShGateway.Lib.LoopRules
