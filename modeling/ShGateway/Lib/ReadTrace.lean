import ShGateway.Lib.NorFlash

/-!
Computations that read memory byte by byte, with the addresses they read.
-/

namespace ShGateway.Lib.ReadTrace

open ShGateway.Lib.NorFlash

/-- A value that is computed from memory, and the addresses read for it. -/
def Reading (α : Type) := Mem → α × List Nat

instance : Monad Reading where
  pure a := fun _ => (a, [])
  bind x f := fun m => ((f (x m).1 m).1, (x m).2 ++ (f (x m).1 m).2)

variable {α β : Type}

/-- The byte at an address. -/
def readByte (a : Nat) : Reading UInt8 := fun m => (m a, [a])

def Reading.value (x : Reading α) (m : Mem) : α := (x m).1

/-- All addresses that are read satisfy `P`. -/
def ReadsIn (P : Nat → Prop) (x : Reading α) (m : Mem) : Prop := ∀ a ∈ (x m).2, P a

@[simp] theorem value_pure (a : α) (m : Mem) : (pure a : Reading α).value m = a := (rfl)

@[simp] theorem value_bind (x : Reading α) (f : α → Reading β) (m : Mem) :
    (x >>= f).value m = (f (x.value m)).value m := (rfl)

@[simp] theorem value_readByte (a : Nat) (m : Mem) : (readByte a).value m = m a := (rfl)

theorem value_ite {c : Prop} {_ : Decidable c} (x y : Reading α) (m : Mem) :
    (if c then x else y).value m = if c then x.value m else y.value m := by
  by_cases hc : c
  · rw [if_pos hc, if_pos hc]
  · rw [if_neg hc, if_neg hc]

section

variable {P : Nat → Prop} {m : Mem}

@[simp] theorem readsIn_pure (a : α) : ReadsIn P (pure a) m := by
  intro _ h
  cases h

@[simp] theorem readsIn_readByte {a : Nat} : ReadsIn P (readByte a) m ↔ P a := by
  simp [ReadsIn, readByte]

theorem readsIn_bind {x : Reading α} {f : α → Reading β} :
    ReadsIn P (x >>= f) m ↔ ReadsIn P x m ∧ ReadsIn P (f (x.value m)) m :=
  List.forall_mem_append

theorem ReadsIn.bind {x : Reading α} {f : α → Reading β} (hx : ReadsIn P x m)
    (hf : ReadsIn P (f (x.value m)) m) : ReadsIn P (x >>= f) m :=
  readsIn_bind.mpr ⟨hx, hf⟩

theorem ReadsIn.ite {c : Prop} [Decidable c] {x y : Reading α} (hx : c → ReadsIn P x m)
    (hy : ¬ c → ReadsIn P y m) : ReadsIn P (if c then x else y) m := by
  by_cases hc : c
  · rw [if_pos hc]
    exact hx hc
  · rw [if_neg hc]
    exact hy hc

/-- All addresses that are read satisfy `P` and the result satisfies `Q`. -/
structure Yields (P : Nat → Prop) (Q : α → Prop) (x : Reading α) (m : Mem) : Prop where
  reads : ReadsIn P x m
  result : Q (x.value m)

theorem Yields.pure {Q : α → Prop} {a : α} (h : Q a) : Yields P Q (pure a) m :=
  ⟨readsIn_pure a, h⟩

theorem Yields.bind {Q : β → Prop} {x : Reading α} {f : α → Reading β}
    (hx : ReadsIn P x m) (hf : Yields P Q (f (x.value m)) m) : Yields P Q (x >>= f) m :=
  ⟨hx.bind hf.reads, hf.result⟩

theorem Yields.ite {Q : α → Prop} {c : Prop} [Decidable c] {x y : Reading α}
    (hx : c → Yields P Q x m) (hy : ¬ c → Yields P Q y m) :
    Yields P Q (if c then x else y) m := by
  by_cases hc : c
  · rw [if_pos hc]
    exact hx hc
  · rw [if_neg hc]
    exact hy hc

end

/-- The bytes from an address on, read in order. -/
def readAll (a : Nat) : Nat → Reading (List UInt8)
  | 0 => pure []
  | n + 1 => do
      let b ← readByte a
      let bs ← readAll (a + 1) n
      pure (b :: bs)

@[simp] theorem value_readAll (a n : Nat) (m : Mem) :
    (readAll a n).value m = readBytes m a n := by
  induction n generalizing a with
  | zero => rfl
  | succ n ih =>
      rw [readAll, value_bind, value_bind, ih, readBytes_succ]
      rfl

theorem readsIn_readAll {P : Nat → Prop} {a n : Nat} {m : Mem}
    (h : ∀ i < n, P (a + i)) : ReadsIn P (readAll a n) m := by
  induction n generalizing a with
  | zero => exact readsIn_pure _
  | succ n ih =>
      refine .bind (readsIn_readByte.mpr (h 0 (Nat.succ_pos n))) (.bind (ih fun i hi => ?_)
        (readsIn_pure _))
      rw [Nat.add_assoc, Nat.add_comm 1]
      exact h (i + 1) (by omega)

end ShGateway.Lib.ReadTrace
