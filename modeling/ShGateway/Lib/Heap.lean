import Mathlib.Logic.Function.Basic

/-!
Cells on a heap whose addresses are not handed out again once they have been freed.
-/

namespace ShGateway.Lib

variable {α : Type*}

/-- The addresses from `next` on have not been handed out yet. -/
structure Heap (α : Type*) where
  cell : Nat → Option α
  next : Nat
  fresh : ∀ i, next ≤ i → cell i = none

namespace Heap

variable {h : Heap α} {a : α} {f : α → α} {p : Option Nat} {i j : Nat}

def empty : Heap α := ⟨fun _ => none, 0, fun _ _ => rfl⟩

/-- What a pointer points to, if it is neither null nor dangling. -/
def deref (h : Heap α) (p : Option Nat) : Option α := p.bind h.cell

theorem fresh_update {x : Option α} (hlt : i < h.next ∨ x = none) :
    ∀ j, h.next ≤ j → Function.update h.cell i x j = none := by
  intro j hj
  rcases eq_or_ne j i with rfl | hne
  · rw [Function.update_self]
    exact hlt.resolve_left (by omega)
  · rw [Function.update_of_ne hne]
    exact h.fresh j hj

theorem lt_next (ha : h.cell i = some a) : i < h.next := by
  by_contra hlt
  rw [h.fresh i (Nat.not_lt.mp hlt)] at ha
  cases ha

theorem fresh_put (h : Heap α) (i : Nat) (f : α → α) :
    ∀ j, h.next ≤ j → Function.update h.cell i ((h.cell i).map f) j = none := by
  refine fresh_update ?_
  cases ha : h.cell i with
  | none => exact .inr rfl
  | some a => exact .inl (lt_next ha)

theorem fresh_drop (h : Heap α) (i : Nat) :
    ∀ j, h.next ≤ j → Function.update h.cell i none j = none := fresh_update (.inr rfl)

theorem fresh_alloc (h : Heap α) (a : α) :
    ∀ j, h.next + 1 ≤ j → Function.update h.cell h.next (some a) j = none := by
  intro j hj
  rw [Function.update_of_ne (by omega)]
  exact h.fresh j (by omega)

/-- The cell at `i` is changed, if there is one. -/
def put (h : Heap α) (i : Nat) (f : α → α) : Heap α :=
  ⟨Function.update h.cell i ((h.cell i).map f), h.next, fresh_put h i f⟩

def drop (h : Heap α) (i : Nat) : Heap α :=
  ⟨Function.update h.cell i none, h.next, fresh_drop h i⟩

/-- The new cell is at `h.next`. -/
def alloc (h : Heap α) (a : α) : Heap α :=
  ⟨Function.update h.cell h.next (some a), h.next + 1, fresh_alloc h a⟩

/-- Changing a cell through a pointer. -/
def modify (h : Heap α) (p : Option Nat) (f : α → α) : Option (Heap α) :=
  p.bind fun i => (h.cell i).map fun _ => h.put i f

/-- Freeing a cell through a pointer. -/
def free (h : Heap α) (p : Option Nat) : Option (Heap α) :=
  p.bind fun i => (h.cell i).map fun _ => h.drop i

@[simp]
theorem deref_some : h.deref (some i) = h.cell i := rfl

@[simp]
theorem deref_none : h.deref none = none := rfl

@[simp]
theorem put_self (ha : h.cell i = some a) : (h.put i f).cell i = some (f a) := by
  change Function.update h.cell i _ i = _
  rw [Function.update_self, ha, Option.map_some]

@[simp]
theorem put_of_ne (hne : j ≠ i) : (h.put i f).cell j = h.cell j := Function.update_of_ne hne _ _

@[simp]
theorem drop_self : (h.drop i).cell i = none := Function.update_self ..

@[simp]
theorem drop_of_ne (hne : j ≠ i) : (h.drop i).cell j = h.cell j := Function.update_of_ne hne _ _

@[simp]
theorem alloc_next : (h.alloc a).cell h.next = some a := Function.update_self ..

@[simp]
theorem alloc_of_ne (hne : j ≠ h.next) : (h.alloc a).cell j = h.cell j :=
  Function.update_of_ne hne _ _

theorem put_put {g : α → α} : (h.put i f).put i g = h.put i (g ∘ f) := by
  simp [put, Option.map_map]

theorem put_id : h.put i id = h := by
  simp [put]

theorem drop_put : (h.put i f).drop i = h.drop i := by simp [put, drop]

@[simp]
theorem isSome_put : ((h.put i f).cell j).isSome = (h.cell j).isSome := by
  rcases eq_or_ne j i with rfl | hne
  · change (Function.update h.cell j _ j).isSome = _
    rw [Function.update_self, Option.isSome_map]
  · rw [put_of_ne hne]

@[simp]
theorem modify_some (ha : (h.cell i).isSome = true) : h.modify (some i) f = some (h.put i f) := by
  obtain ⟨a, ha⟩ := Option.isSome_iff_exists.mp ha
  rw [modify, Option.bind_some, ha, Option.map_some]

@[simp]
theorem free_some (ha : (h.cell i).isSome = true) : h.free (some i) = some (h.drop i) := by
  obtain ⟨a, ha⟩ := Option.isSome_iff_exists.mp ha
  rw [free, Option.bind_some, ha, Option.map_some]

end Heap

end ShGateway.Lib
