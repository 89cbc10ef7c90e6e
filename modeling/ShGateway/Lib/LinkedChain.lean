import Mathlib

/-!
Singly linked lists in a pool of items. An item that points to itself is not in use.
-/

namespace ShGateway.Lib.LinkedChain

variable {ι : Type*}

/-- From `p` on, the items `is` follow each other. -/
def Chain (next : ι → Option ι) : Option ι → List ι → Prop
  | p, [] => p = none
  | p, i :: is => p = some i ∧ Chain next (next i) is

section

variable {next next' : ι → Option ι} {p : Option ι} {i j : ι} {is js pre post : List ι}

theorem chain_nil : Chain next p [] ↔ p = none := Iff.rfl

theorem Chain.unique (h : Chain next p is) (h' : Chain next p js) : is = js := by
  induction is generalizing p js with
  | nil =>
      rw [chain_nil] at h
      cases js with
      | nil => rfl
      | cons j js =>
          rw [h] at h'
          exact absurd h'.1 nofun
  | cons i is ih =>
      obtain ⟨rfl, h⟩ := h
      cases js with
      | nil => exact absurd h' nofun
      | cons j js =>
          obtain ⟨hij, h'⟩ := h'
          obtain rfl := Option.some.inj hij
          rw [ih h h']

theorem Chain.suffix (h : Chain next p (pre ++ i :: post)) : Chain next (some i) (i :: post) := by
  induction pre generalizing p with
  | nil => exact ⟨rfl, h.2⟩
  | cons j pre ih => exact ih h.2

/-- A list that ends does not come back to an item. -/
theorem Chain.nodup (h : Chain next p is) : is.Nodup := by
  induction is generalizing p with
  | nil => exact List.nodup_nil
  | cons i is ih =>
      refine List.nodup_cons.mpr ⟨?_, ih h.2⟩
      intro hi
      obtain ⟨pre, post, rfl⟩ := List.mem_iff_append.mp hi
      have hall : Chain next p ((i :: pre) ++ i :: post) := h
      have hagain := hall.suffix
      have hhere : Chain next (some i) (i :: (pre ++ i :: post)) := ⟨rfl, h.2⟩
      have hlength := congrArg List.length (hhere.unique hagain)
      simp only [List.length_cons, List.length_append] at hlength
      omega

theorem Chain.not_self (h : Chain next p is) (hi : i ∈ is) : next i ≠ some i := by
  obtain ⟨pre, post, rfl⟩ := List.mem_iff_append.mp hi
  intro hself
  have hsuffix := h.suffix
  have hnext := hsuffix.2
  rw [hself] at hnext
  have hlength := congrArg List.length (hsuffix.unique hnext)
  simp at hlength

theorem Chain.congr (h : Chain next p is) (hsame : ∀ i ∈ is, next' i = next i) :
    Chain next' p is := by
  induction is generalizing p with
  | nil => exact h
  | cons i is ih =>
      refine ⟨h.1, ?_⟩
      rw [hsame i List.mem_cons_self]
      exact ih h.2 fun j hj => hsame j (List.mem_cons_of_mem _ hj)

theorem Chain.update [DecidableEq ι] (h : Chain next p is) (hi : i ∉ is) (q : Option ι) :
    Chain (Function.update next i q) p is :=
  h.congr fun _ hj => Function.update_of_ne (ne_of_mem_of_not_mem hj hi) _ _

/-- What the last of some items points to is where the rest of the list begins. -/
theorem Chain.relink [DecidableEq ι] (h : Chain next p (pre ++ [j] ++ is)) {q : Option ι}
    {js : List ι} (hjs : Chain next q js) (hj : j ∉ js) :
    Chain (Function.update next j q) p (pre ++ [j] ++ js) := by
  have hdisjoint := h.nodup
  induction pre generalizing p with
  | nil =>
      refine ⟨h.1, ?_⟩
      rw [Function.update_self]
      exact hjs.update hj q
  | cons i pre ih =>
      refine ⟨h.1, ?_⟩
      rw [List.cons_append, List.cons_append, List.nodup_cons] at hdisjoint
      have hne : i ≠ j := by
        rintro rfl
        exact hdisjoint.1 (by simp)
      rw [Function.update_of_ne hne]
      exact ih h.2 hdisjoint.2

theorem Chain.length_le [Fintype ι] (h : Chain next p is) : is.length ≤ Fintype.card ι :=
  h.nodup.length_le_card

end

end ShGateway.Lib.LinkedChain
