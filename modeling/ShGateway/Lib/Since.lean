import Mathlib

/-!
The latest step of a history at which something happens, and what has come since.
-/

namespace ShGateway.Lib.Since

variable {α : Type*} (P : List α → α → Prop)

/-- `P` holds at no step of `later`, which comes after `h`. -/
def Never (h later : List α) : Prop :=
  ∀ l₁ x l₂, later = l₁ ++ x :: l₂ → ¬ P (h ++ l₁) x

/-- `x` is the latest step with `P` of a history. -/
structure Latest (h earlier : List α) (x : α) (later : List α) : Prop where
  history : h = earlier ++ x :: later
  event : P earlier x
  never : Never P (earlier ++ [x]) later

section

variable {P} {h l : List α} {x : α}

theorem never_nil : Never P h [] := by
  intro l₁ x l₂ heq
  exact absurd heq (by simp)

theorem never_snoc : Never P h (l ++ [x]) ↔ Never P h l ∧ ¬ P (h ++ l) x := by
  constructor
  · intro hnever
    constructor
    · rintro l₁ y l₂ rfl
      exact hnever l₁ y (l₂ ++ [x]) (by simp)
    · exact hnever l x [] rfl
  · rintro ⟨hl, hx⟩ l₁ y l₂ heq
    rcases List.eq_nil_or_concat l₂ with rfl | ⟨l₂, z, rfl⟩
    · obtain ⟨rfl, hy⟩ := List.append_inj' heq rfl
      obtain rfl := List.singleton_inj.mp hy
      exact hx
    · rw [List.concat_eq_append, ← List.cons_append, ← List.append_assoc] at heq
      exact hl l₁ y l₂ (List.append_inj' heq rfl).1

end

variable [∀ h, DecidablePred (P h)]

/-- `since` with the history so far and what it has come to. -/
def sinceFrom : List α → Option (List α) → List α → Option (List α)
  | _, t, [] => t
  | h, t, x :: l =>
      sinceFrom (h ++ [x]) (if P h x then some [x] else t.map (· ++ [x])) l

/-- The steps from the latest one with `P` on. -/
def since (h : List α) : Option (List α) := sinceFrom P [] none h

section

variable {P} {h earlier later t : List α} {x : α}

theorem sinceFrom_snoc (l : List α) (r : Option (List α)) :
    sinceFrom P h r (l ++ [x]) =
      if P (h ++ l) x then some [x] else (sinceFrom P h r l).map (· ++ [x]) := by
  induction l generalizing h r with
  | nil =>
      rw [List.append_nil]
      rfl
  | cons y l ih =>
      rw [List.cons_append, sinceFrom, ih, List.append_assoc]
      rfl

theorem since_snoc :
    since P (h ++ [x]) = if P h x then some [x] else (since P h).map (· ++ [x]) :=
  sinceFrom_snoc h none

theorem since_snoc_last (ht : since P (h ++ [x]) = some t) : t = t.dropLast ++ [x] := by
  rw [since_snoc] at ht
  rcases Classical.em (P h x) with hx | hx
  · rw [if_pos hx] at ht
    obtain rfl := Option.some.inj ht
    rfl
  · rw [if_neg hx] at ht
    obtain ⟨t, -, rfl⟩ := Option.map_eq_some_iff.mp ht
    rw [List.dropLast_concat]

theorem since_of_never (hnever : Never P [] h) : since P h = none := by
  induction h using List.reverseRecOn with
  | nil => rfl
  | append_singleton h x ih =>
      obtain ⟨hnever, hx⟩ := never_snoc.mp hnever
      exact (since_snoc.trans (if_neg hx)).trans (congrArg _ (ih hnever))

theorem since_of_latest (hlatest : Latest P h earlier x later) :
    since P h = some (x :: later) := by
  induction later using List.reverseRecOn generalizing h with
  | nil =>
      rw [hlatest.history, since_snoc, if_pos hlatest.event]
  | append_singleton later y ih =>
      obtain ⟨hnever, hy⟩ := never_snoc.mp hlatest.never
      have hprev := ih ⟨rfl, hlatest.event, hnever⟩
      rw [← List.append_cons] at hy
      rw [hlatest.history, ← List.cons_append, ← List.append_assoc, since_snoc, if_neg hy, hprev]
      rfl

/-- Either there is no step with `P`, or the steps since the latest one are known. -/
theorem since_spec (h : List α) :
    since P h = none ∧ Never P [] h ∨
      ∃ earlier x later, since P h = some (x :: later) ∧ Latest P h earlier x later := by
  induction h using List.reverseRecOn with
  | nil => exact .inl ⟨rfl, never_nil⟩
  | append_singleton h x ih =>
      rw [since_snoc]
      rcases Classical.em (P h x) with hx | hx
      · rw [if_pos hx]
        exact .inr ⟨h, x, [], rfl, rfl, hx, never_nil⟩
      · rw [if_neg hx]
        rcases ih with ⟨hnone, hnever⟩ | ⟨earlier, y, later, hsome, hhistory, hy, hnever⟩
        · rw [hnone]
          exact .inl ⟨rfl, never_snoc.mpr ⟨hnever, hx⟩⟩
        · rw [hsome]
          subst hhistory
          refine .inr ⟨earlier, y, later ++ [x], rfl, by simp, hy, never_snoc.mpr ⟨hnever, ?_⟩⟩
          rwa [List.append_assoc]

theorem since_suffix (ht : since P h = some t) : t <:+ h := by
  rcases since_spec (P := P) h with ⟨hnone, -⟩ | ⟨earlier, x, later, hsome, hlatest⟩
  · rw [hnone] at ht
    cases ht
  · obtain rfl := Option.some.inj (hsome.symm.trans ht)
    exact ⟨earlier, hlatest.history.symm⟩

theorem forall_since_iff {Q : List α → Prop} :
    (∀ t, since P h = some t → Q t) ↔
      Never P [] h ∨ ∃ earlier x later, Latest P h earlier x later ∧ Q (x :: later) := by
  constructor
  · intro hQ
    rcases since_spec (P := P) h with ⟨-, hnever⟩ | ⟨earlier, x, later, hsome, hlatest⟩
    · exact .inl hnever
    · exact .inr ⟨earlier, x, later, hlatest, hQ _ hsome⟩
  · rintro (hnever | ⟨earlier, x, later, hlatest, hQ⟩) t ht
    · rw [since_of_never hnever] at ht
      cases ht
    · obtain rfl := Option.some.inj ((since_of_latest hlatest).symm.trans ht)
      exact hQ

end

end ShGateway.Lib.Since
