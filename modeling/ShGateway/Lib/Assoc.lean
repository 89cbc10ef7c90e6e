import Mathlib

/-!
Lists of keys with their values in which no key occurs twice, and records filled
in from such a list one entry after the other.
-/

namespace ShGateway.Lib.Assoc

universe u v w

variable {κ : Type u} {ν : Type v}

def DistinctKeys (l : List (κ × ν)) : Prop := (l.map Prod.fst).Nodup

instance [DecidableEq κ] (l : List (κ × ν)) : Decidable (DistinctKeys l) :=
  inferInstanceAs (Decidable (List.Nodup _))

variable {l l' : List (κ × ν)} {k : κ} {v : ν} {t : κ × ν}

theorem distinctKeys_cons :
    DistinctKeys (t :: l) ↔ (∀ v, (t.1, v) ∉ l) ∧ DistinctKeys l := by
  rw [DistinctKeys, List.map_cons, List.nodup_cons, ← DistinctKeys]
  simp

theorem DistinctKeys.perm (h : DistinctKeys l) (hperm : l'.Perm l) : DistinctKeys l' :=
  ((hperm.map Prod.fst).nodup_iff).mpr h

variable {ρ : Type w} {α : Type*} {store : κ → ν → ρ → ρ} {field : ρ → α} {set : ν → α → α}

theorem foldl_field_frame (hframe : ∀ t ∈ l, ∀ r, field (store t.1 t.2 r) = field r) (r : ρ) :
    field (l.foldl (fun r t => store t.1 t.2 r) r) = field r := by
  induction l generalizing r with
  | nil => rfl
  | cons t l ih =>
      rw [List.foldl_cons, ih fun t ht => hframe t (List.mem_cons_of_mem _ ht)]
      exact hframe t List.mem_cons_self r

section

variable [BEq κ] [LawfulBEq κ]

theorem lookup_eq_some_iff_mem (h : DistinctKeys l) : l.lookup k = some v ↔ (k, v) ∈ l := by
  induction l with
  | nil => simp
  | cons t l ih =>
      obtain ⟨hnew, hl⟩ := distinctKeys_cons.mp h
      obtain ⟨k', v'⟩ := t
      rw [List.lookup_cons, List.mem_cons, Prod.mk.injEq]
      rcases hk : k == k' with _ | _
      · have hne : k ≠ k' := ne_of_beq_false hk
        simp [hne, ih hl]
      · obtain rfl : k = k' := eq_of_beq hk
        simp [hnew v, eq_comm]

theorem forall_mem_iff_lookup (h : DistinctKeys l) {p : κ → ν → Prop} :
    (∀ t ∈ l, p t.1 t.2) ↔ ∀ k v, l.lookup k = some v → p k v := by
  constructor
  · intro hall k v hv
    exact hall (k, v) ((lookup_eq_some_iff_mem h).mp hv)
  · rintro hall ⟨k, v⟩ hmem
    exact hall k v ((lookup_eq_some_iff_mem h).mpr hmem)

theorem lookup_perm (h : DistinctKeys l) (hperm : l'.Perm l) (k : κ) :
    l'.lookup k = l.lookup k := by
  apply Option.ext
  intro v
  rw [lookup_eq_some_iff_mem (h.perm hperm), lookup_eq_some_iff_mem h]
  exact hperm.mem_iff

theorem foldl_field (h : DistinctKeys l)
    (hstore : ∀ t ∈ l, ∀ r, field (store t.1 t.2 r) =
      if t.1 == k then set t.2 (field r) else field r) (r : ρ) :
    field (l.foldl (fun r t => store t.1 t.2 r) r) =
      (l.lookup k).elim (field r) fun v => set v (field r) := by
  induction l generalizing r with
  | nil => rfl
  | cons t l ih =>
      obtain ⟨hnew, hl⟩ := distinctKeys_cons.mp h
      have hrest : ∀ t ∈ l, ∀ r, field (store t.1 t.2 r) =
          if t.1 == k then set t.2 (field r) else field r :=
        fun t ht => hstore t (List.mem_cons_of_mem _ ht)
      rw [List.foldl_cons, List.lookup_cons]
      rcases hk : t.1 == k with _ | _
      · rw [ih hl hrest, hstore t List.mem_cons_self, hk, BEq.comm, hk]
        rfl
      · obtain rfl : t.1 = k := eq_of_beq hk
        have hnone : l.lookup t.1 = none := by
          rw [List.lookup_eq_none_iff]
          intro e he
          rw [bne_iff_ne]
          rintro heq
          exact hnew e.2 (heq ▸ he)
        rw [ih hl hrest, hnone, hstore t List.mem_cons_self, hk]
        rfl

end

end ShGateway.Lib.Assoc
