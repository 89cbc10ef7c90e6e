import Mathlib

/-!
Byte-programmable memory that is erased sector by sector: an erase sets every
byte of a sector to `0xFF`, programming can only clear bits.
-/

namespace ShGateway.Lib.NorFlash

/-- Memory contents by address. -/
abbrev Mem := Nat → UInt8

/-- The `n` bytes of `m` from address `a` on. -/
def readBytes (m : Mem) (a n : Nat) : List UInt8 :=
  (List.range n).map fun i => m (a + i)

/-- Programming a byte clears the bits that are zero in the written value. -/
def programByte (m : Mem) (a : Nat) (b : UInt8) : Mem :=
  Function.update m a (m a &&& b)

/-- Erasing a sector sets all its bytes. -/
def eraseSector {ι : Type*} [DecidableEq ι] (sectorOf : Nat → Option ι)
    (m : Mem) (i : ι) : Mem :=
  fun a => if sectorOf a = some i then 0xFF else m a

@[simp] theorem readBytes_length (m : Mem) (a n : Nat) :
    (readBytes m a n).length = n := by
  simp [readBytes]

@[simp] theorem readBytes_zero (m : Mem) (a : Nat) : readBytes m a 0 = [] := rfl

@[simp] theorem getElem_readBytes (m : Mem) (a n i : Nat)
    (h : i < (readBytes m a n).length) : (readBytes m a n)[i] = m (a + i) := by
  simp [readBytes]

theorem readBytes_add (m : Mem) (a n k : Nat) :
    readBytes m a (n + k) = readBytes m a n ++ readBytes m (a + n) k := by
  simp [readBytes, List.range_add, Function.comp_def, Nat.add_assoc]

theorem readBytes_succ (m : Mem) (a n : Nat) :
    readBytes m a (n + 1) = m a :: readBytes m (a + 1) n := by
  rw [Nat.add_comm, readBytes_add]
  rfl

theorem readBytes_congr {m m' : Mem} {a n : Nat}
    (h : ∀ i < n, m (a + i) = m' (a + i)) :
    readBytes m a n = readBytes m' a n := by
  apply List.map_congr_left
  intro i hi
  exact h i (List.mem_range.mp hi)

theorem readBytes_eq_iff (m : Mem) (a : Nat) (bs : List UInt8) :
    readBytes m a bs.length = bs ↔
      ∀ (i : Nat) (h : i < bs.length), m (a + i) = bs[i] := by
  constructor
  · intro h i hi
    have hget := getElem_readBytes m a bs.length i (by simpa using hi)
    simp only [h] at hget
    exact hget.symm
  · intro h
    apply List.ext_getElem (by simp)
    intro i h₁ h₂
    rw [getElem_readBytes]
    exact h i h₂

theorem readBytes_append_iff {m : Mem} {a : Nat} {xs ys : List UInt8} :
    readBytes m a (xs ++ ys).length = xs ++ ys ↔
      readBytes m a xs.length = xs ∧
        readBytes m (a + xs.length) ys.length = ys := by
  rw [List.length_append, readBytes_add]
  constructor
  · intro h
    exact List.append_inj h (by simp)
  · rintro ⟨hx, hy⟩
    rw [hx, hy]

theorem programByte_blank {m : Mem} {a : Nat} (h : m a = 0xFF) (b : UInt8) :
    programByte m a b = Function.update m a b := by
  have hall : (0xFF : UInt8) &&& b = b := UInt8.neg_one_and
  rw [programByte, h, hall]

section Written

variable {ι : Type*} (sectorOf : Nat → Option ι)

/-- Some address of `[start, start + n)` belongs to sector `i`. -/
def Touched (start n : Nat) (i : ι) : Prop :=
  ∃ a, start ≤ a ∧ a < start + n ∧ sectorOf a = some i

/-- `after` is `before` with `content` stored at `start`: every touched sector
is blank outside the content, every other byte is as before. -/
structure Written (before : Mem) (start : Nat) (content : List UInt8)
    (after : Mem) : Prop where
  stored : ∀ (k : Nat) (h : k < content.length), after (start + k) = content[k]
  blank : ∀ a i, sectorOf a = some i → Touched sectorOf start content.length i →
    (a < start ∨ start + content.length ≤ a) → after a = 0xFF
  frame : ∀ a, (∀ i, sectorOf a = some i →
    ¬ Touched sectorOf start content.length i) →
    (a < start ∨ start + content.length ≤ a) → after a = before a

variable {sectorOf}

theorem not_touched_zero (start : Nat) (i : ι) : ¬ Touched sectorOf start 0 i := by
  rintro ⟨a, h₁, h₂, -⟩
  omega

theorem touched_succ {start n : Nat} {i : ι} :
    Touched sectorOf start (n + 1) i ↔
      Touched sectorOf start n i ∨ sectorOf (start + n) = some i := by
  constructor
  · rintro ⟨a, h₁, h₂, ha⟩
    rcases Nat.lt_or_ge a (start + n) with h | h
    · exact .inl ⟨a, h₁, h, ha⟩
    · have : a = start + n := by omega
      exact .inr (this ▸ ha)
  · rintro (⟨a, h₁, h₂, ha⟩ | h)
    · exact ⟨a, h₁, by omega, ha⟩
    · exact ⟨start + n, by omega, by omega, h⟩

theorem Written.nil (m : Mem) (start : Nat) : Written sectorOf m start [] m where
  stored := fun k h => absurd h (Nat.not_lt_zero k)
  blank := fun _ i _ h _ => absurd h (not_touched_zero start i)
  frame := fun _ _ _ => rfl

theorem Written.readBytes {before after : Mem} {start : Nat}
    {content : List UInt8} (h : Written sectorOf before start content after) :
    readBytes after start content.length = content :=
  (readBytes_eq_iff after start content).mpr h.stored

/-- Appending a byte whose sector is already in use only programs it. -/
theorem Written.program {before m : Mem} {start : Nat} {content : List UInt8}
    (h : Written sectorOf before start content m) {i : ι}
    (hi : sectorOf (start + content.length) = some i)
    (ht : Touched sectorOf start content.length i) (b : UInt8) :
    Written sectorOf before start (content ++ [b])
      (programByte m (start + content.length) b) := by
  have hblank : m (start + content.length) = 0xFF :=
    h.blank _ i hi ht (.inr (Nat.le_refl _))
  rw [programByte_blank hblank]
  refine ⟨?_, ?_, ?_⟩
  · intro k hk
    rcases Nat.lt_or_ge k content.length with hlt | hge
    · rw [Function.update_of_ne (by omega), List.getElem_append_left hlt]
      exact h.stored k hlt
    · have hk' : k = content.length := by simp at hk; omega
      subst hk'
      simp
  · intro a j ha hj hout
    simp only [List.length_append, List.length_singleton] at hj hout
    rw [Function.update_of_ne (by omega)]
    rcases touched_succ.mp hj with hj | hj
    · exact h.blank a j ha hj (by omega)
    · obtain rfl : i = j := Option.some.inj (hi.symm.trans hj)
      exact h.blank a i ha ht (by omega)
  · intro a hfree hout
    simp only [List.length_append, List.length_singleton] at hfree hout
    rw [Function.update_of_ne (by omega)]
    exact h.frame a (fun j hj hjt => hfree j hj (touched_succ.mpr (.inl hjt))) (by omega)

/-- Erasing a sector that holds none of the content makes it ready for more. -/
theorem Written.erase_program [DecidableEq ι] {before m : Mem} {start : Nat} {content : List UInt8}
    (h : Written sectorOf before start content m) {i : ι}
    (hi : sectorOf (start + content.length) = some i)
    (ht : ¬ Touched sectorOf start content.length i) (b : UInt8) :
    Written sectorOf before start (content ++ [b])
      (programByte (eraseSector sectorOf m i) (start + content.length) b) := by
  have hblank : eraseSector sectorOf m i (start + content.length) = 0xFF := by
    simp [eraseSector, hi]
  rw [programByte_blank hblank]
  refine ⟨?_, ?_, ?_⟩
  · intro k hk
    rcases Nat.lt_or_ge k content.length with hlt | hge
    · have hother : sectorOf (start + k) ≠ some i :=
        fun hk => ht ⟨start + k, by omega, by omega, hk⟩
      rw [Function.update_of_ne (by omega), List.getElem_append_left hlt,
        eraseSector, if_neg hother]
      exact h.stored k hlt
    · have hk' : k = content.length := by simp at hk; omega
      subst hk'
      simp
  · intro a j ha hj hout
    simp only [List.length_append, List.length_singleton] at hj hout
    rw [Function.update_of_ne (by omega), eraseSector]
    rcases touched_succ.mp hj with hj | hj
    · have hji : sectorOf a ≠ some i := by
        rintro hai
        obtain rfl : j = i := Option.some.inj (ha.symm.trans hai)
        exact ht hj
      rw [if_neg hji]
      exact h.blank a j ha hj (by omega)
    · obtain rfl : i = j := Option.some.inj (hi.symm.trans hj)
      rw [if_pos ha]
  · intro a hfree hout
    simp only [List.length_append, List.length_singleton] at hfree hout
    have hai : sectorOf a ≠ some i :=
      fun hai => hfree i hai (touched_succ.mpr (.inr hi))
    rw [Function.update_of_ne (by omega), eraseSector, if_neg hai]
    exact h.frame a (fun j hj hjt => hfree j hj (touched_succ.mpr (.inl hjt))) (by omega)

end Written

end ShGateway.Lib.NorFlash
