import Mathlib

/-!
Checksums by division of polynomials over bits: the register takes one bit after another, the
message needs no zeros at its end.
-/

namespace ShGateway.Lib.CyclicCheck

variable {w : Nat}

/-- The register after one more bit. -/
def shiftIn (poly crc : BitVec w) (bit : Bool) : BitVec w :=
  if crc.msb ^^ bit then (crc <<< 1) ^^^ poly else crc <<< 1

/-- The register after a message. -/
def remainder (poly crc : BitVec w) (bits : List Bool) : BitVec w :=
  bits.foldl (shiftIn poly) crc

variable {poly crc crc' d : BitVec w} {bits bits' : List Bool} {b b' : Bool}

@[simp] theorem remainder_nil : remainder poly crc [] = crc := rfl

@[simp] theorem remainder_cons :
    remainder poly crc (b :: bits) = remainder poly (shiftIn poly crc b) bits := rfl

theorem remainder_append :
    remainder poly crc (bits ++ bits') = remainder poly (remainder poly crc bits) bits' :=
  List.foldl_append

theorem shiftIn_xor :
    shiftIn poly crc b ^^^ shiftIn poly crc' b' = shiftIn poly (crc ^^^ crc') (b ^^ b') := by
  have hbit : ((crc ^^^ crc').msb ^^ (b ^^ b')) = ((crc.msb ^^ b) ^^ (crc'.msb ^^ b')) := by
    rw [BitVec.msb_xor]
    cases crc.msb <;> cases crc'.msb <;> cases b <;> cases b' <;> rfl
  rw [shiftIn, shiftIn, shiftIn, hbit, BitVec.shiftLeft_xor_distrib]
  generalize (crc.msb ^^ b) = p
  generalize (crc'.msb ^^ b') = q
  cases p <;> cases q
  · rfl
  · change crc <<< 1 ^^^ (crc' <<< 1 ^^^ poly) = crc <<< 1 ^^^ crc' <<< 1 ^^^ poly
    rw [BitVec.xor_assoc]
  · change crc <<< 1 ^^^ poly ^^^ crc' <<< 1 = crc <<< 1 ^^^ crc' <<< 1 ^^^ poly
    ac_rfl
  · change crc <<< 1 ^^^ poly ^^^ (crc' <<< 1 ^^^ poly) = crc <<< 1 ^^^ crc' <<< 1
    rw [BitVec.xor_comm (crc' <<< 1), BitVec.xor_assoc, ← BitVec.xor_assoc poly, BitVec.xor_self,
      BitVec.zero_xor]

theorem remainder_xor (h : bits.length = bits'.length) :
    remainder poly crc bits ^^^ remainder poly crc' bits' =
      remainder poly (crc ^^^ crc') (List.zipWith xor bits bits') := by
  induction bits generalizing bits' crc crc' with
  | nil =>
      rw [List.eq_nil_of_length_eq_zero h.symm]
      rfl
  | cons b bits ih =>
      cases bits' with
      | nil => exact absurd h (Nat.succ_ne_zero _)
      | cons b' bits' =>
          rw [remainder_cons, remainder_cons, ih (Nat.succ.inj h), shiftIn_xor]
          rfl

section

variable (hpoly : poly.getLsbD 0 = true)

include hpoly

/-- Where the last bit of the register is clear, the bit that came in was the one shifted out. -/
theorem shiftIn_of_even (h : (shiftIn poly d b).getLsbD 0 = false) :
    d.msb = b ∧ shiftIn poly d b = d <<< 1 := by
  have hzero : (d <<< 1).getLsbD 0 = false := by simp
  rw [shiftIn] at h ⊢
  cases hbit : d.msb ^^ b with
  | true =>
      rw [hbit, if_pos rfl, BitVec.getLsbD_xor, hzero, hpoly] at h
      exact nomatch h
  | false =>
      refine ⟨?_, if_neg (by simp)⟩
      cases hd : d.msb <;> cases b <;> simp_all

theorem remainder_eq_zero (hlen : bits.length ≤ w) (h : remainder poly d bits = 0#w) :
    (∀ i < w - bits.length, d.getLsbD i = false) ∧ (d = 0#w → ∀ b ∈ bits, b = false) := by
  induction bits generalizing d with
  | nil =>
      rw [remainder_nil] at h
      subst h
      exact ⟨fun i _ => BitVec.getLsbD_zero, fun _ b hb => nomatch hb⟩
  | cons b bits ih =>
      rw [List.length_cons] at hlen
      obtain ⟨hlow, hbits⟩ := ih (by omega) h
      obtain ⟨hmsb, hshift⟩ := shiftIn_of_even hpoly (hlow 0 (by omega))
      constructor
      · intro i hi
        rw [List.length_cons] at hi
        have hnext := hlow (i + 1) (by omega)
        rw [hshift, BitVec.getLsbD_shiftLeft] at hnext
        have hi' : i + 1 < w := by omega
        simpa [hi'] using hnext
      · rintro rfl c hc
        have hb : b = false := by rw [← hmsb, BitVec.msb_zero]
        rcases List.mem_cons.mp hc with rfl | hc
        · exact hb
        · refine hbits ?_ c hc
          rw [hshift, BitVec.zero_shiftLeft]

theorem remainder_ne_zero (hd : d ≠ 0#w) (n : Nat) :
    remainder poly d (List.replicate n false) ≠ 0#w := by
  induction n generalizing d with
  | zero => exact hd
  | succ n ih =>
      refine ih fun hzero => hd ?_
      obtain ⟨hmsb, hshift⟩ := shiftIn_of_even hpoly (by rw [hzero, BitVec.getLsbD_zero])
      rw [hshift] at hzero
      apply BitVec.eq_of_getLsbD_eq
      intro i hi
      rw [BitVec.getLsbD_zero]
      rcases Nat.lt_or_ge (i + 1) w with hi' | hi'
      · have hbit : (d <<< 1).getLsbD (i + 1) = false := by rw [hzero, BitVec.getLsbD_zero]
        rw [BitVec.getLsbD_shiftLeft] at hbit
        simpa [hi'] using hbit
      · rw [← hmsb, BitVec.msb_eq_getLsbD_last]
        congr 1
        omega

/-- Messages that differ in a burst no longer than the register have different remainders. -/
theorem remainder_burst {pre xs ys post : List Bool} (hlen : xs.length = ys.length)
    (hburst : xs.length ≤ w) (hne : xs ≠ ys) :
    remainder poly crc (pre ++ xs ++ post) ≠ remainder poly crc (pre ++ ys ++ post) := by
  intro heq
  rw [remainder_append, remainder_append, remainder_append, remainder_append] at heq
  generalize remainder poly crc pre = r at heq
  have hxor := congrArg (· ^^^ remainder poly (remainder poly r ys) post) heq
  simp only [BitVec.xor_self] at hxor
  rw [remainder_xor rfl, remainder_xor hlen, BitVec.xor_self] at hxor
  have hpost : List.zipWith xor post post = List.replicate post.length false := by
    rw [List.zipWith_self]
    apply List.ext_getElem
    · simp
    · intro i _ _
      simp
  rw [hpost] at hxor
  by_cases hd : remainder poly (0#w) (List.zipWith xor xs ys) = 0#w
  · have hall := (remainder_eq_zero hpoly (by simpa [hlen] using hlen ▸ hburst) hd).2 rfl
    refine hne (List.ext_getElem hlen fun i hx hy => ?_)
    have hmem : xor xs[i] ys[i] ∈ List.zipWith xor xs ys := by
      have hi : i < (List.zipWith xor xs ys).length := by simp; omega
      have hget := List.getElem_mem hi
      rwa [List.getElem_zipWith] at hget
    simpa using hall _ hmem
  · exact remainder_ne_zero hpoly hd post.length hxor

end

end ShGateway.Lib.CyclicCheck
