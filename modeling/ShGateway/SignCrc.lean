import ShGateway.Sign

/-!
The checksums of the signer and of the device against the bitwise CRC.
-/

namespace ShGateway.SignCrc

open ShGateway.Crc
open ShGateway.Lib.ByteWords
open ShGateway.Sign

def crc32Eth (data : List UInt8) : UInt32 := crc32 ethUnit data

def crc32EthStart (data : List UInt8) : UInt32 := crc32Start ethUnit data

def crc32EthEnd (data : List UInt8) (temp : UInt32) : UInt32 := crc32End ethUnit temp data

/-! ## The bitwise checksum -/

/-- One bit enters a CRC register without reflection. -/
def crcBit (reg : BitVec 32) (bit : Bool) : BitVec 32 :=
  if reg.msb ^^ bit then (reg <<< 1) ^^^ 0x04C11DB7#32 else reg <<< 1

/-- The bits of a word, most significant first. -/
def wordBits (w : UInt32) : List Bool := (List.range 32).map w.toBitVec.getMsbD

/-- The CRC of the whole little-endian words of a byte string. -/
def bitwiseCrc (data : List UInt8) : BitVec 32 :=
  ((words data).flatMap wordBits).foldl crcBit 0xFFFFFFFF#32

/-- The register after the first `n` bits, as the shift register of the whole
word. -/
theorem foldl_crcBit_range (reg w : BitVec 32) {n : Nat} (hn : n ≤ 32) :
    ((List.range n).map w.getMsbD).foldl crcBit reg =
      shiftBits^[n] (reg ^^^ w) ^^^ w <<< n := by
  induction n with
  | zero => simp
  | succ n ih =>
      have hbit : (w <<< n).msb = w.getMsbD n := by
        rw [BitVec.msb_eq_getMsbD_zero, BitVec.getMsbD_shiftLeft]
        simp
      rw [List.range_succ, List.map_append, List.foldl_append, ih (by omega),
        Function.iterate_succ_apply', List.map_singleton, List.foldl_cons, List.foldl_nil]
      generalize shiftBits^[n] (reg ^^^ w) = x
      have hmsb : x.msb = x.getLsbD 31 := BitVec.msb_eq_getLsbD_last x
      have hnext : (x ^^^ w <<< n) <<< 1 = x <<< 1 ^^^ w <<< (n + 1) := by
        rw [BitVec.shiftLeft_xor_distrib, ← BitVec.shiftLeft_add]
      rw [crcBit, shiftBits, BitVec.msb_xor, hbit, Bool.xor_assoc, Bool.xor_self,
        Bool.xor_false, hmsb, hnext]
      split_ifs
      · ac_rfl
      · rfl

theorem stm32_fold_eq (dr w : UInt32) :
    (CrcUnit.stm32.fold dr w).toBitVec = (wordBits w).foldl crcBit dr.toBitVec := by
  change ((List.range 32).foldl (fun x _ => crcShift x) (dr ^^^ w)).toBitVec = _
  rw [List.foldl_const, List.length_range, iterate_crcShift_toBitVec, wordBits,
    foldl_crcBit_range _ _ (Nat.le_refl 32), UInt32.toBitVec_xor,
    BitVec.shiftLeft_eq_zero (Nat.le_refl 32), BitVec.xor_zero]

theorem crc32_stm32_eq (data : List UInt8) :
    (crc32 .stm32 data).toBitVec = bitwiseCrc data := by
  have hfold : ∀ (ws : List UInt32) (dr : UInt32),
      (ws.foldl CrcUnit.stm32.fold dr).toBitVec =
        (ws.flatMap wordBits).foldl crcBit dr.toBitVec := by
    intro ws
    induction ws with
    | nil => exact fun _ => rfl
    | cons w ws ih =>
        intro dr
        rw [List.foldl_cons, ih, stm32_fold_eq, List.flatMap_cons, List.foldl_append]
  exact hfold (words data) 0xFFFFFFFF

/-! ## Splits -/

/-- A start over some words and an end over the others is the whole checksum. -/
theorem crc32End_split (unit : CrcUnit) (data : List UInt8) (k : Nat) :
    crc32End unit (crc32Start unit (data.take (4 * k))) (data.drop (4 * k)) =
      crc32 unit data := by
  rw [crc32Start, crc32]
  rcases Nat.lt_or_ge data.length (4 * k) with hshort | hlong
  · rw [List.take_of_length_le (by omega), List.drop_eq_nil_of_le (by omega), crc32End_nil]
  · have hwhole : 4 ∣ (data.take (4 * k)).length := by
      rw [List.length_take, Nat.min_eq_left hlong]
      exact Nat.dvd_mul_right 4 k
    rw [← crc32End_append unit unit.reset hwhole, List.take_append_drop]

theorem crc32_take_words (unit : CrcUnit) (data : List UInt8) :
    crc32 unit (data.take (4 * (data.length / 4))) = crc32 unit data := by
  have htail : (data.drop (4 * (data.length / 4))).length < 4 := by
    rw [List.length_drop]
    omega
  have hnone : words (data.drop (4 * (data.length / 4))) = [] := by
    rcases hdrop : data.drop (4 * (data.length / 4)) with
      _ | ⟨a, _ | ⟨b, _ | ⟨c, _ | ⟨d, rest⟩⟩⟩⟩
    · rfl
    · rfl
    · rfl
    · rfl
    · rw [hdrop] at htail
      simp only [List.length_cons] at htail
      omega
  rw [← crc32End_split unit data (data.length / 4), crc32End, hnone]
  rfl

/-- The signer and the device compute the bitwise CRC, in one piece or in two. -/
theorem crc32Eth_eq_bitwise (data : List UInt8) (k : Nat) :
    crc32EthEnd (data.drop (4 * k)) (crc32EthStart (data.take (4 * k))) = crc32Eth data ∧
      (crc32Eth data).toBitVec = bitwiseCrc data ∧
      crc32Eth (data.take (4 * (data.length / 4))) = crc32Eth data ∧
      crc32End .stm32 (crc32Start .stm32 (data.take (4 * k))) (data.drop (4 * k)) =
        crc32Eth data ∧
      crc32 .stm32 data = crc32Eth data := by
  refine ⟨crc32End_split ethUnit data k, ?_, crc32_take_words ethUnit data, ?_, ?_⟩
  · rw [crc32Eth, ethUnit_eq, crc32_stm32_eq]
  · rw [crc32Eth, ethUnit_eq, crc32End_split]
  · rw [crc32Eth, ethUnit_eq]

end ShGateway.SignCrc
