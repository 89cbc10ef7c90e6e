import ShGateway.Lib.CyclicCheck

/-!
The checksum of block transfers (`crc16-ccitt.c`).
-/

namespace ShGateway.Crc16

open ShGateway.Lib.CyclicCheck

def crc16CcittTable : List UInt16 :=
  [0x0000, 0x1021, 0x2042, 0x3063, 0x4084, 0x50A5, 0x60C6, 0x70E7, 0x8108, 0x9129,
    0xA14A, 0xB16B, 0xC18C, 0xD1AD, 0xE1CE, 0xF1EF, 0x1231, 0x0210, 0x3273, 0x2252,
    0x52B5, 0x4294, 0x72F7, 0x62D6, 0x9339, 0x8318, 0xB37B, 0xA35A, 0xD3BD, 0xC39C,
    0xF3FF, 0xE3DE, 0x2462, 0x3443, 0x0420, 0x1401, 0x64E6, 0x74C7, 0x44A4, 0x5485,
    0xA56A, 0xB54B, 0x8528, 0x9509, 0xE5EE, 0xF5CF, 0xC5AC, 0xD58D, 0x3653, 0x2672,
    0x1611, 0x0630, 0x76D7, 0x66F6, 0x5695, 0x46B4, 0xB75B, 0xA77A, 0x9719, 0x8738,
    0xF7DF, 0xE7FE, 0xD79D, 0xC7BC, 0x48C4, 0x58E5, 0x6886, 0x78A7, 0x0840, 0x1861,
    0x2802, 0x3823, 0xC9CC, 0xD9ED, 0xE98E, 0xF9AF, 0x8948, 0x9969, 0xA90A, 0xB92B,
    0x5AF5, 0x4AD4, 0x7AB7, 0x6A96, 0x1A71, 0x0A50, 0x3A33, 0x2A12, 0xDBFD, 0xCBDC,
    0xFBBF, 0xEB9E, 0x9B79, 0x8B58, 0xBB3B, 0xAB1A, 0x6CA6, 0x7C87, 0x4CE4, 0x5CC5,
    0x2C22, 0x3C03, 0x0C60, 0x1C41, 0xEDAE, 0xFD8F, 0xCDEC, 0xDDCD, 0xAD2A, 0xBD0B,
    0x8D68, 0x9D49, 0x7E97, 0x6EB6, 0x5ED5, 0x4EF4, 0x3E13, 0x2E32, 0x1E51, 0x0E70,
    0xFF9F, 0xEFBE, 0xDFDD, 0xCFFC, 0xBF1B, 0xAF3A, 0x9F59, 0x8F78, 0x9188, 0x81A9,
    0xB1CA, 0xA1EB, 0xD10C, 0xC12D, 0xF14E, 0xE16F, 0x1080, 0x00A1, 0x30C2, 0x20E3,
    0x5004, 0x4025, 0x7046, 0x6067, 0x83B9, 0x9398, 0xA3FB, 0xB3DA, 0xC33D, 0xD31C,
    0xE37F, 0xF35E, 0x02B1, 0x1290, 0x22F3, 0x32D2, 0x4235, 0x5214, 0x6277, 0x7256,
    0xB5EA, 0xA5CB, 0x95A8, 0x8589, 0xF56E, 0xE54F, 0xD52C, 0xC50D, 0x34E2, 0x24C3,
    0x14A0, 0x0481, 0x7466, 0x6447, 0x5424, 0x4405, 0xA7DB, 0xB7FA, 0x8799, 0x97B8,
    0xE75F, 0xF77E, 0xC71D, 0xD73C, 0x26D3, 0x36F2, 0x0691, 0x16B0, 0x6657, 0x7676,
    0x4615, 0x5634, 0xD94C, 0xC96D, 0xF90E, 0xE92F, 0x99C8, 0x89E9, 0xB98A, 0xA9AB,
    0x5844, 0x4865, 0x7806, 0x6827, 0x18C0, 0x08E1, 0x3882, 0x28A3, 0xCB7D, 0xDB5C,
    0xEB3F, 0xFB1E, 0x8BF9, 0x9BD8, 0xABBB, 0xBB9A, 0x4A75, 0x5A54, 0x6A37, 0x7A16,
    0x0AF1, 0x1AD0, 0x2AB3, 0x3A92, 0xFD2E, 0xED0F, 0xDD6C, 0xCD4D, 0xBDAA, 0xAD8B,
    0x9DE8, 0x8DC9, 0x7C26, 0x6C07, 0x5C64, 0x4C45, 0x3CA2, 0x2C83, 0x1CE0, 0x0CC1,
    0xEF1F, 0xFF3E, 0xCF5D, 0xDF7C, 0xAF9B, 0xBFBA, 0x8FD9, 0x9FF8, 0x6E17, 0x7E36,
    0x4E55, 0x5E74, 0x2E93, 0x3EB2, 0x0ED1, 0x1EF0]

def crc16CcittSingle (crc : UInt16) (chr : UInt8) : UInt16 :=
  let tmp := (crc >>> 8).toUInt8 ^^^ chr
  (crc <<< 8) ^^^ crc16CcittTable.getD tmp.toNat 0

def crc16Ccitt (block : List UInt8) (crc : UInt16) : UInt16 :=
  block.foldl crc16CcittSingle crc

/-! ## Bit by bit -/

/-- The polynomial `x¹⁶ + x¹² + x⁵ + 1` without its first term. -/
def poly : BitVec 16 := 0x1021#16

/-- The bits of a byte, the most significant one first. -/
def byteBits (b : UInt8) : List Bool := (List.range 8).map b.toBitVec.getMsbD

theorem byteBits_length (b : UInt8) : (byteBits b).length = 8 := by
  rw [byteBits, List.length_map, List.length_range]

/-- No bits but zeros. -/
def zeros : List Bool := List.replicate 8 false

theorem byteBits_xor_self (b : UInt8) : List.zipWith xor (byteBits b) (byteBits b) = zeros := by
  rw [List.zipWith_self, zeros, ← byteBits_length b]
  simp

theorem remainder_high : ∀ n < 256,
    remainder poly (BitVec.ofNat 16 n <<< 8) (byteBits (UInt8.ofNat n)) = 0#16 := by
  decide +kernel

theorem remainder_low : ∀ n < 256,
    remainder poly (BitVec.ofNat 16 n) zeros = BitVec.ofNat 16 n <<< 8 := by
  decide +kernel

theorem table_eq : ∀ n < 256,
    (crc16CcittTable.getD n 0).toBitVec = remainder poly (BitVec.ofNat 16 n <<< 8) zeros := by
  decide +kernel

/-- The byte shifted over the lower half of a register. -/
def high (b : UInt8) : BitVec 16 := b.toBitVec.setWidth 16 <<< 8

theorem high_eq (b : UInt8) : high b = BitVec.ofNat 16 b.toNat <<< 8 := by
  rw [high]
  congr 1
  apply BitVec.eq_of_toNat_eq
  rw [BitVec.toNat_setWidth, BitVec.toNat_ofNat]
  rfl

theorem remainder_high_byte (b : UInt8) : remainder poly (high b) (byteBits b) = 0#16 := by
  have h := remainder_high b.toNat b.toNat_lt
  rwa [UInt8.ofNat_toNat, ← high_eq] at h

/-- A byte that comes in is the same as a byte added to the upper half of the register. -/
theorem remainder_byteBits (crc : BitVec 16) (b : UInt8) :
    remainder poly crc (byteBits b) = remainder poly (crc ^^^ high b) zeros := by
  have h := @remainder_xor 16 poly crc (high b) (byteBits b) (byteBits b) rfl
  rwa [remainder_high_byte, BitVec.xor_zero, byteBits_xor_self] at h

/-- The lower half of a register. -/
def low (crc : BitVec 16) : BitVec 16 := BitVec.ofNat 16 (crc.toNat % 256)

theorem low_shift (crc : BitVec 16) : low crc <<< 8 = crc <<< 8 := by
  apply BitVec.eq_of_toNat_eq
  simp only [low, BitVec.toNat_shiftLeft, BitVec.toNat_ofNat, Nat.shiftLeft_eq]
  omega

theorem high_xor (a b : UInt8) : high (a ^^^ b) = high a ^^^ high b := by
  rw [high, UInt8.toBitVec_xor, BitVec.setWidth_xor, BitVec.shiftLeft_xor_distrib, high, high]

theorem halves (crc : UInt16) : crc.toBitVec = high (crc >>> 8).toUInt8 ^^^ low crc.toBitVec := by
  apply BitVec.eq_of_getLsbD_eq
  intro i hi
  have hlow : (crc.toNat % 256).testBit i = (decide (i < 8) && crc.toBitVec.getLsbD i) :=
    Nat.testBit_mod_two_pow crc.toNat 8 i
  simp only [high, low, BitVec.getLsbD_xor, BitVec.getLsbD_shiftLeft, BitVec.getLsbD_ofNat,
    UInt16.toNat_toBitVec, hlow, hi, decide_true, Bool.true_and]
  rcases Nat.lt_or_ge i 8 with h | h
  · simp [h]
  · have hi' : 8 + (i - 8) = i := by omega
    have hbyte : i - 8 < 8 := by omega
    have hword : i - 8 < 16 := by omega
    simp [Nat.not_lt.mpr h, hi', hbyte, hword]

theorem crc16CcittSingle_eq (crc : UInt16) (chr : UInt8) :
    (crc16CcittSingle crc chr).toBitVec = remainder poly crc.toBitVec (byteBits chr) := by
  have hzeros : List.zipWith xor zeros zeros = zeros := rfl
  have hsplit := @remainder_xor 16 poly (high ((crc >>> 8).toUInt8 ^^^ chr)) (low crc.toBitVec)
    zeros zeros rfl
  have hlow : low crc.toBitVec = BitVec.ofNat 16 (crc.toBitVec.toNat % 256) := rfl
  rw [hzeros, high_xor, BitVec.xor_assoc, BitVec.xor_comm (high chr), ← BitVec.xor_assoc,
    ← halves] at hsplit
  rw [remainder_byteBits, ← hsplit, hlow, remainder_low _ (by omega), ← hlow, low_shift, ← high_xor,
    high_eq, ← table_eq _ (UInt8.toNat_lt _)]
  exact BitVec.xor_comm ..

/-- The bits of a block. -/
def blockBits (block : List UInt8) : List Bool := block.flatMap byteBits

theorem crc16Ccitt_append (xs ys : List UInt8) (crc : UInt16) :
    crc16Ccitt (xs ++ ys) crc = crc16Ccitt ys (crc16Ccitt xs crc) := List.foldl_append

theorem crc16Ccitt_eq (block : List UInt8) (crc : UInt16) :
    (crc16Ccitt block crc).toBitVec = remainder poly crc.toBitVec (blockBits block) := by
  induction block generalizing crc with
  | nil => rfl
  | cons b block ih =>
      change (crc16Ccitt block (crc16CcittSingle crc b)).toBitVec = _
      rw [ih, crc16CcittSingle_eq, ← remainder_append]
      rfl

/-- The checksum of a block is the remainder of its bits, in pieces as in one, and a block with a
burst of at most 16 wrong bits has another one. -/
theorem crc16Ccitt_detects (block : List UInt8) (crc : UInt16) :
    (crc16Ccitt block crc).toBitVec = remainder poly crc.toBitVec (blockBits block) ∧
      (∀ k, crc16Ccitt (block.drop k) (crc16Ccitt (block.take k) crc) = crc16Ccitt block crc) ∧
      ∀ (wrong : List UInt8) (pre xs ys post : List Bool),
        blockBits block = pre ++ xs ++ post → blockBits wrong = pre ++ ys ++ post →
          xs.length = ys.length → xs.length ≤ 16 → xs ≠ ys →
            crc16Ccitt wrong crc ≠ crc16Ccitt block crc := by
  refine ⟨crc16Ccitt_eq block crc, fun k => ?_, ?_⟩
  · rw [← crc16Ccitt_append, List.take_append_drop]
  · intro wrong pre xs ys post hblock hwrong hlen hburst hne heq
    have hbits := congrArg UInt16.toBitVec heq
    rw [crc16Ccitt_eq, crc16Ccitt_eq, hblock, hwrong] at hbits
    exact remainder_burst (by decide) hlen hburst hne hbits.symm

/-- Two wrong bits in a message of two bytes. -/
theorem crc16Ccitt_detects_sample : crc16Ccitt [0x02, 0x34] 0 ≠ crc16Ccitt [0x01, 0x34] 0 :=
  (crc16Ccitt_detects [0x01, 0x34] 0).2.2 [0x02, 0x34] (List.replicate 6 false) [false, true]
    [true, false] (blockBits [0x34]) (by decide) (by decide) rfl (by decide) (by decide)

end ShGateway.Crc16
