import ShGateway.FwHeader
import ShGateway.Lib.StringTable

/-!
The signer: `sign.c`, which runs on the build host. Failures of the host (files,
memory) are left out.
-/

namespace ShGateway.Sign

open ShGateway.Crc
open ShGateway.Lib.ByteWords
open ShGateway.Lib.StringTable

/-! ## The checksum -/

def swCrc32Table : List UInt32 := [
    0x00000000, 0x04c11db7, 0x09823b6e, 0x0d4326d9, 0x130476dc, 0x17c56b6b,
    0x1a864db2, 0x1e475005, 0x2608edb8, 0x22c9f00f, 0x2f8ad6d6, 0x2b4bcb61,
    0x350c9b64, 0x31cd86d3, 0x3c8ea00a, 0x384fbdbd, 0x4c11db70, 0x48d0c6c7,
    0x4593e01e, 0x4152fda9, 0x5f15adac, 0x5bd4b01b, 0x569796c2, 0x52568b75,
    0x6a1936c8, 0x6ed82b7f, 0x639b0da6, 0x675a1011, 0x791d4014, 0x7ddc5da3,
    0x709f7b7a, 0x745e66cd, 0x9823b6e0, 0x9ce2ab57, 0x91a18d8e, 0x95609039,
    0x8b27c03c, 0x8fe6dd8b, 0x82a5fb52, 0x8664e6e5, 0xbe2b5b58, 0xbaea46ef,
    0xb7a96036, 0xb3687d81, 0xad2f2d84, 0xa9ee3033, 0xa4ad16ea, 0xa06c0b5d,
    0xd4326d90, 0xd0f37027, 0xddb056fe, 0xd9714b49, 0xc7361b4c, 0xc3f706fb,
    0xceb42022, 0xca753d95, 0xf23a8028, 0xf6fb9d9f, 0xfbb8bb46, 0xff79a6f1,
    0xe13ef6f4, 0xe5ffeb43, 0xe8bccd9a, 0xec7dd02d, 0x34867077, 0x30476dc0,
    0x3d044b19, 0x39c556ae, 0x278206ab, 0x23431b1c, 0x2e003dc5, 0x2ac12072,
    0x128e9dcf, 0x164f8078, 0x1b0ca6a1, 0x1fcdbb16, 0x018aeb13, 0x054bf6a4,
    0x0808d07d, 0x0cc9cdca, 0x7897ab07, 0x7c56b6b0, 0x71159069, 0x75d48dde,
    0x6b93dddb, 0x6f52c06c, 0x6211e6b5, 0x66d0fb02, 0x5e9f46bf, 0x5a5e5b08,
    0x571d7dd1, 0x53dc6066, 0x4d9b3063, 0x495a2dd4, 0x44190b0d, 0x40d816ba,
    0xaca5c697, 0xa864db20, 0xa527fdf9, 0xa1e6e04e, 0xbfa1b04b, 0xbb60adfc,
    0xb6238b25, 0xb2e29692, 0x8aad2b2f, 0x8e6c3698, 0x832f1041, 0x87ee0df6,
    0x99a95df3, 0x9d684044, 0x902b669d, 0x94ea7b2a, 0xe0b41de7, 0xe4750050,
    0xe9362689, 0xedf73b3e, 0xf3b06b3b, 0xf771768c, 0xfa325055, 0xfef34de2,
    0xc6bcf05f, 0xc27dede8, 0xcf3ecb31, 0xcbffd686, 0xd5b88683, 0xd1799b34,
    0xdc3abded, 0xd8fba05a, 0x690ce0ee, 0x6dcdfd59, 0x608edb80, 0x644fc637,
    0x7a089632, 0x7ec98b85, 0x738aad5c, 0x774bb0eb, 0x4f040d56, 0x4bc510e1,
    0x46863638, 0x42472b8f, 0x5c007b8a, 0x58c1663d, 0x558240e4, 0x51435d53,
    0x251d3b9e, 0x21dc2629, 0x2c9f00f0, 0x285e1d47, 0x36194d42, 0x32d850f5,
    0x3f9b762c, 0x3b5a6b9b, 0x0315d626, 0x07d4cb91, 0x0a97ed48, 0x0e56f0ff,
    0x1011a0fa, 0x14d0bd4d, 0x19939b94, 0x1d528623, 0xf12f560e, 0xf5ee4bb9,
    0xf8ad6d60, 0xfc6c70d7, 0xe22b20d2, 0xe6ea3d65, 0xeba91bbc, 0xef68060b,
    0xd727bbb6, 0xd3e6a601, 0xdea580d8, 0xda649d6f, 0xc423cd6a, 0xc0e2d0dd,
    0xcda1f604, 0xc960ebb3, 0xbd3e8d7e, 0xb9ff90c9, 0xb4bcb610, 0xb07daba7,
    0xae3afba2, 0xaafbe615, 0xa7b8c0cc, 0xa379dd7b, 0x9b3660c6, 0x9ff77d71,
    0x92b45ba8, 0x9675461f, 0x8832161a, 0x8cf30bad, 0x81b02d74, 0x857130c3,
    0x5d8a9099, 0x594b8d2e, 0x5408abf7, 0x50c9b640, 0x4e8ee645, 0x4a4ffbf2,
    0x470cdd2b, 0x43cdc09c, 0x7b827d21, 0x7f436096, 0x7200464f, 0x76c15bf8,
    0x68860bfd, 0x6c47164a, 0x61043093, 0x65c52d24, 0x119b4be9, 0x155a565e,
    0x18197087, 0x1cd86d30, 0x029f3d35, 0x065e2082, 0x0b1d065b, 0x0fdc1bec,
    0x3793a651, 0x3352bbe6, 0x3e119d3f, 0x3ad08088, 0x2497d08d, 0x2056cd3a,
    0x2d15ebe3, 0x29d4f654, 0xc5a92679, 0xc1683bce, 0xcc2b1d17, 0xc8ea00a0,
    0xd6ad50a5, 0xd26c4d12, 0xdf2f6bcb, 0xdbee767c, 0xe3a1cbc1, 0xe760d676,
    0xea23f0af, 0xeee2ed18, 0xf0a5bd1d, 0xf464a0aa, 0xf9278673, 0xfde69bc4,
    0x89b8fd09, 0x8d79e0be, 0x803ac667, 0x84fbdbd0, 0x9abc8bd5, 0x9e7d9662,
    0x933eb0bb, 0x97ffad0c, 0xafb010b1, 0xab710d06, 0xa6322bdf, 0xa2f33668,
    0xbcb4666d, 0xb8757bda, 0xb5365d03, 0xb1f740b4]

/-- One turn of the inner loop of `crc32_eth_start` and `crc32_eth_end`. -/
def tableStep (crc32 : UInt32) : UInt32 :=
  (crc32 <<< 8) ^^^ swCrc32Table.getD (crc32 >>> 24).toNat 0

/-- The register of `crc32_eth_start` and `crc32_eth_end`. -/
def ethUnit : CrcUnit where
  reset := 0xFFFFFFFF
  fold := fun crc32 data =>
    (List.range 4).foldl (fun crc32 _ => tableStep crc32) (crc32 ^^^ data)

/-! ## The program -/

def fieldsOffset : Nat := 0x190

/-- The bytes of `pattern`. -/
def pattern : List UInt8 :=
  le32 0xAAAAAAAA ++ le32 0xBBBBBBBB ++ le32 0xCCCCCCCC ++ le32 0xDDDDDDDD

/-- An element of `argv`, without its terminator. -/
structure Argument where
  chars : List UInt8
  ne_nul : ∀ b ∈ chars, b ≠ 0

/-- The loops that append at least one zero byte, up to a word boundary. -/
def alignContent (content : List UInt8) : List UInt8 :=
  if (content ++ [0]).length % 4 = 0 then content ++ [0] else alignContent (content ++ [0])
termination_by 3 - content.length % 4
decreasing_by
  rw [List.length_append, List.length_singleton] at *
  omega

/-- The body of the loop over the fields: the argument is appended with its
terminator, and its first `=` is overwritten by another one. -/
def appendField (content : List UInt8) (arg : Argument) : Except Nat (List UInt8) :=
  match arg.chars.findIdx? (· = 61) with
  | none => .error 3
  | some delim =>
      if delim = 0 ∨ arg.chars.length ≤ delim + 1 then .error 3
      else .ok (content ++ (arg.chars ++ [0]).set delim 0)

/-- Stores a word of the header. -/
def putWord (content : List UInt8) (offset n : Nat) : List UInt8 :=
  content.take offset ++ le32 n ++ content.drop (offset + 4)

/-- The checksum of the content around its header. -/
def contentCrc (content : List UInt8) : UInt32 :=
  crc32End ethUnit (crc32Start ethUnit (content.take fieldsOffset))
    ((content.drop (fieldsOffset + 16)).take
      ((content.length - (fieldsOffset + 16)) % 2 ^ 32))

/-- `main` with the size limit, the content of the input file and the fields: the
exit code, or the content of the output file. -/
def signMain (lengthLimit : Int) (input : List UInt8) (args : List Argument) :
    Except Nat (List UInt8) :=
  let content := alignContent input
  let fieldsAddrOffset := content.length
  if content.length < fieldsOffset + 4 then .error 7
  else
    match args.foldlM appendField content with
    | .error code => .error code
    | .ok content =>
        let content := alignContent content
        if (content.drop fieldsOffset).take 16 ≠ pattern then .error 7
        else
          let fwSize := content.length
          let content := putWord content fieldsOffset fwSize
          let content := putWord content (fieldsOffset + 8) fieldsAddrOffset
          let content := putWord content (fieldsOffset + 4) (contentCrc content).toNat
          if lengthLimit < Int.bmod fwSize (2 ^ 32) then .error 8
          else .ok content

/-! ## The table against the shift register -/

/-- `crcShift` on bit vectors. -/
def shiftBits (x : BitVec 32) : BitVec 32 :=
  if x.getLsbD 31 then (x <<< 1) ^^^ 0x04C11DB7#32 else x <<< 1

theorem crcShift_toBitVec (x : UInt32) : (crcShift x).toBitVec = shiftBits x.toBitVec := by
  have htop : x &&& 0x80000000 ≠ 0 ↔ x.toBitVec.getLsbD 31 = true := by
    have hand : x.toBitVec &&& BitVec.twoPow 32 31 =
        if x.toBitVec.getLsbD 31 then BitVec.twoPow 32 31 else 0#32 :=
      BitVec.and_twoPow x.toBitVec 31
    have hzero : x &&& 0x80000000 = 0 ↔ x.toBitVec &&& BitVec.twoPow 32 31 = 0#32 := by
      rw [← UInt32.toBitVec_inj, UInt32.toBitVec_and]
      rfl
    rw [Ne, hzero, hand]
    cases x.toBitVec.getLsbD 31 <;> decide
  rw [crcShift, shiftBits]
  by_cases hx : x.toBitVec.getLsbD 31 = true
  · rw [if_pos (htop.mpr hx), if_pos hx, UInt32.toBitVec_xor, UInt32.toBitVec_shiftLeft]
    rfl
  · rw [if_neg fun h => hx (htop.mp h), if_neg hx, UInt32.toBitVec_shiftLeft]
    rfl

theorem iterate_crcShift_toBitVec (n : Nat) (x : UInt32) :
    (crcShift^[n] x).toBitVec = shiftBits^[n] x.toBitVec := by
  induction n generalizing x with
  | zero => rfl
  | succ n ih =>
      rw [Function.iterate_succ_apply, ih, crcShift_toBitVec, ← Function.iterate_succ_apply]

theorem shiftBits_xor (x y : BitVec 32) :
    shiftBits (x ^^^ y) = shiftBits x ^^^ shiftBits y := by
  have hcancel : ∀ p q r : BitVec 32, p ^^^ q = p ^^^ r ^^^ (q ^^^ r) := by
    intro p q r
    rw [BitVec.xor_assoc p r, ← BitVec.xor_assoc r q, BitVec.xor_comm r q,
      BitVec.xor_assoc q r r, BitVec.xor_self, BitVec.xor_zero]
  simp only [shiftBits, BitVec.getLsbD_xor, BitVec.shiftLeft_xor_distrib]
  rcases x.getLsbD 31 with _ | _ <;> rcases y.getLsbD 31 with _ | _
  · rfl
  · exact BitVec.xor_assoc _ _ _
  · change x <<< 1 ^^^ y <<< 1 ^^^ _ = x <<< 1 ^^^ _ ^^^ y <<< 1
    ac_rfl
  · exact hcancel _ _ _

theorem iterate_shiftBits_xor (n : Nat) (x y : BitVec 32) :
    shiftBits^[n] (x ^^^ y) = shiftBits^[n] x ^^^ shiftBits^[n] y := by
  induction n generalizing x y with
  | zero => rfl
  | succ n ih =>
      rw [Function.iterate_succ_apply, shiftBits_xor, ih, ← Function.iterate_succ_apply,
        ← Function.iterate_succ_apply]

theorem iterate_shiftBits_small (n : Nat) (x : BitVec 32) (h : x.toNat * 2 ^ n < 2 ^ 32) :
    shiftBits^[n] x = x <<< n := by
  induction n generalizing x with
  | zero => simp
  | succ n ih =>
      have hpow : 2 ^ (n + 1) = 2 * 2 ^ n := by rw [Nat.pow_succ, Nat.mul_comm]
      have hpos : 1 ≤ 2 ^ n := Nat.one_le_two_pow
      have hsmall : x.toNat < 2 ^ 31 := by
        rw [hpow] at h
        nlinarith
      have htop : x.getLsbD 31 = false := by
        rw [BitVec.getLsbD, Nat.testBit_lt_two_pow hsmall]
      have hshift : shiftBits x = x <<< 1 := by
        rw [shiftBits, htop]
        rfl
      have hnat : (x <<< 1).toNat = 2 * x.toNat := by
        rw [BitVec.toNat_shiftLeft, Nat.shiftLeft_eq, Nat.mod_eq_of_lt (by omega)]
        omega
      rw [Function.iterate_succ_apply, hshift, ih (x <<< 1) (by
        rw [hnat]
        rw [hpow] at h
        nlinarith), ← BitVec.shiftLeft_add, Nat.add_comm]

theorem swCrc32Table_eq : ∀ i < 256, (swCrc32Table.getD i 0).toBitVec =
    shiftBits^[8] (BitVec.ofNat 32 i <<< 24) := by
  decide +kernel

theorem split_octet (x : BitVec 32) :
    x = ((x <<< 8) >>> 8) ^^^ ((x >>> 24) <<< 24) := by
  ext i hi
  by_cases hlow : i < 24
  · have hsmall : 8 + i < 32 := by omega
    simp [hlow, hsmall]
  · have hlarge : ¬ 8 + i < 32 := by omega
    have hback : 24 + (i - 24) = i := by omega
    simp [hlow, hlarge, hback, hi]

theorem tableStep_toBitVec (x : UInt32) :
    (tableStep x).toBitVec = shiftBits^[8] x.toBitVec := by
  have hlt := x.toBitVec.isLt
  have hlow : ((x.toBitVec <<< 8) >>> 8).toNat = x.toBitVec.toNat * 2 ^ 8 % 2 ^ 32 / 2 ^ 8 := by
    rw [BitVec.toNat_ushiftRight, BitVec.toNat_shiftLeft, Nat.shiftLeft_eq,
      Nat.shiftRight_eq_div_pow]
  have hback : (x.toBitVec <<< 8) >>> 8 <<< 8 = x.toBitVec <<< 8 := by
    apply BitVec.eq_of_toNat_eq
    rw [BitVec.toNat_shiftLeft, hlow, BitVec.toNat_shiftLeft, Nat.shiftLeft_eq,
      Nat.shiftLeft_eq]
    omega
  have hoctet : (x >>> 24).toNat = x.toBitVec.toNat / 2 ^ 24 := by
    rw [UInt32.toNat_shiftRight, Nat.shiftRight_eq_div_pow]
    rfl
  have hindex : x.toBitVec >>> 24 = BitVec.ofNat 32 (x >>> 24).toNat := by
    apply BitVec.eq_of_toNat_eq
    rw [BitVec.toNat_ushiftRight, BitVec.toNat_ofNat, hoctet, Nat.shiftRight_eq_div_pow,
      Nat.mod_eq_of_lt (by omega)]
  rw [split_octet x.toBitVec, iterate_shiftBits_xor, iterate_shiftBits_small 8 _ (by
    rw [hlow]
    omega), hback, hindex, ← swCrc32Table_eq _ (by
    rw [hoctet]
    omega), tableStep, UInt32.toBitVec_xor,
    UInt32.toBitVec_shiftLeft]
  rfl

/-- The signer and the device compute the same checksum. -/
theorem ethUnit_eq : ethUnit = .stm32 := by
  have hsteps : ∀ (n : Nat) (x : UInt32),
      (tableStep^[n] x).toBitVec = shiftBits^[8 * n] x.toBitVec := by
    intro n
    induction n with
    | zero => exact fun _ => rfl
    | succ n ih =>
        intro x
        rw [Function.iterate_succ_apply, ih, tableStep_toBitVec, ← Function.iterate_add_apply]
        rfl
  have hfold : ethUnit.fold = CrcUnit.stm32.fold := by
    funext crc32 data
    change (List.range 4).foldl (fun x _ => tableStep x) _ =
      (List.range 32).foldl (fun x _ => crcShift x) _
    rw [List.foldl_const, List.foldl_const, ← UInt32.toBitVec_inj, List.length_range,
      List.length_range, hsteps, iterate_crcShift_toBitVec]
  exact congrArg (CrcUnit.mk 0xFFFFFFFF) hfold

end ShGateway.Sign
