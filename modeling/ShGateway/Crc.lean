import ShGateway.Lib.ByteWords

namespace ShGateway.Crc

open ShGateway.Lib.ByteWords

/-- The CRC unit: a register that is set to `reset` by writing `CR` and folds
every 32-bit word written to `DR`. -/
structure CrcUnit where
  reset : UInt32
  fold : UInt32 → UInt32 → UInt32

/-- One clock of the shift register of the CRC-32 polynomial. -/
def crcShift (dr : UInt32) : UInt32 :=
  if dr &&& 0x80000000 ≠ 0 then (dr <<< 1) ^^^ 0x04C11DB7 else dr <<< 1

/-- The unit of the STM32F4. -/
def CrcUnit.stm32 : CrcUnit where
  reset := 0xFFFFFFFF
  fold := fun dr word => (List.range 32).foldl (fun dr _ => crcShift dr) (dr ^^^ word)

/-- `crc32_end`: the register after the whole words of `data`, which is also
the returned value. -/
def crc32End (unit : CrcUnit) (dr : UInt32) (data : List UInt8) : UInt32 :=
  (words data).foldl unit.fold dr

def crc32Start (unit : CrcUnit) (data : List UInt8) : UInt32 :=
  crc32End unit unit.reset data

def crc32 (unit : CrcUnit) (data : List UInt8) : UInt32 :=
  crc32End unit unit.reset data

theorem crc32End_append (unit : CrcUnit) (dr : UInt32) {xs : List UInt8}
    (h : 4 ∣ xs.length) (ys : List UInt8) :
    crc32End unit dr (xs ++ ys) = crc32End unit (crc32End unit dr xs) ys :=
  foldl_words_append unit.fold dr h ys

@[simp] theorem crc32End_nil (unit : CrcUnit) (dr : UInt32) :
    crc32End unit dr [] = dr := rfl

end ShGateway.Crc
