import ShGateway.Lib.NorFlash

/-!
The flash driver of `platform.c` over the memory map of `ldscript/memory.ld`.
-/

namespace ShGateway.Platform

open ShGateway.Lib.NorFlash

def flashStart : Nat := 0x08000000
def flashLen : Nat := 0x00080000
def flashFinish : Nat := 0x08080000

/-! Partition limits given by the linker script. -/

def preldrStart : Nat := 0x08000000
def preldrEnd : Nat := 0x08004000
def ldrStart : Nat := 0x08004000
def ldrEnd : Nat := 0x08010000
def cfgOrigin : Nat := 0x08010000
def cfgEnd : Nat := 0x08020000
def cfgSize : Nat := 0x00010000
def appStart : Nat := 0x08020000
def appEnd : Nat := 0x08080000

/-- A row of `flash_desc`; its `erased` flag is part of the device state. -/
structure Sector where
  start : Nat
  len : Nat
deriving DecidableEq, Repr

def flashDesc : List Sector :=
  [⟨0x08000000, 16 * 1024⟩, ⟨0x08004000, 16 * 1024⟩, ⟨0x08008000, 16 * 1024⟩,
    ⟨0x0800C000, 16 * 1024⟩, ⟨0x08010000, 64 * 1024⟩, ⟨0x08020000, 128 * 1024⟩,
    ⟨0x08040000, 128 * 1024⟩, ⟨0x08060000, 128 * 1024⟩]

/-- The sector of the configuration store. -/
def cfgSect : Nat := 4

def findSector (addr : Nat) : Option Nat :=
  flashDesc.findIdx? fun s => s.start ≤ addr && addr < s.start + s.len

/-- Operations the flash controller was asked to perform. -/
inductive FlashOp
  | eraseSector (sect : Nat)
  | programByte (addr : Nat) (value : UInt8)
deriving DecidableEq, Repr

/-- Faults of the flash controller, which may depend on everything it did
before: a failing erase leaves arbitrary bytes in its sector, a failing
programming an arbitrary byte at its address. -/
structure FlashHw where
  eraseFault : List FlashOp → Option Mem
  programFault : List FlashOp → Option UInt8

/-- A controller whose operations all complete. -/
def FlashHw.ideal : FlashHw where
  eraseFault := fun _ => none
  programFault := fun _ => none

/-- Flash contents, the `erased` flags of `flash_desc`, and the operations
performed so far, oldest first. -/
structure FlashDev where
  mem : Mem
  erased : Nat → Bool
  ops : List FlashOp

def platformFlashEraseFlagReset (d : FlashDev) : FlashDev :=
  { d with erased := fun _ => false }

def platformFlashEraseFlagResetSectCfg (d : FlashDev) : FlashDev :=
  { d with erased := Function.update d.erased cfgSect false }

/-- `FLASH_EraseSector`; the result tells whether it reported `FLASH_COMPLETE`. -/
def flashEraseSector (hw : FlashHw) (d : FlashDev) (sect : Nat) : Bool × FlashDev :=
  let ops := d.ops ++ [.eraseSector sect]
  match hw.eraseFault d.ops with
  | none => (true, { d with mem := eraseSector findSector d.mem sect, ops })
  | some junk =>
      (false, { d with
        mem := fun a => if findSector a = some sect then junk a else d.mem a
        ops })

def flashProgramByte (hw : FlashHw) (d : FlashDev) (addr : Nat) (b : UInt8) :
    Bool × FlashDev :=
  let ops := d.ops ++ [.programByte addr b]
  match hw.programFault d.ops with
  | none => (true, { d with mem := programByte d.mem addr b, ops })
  | some junk => (false, { d with mem := Function.update d.mem addr junk, ops })

/-- The lazy erase at the head of the write loop's body. -/
def eraseOnce (hw : FlashHw) (d : FlashDev) (sect : Nat) : Bool × FlashDev :=
  if d.erased sect then (true, d)
  else
    flashEraseSector hw { d with erased := Function.update d.erased sect true } sect

/-- One turn of the loop of `platform_flash_write`. -/
def platformFlashWriteByte (hw : FlashHw) (d : FlashDev) (dest : Nat) (b : UInt8) :
    Nat × FlashDev :=
  match findSector dest with
  | none => (1, d)
  | some sect =>
      match eraseOnce hw d sect with
      | (false, d) => (2, d)
      | (true, d) =>
          match flashProgramByte hw d dest b with
          | (false, d) => (4, d)
          | (true, d) => if d.mem dest ≠ b then (5, d) else (0, d)

/-- `platform_flash_write`: the error code, zero on success, and the device
after the call. Addresses past the flash belong to no sector, so that
`dest + i` never wraps around before the loop ends. -/
def platformFlashWrite (hw : FlashHw) (d : FlashDev) (dest : Nat) :
    List UInt8 → Nat × FlashDev
  | [] => (0, d)
  | b :: src =>
      match platformFlashWriteByte hw d dest b with
      | (0, d) => platformFlashWrite hw d (dest + 1) src
      | (err, d) => (err, d)

/-- `platform_flash_read`; `none` is the error return, which copies nothing. -/
def platformFlashRead (m : Mem) (addr sz : Nat) : Option (List UInt8) :=
  if addr < flashStart ∨ (addr + sz) % 2 ^ 32 ≥ flashFinish then none
  else some (readBytes m addr sz)

/-- The contents of a buffer after a `platform_flash_read` into it. -/
def readInto (m : Mem) (addr : Nat) (buf : List UInt8) : List UInt8 :=
  (platformFlashRead m addr buf.length).getD buf

theorem readInto_eq_readBytes (m : Mem) {addr : Nat} (buf : List UInt8)
    (hstart : flashStart ≤ addr) (hfinish : addr + buf.length < flashFinish) :
    readInto m addr buf = readBytes m addr buf.length := by
  have hwrap : (addr + buf.length) % 2 ^ 32 = addr + buf.length := by
    simp only [flashFinish] at hfinish
    omega
  rw [readInto, platformFlashRead, if_neg (by rw [hwrap]; omega), Option.getD_some]

theorem readInto_length (m : Mem) (addr : Nat) (buf : List UInt8) :
    (readInto m addr buf).length = buf.length := by
  unfold readInto platformFlashRead
  split <;> simp

theorem findSector_eq (addr : Nat) :
    findSector addr =
      if addr < 0x08000000 then none
      else if addr < 0x08010000 then some ((addr - 0x08000000) / 0x4000)
      else if addr < 0x08020000 then some 4
      else if addr < 0x08080000 then some (5 + (addr - 0x08020000) / 0x20000)
      else none := by
  simp only [findSector, flashDesc, List.findIdx?_cons, List.findIdx?_nil,
    Bool.and_eq_true, decide_eq_true_eq]
  split_ifs <;> first
    | omega
    | (simp only [Option.map_some, Option.map_none, Option.some.injEq]; try omega)

theorem findSector_cfg {addr : Nat} (h₁ : cfgOrigin ≤ addr) (h₂ : addr < cfgEnd) :
    findSector addr = some cfgSect := by
  simp only [cfgOrigin, cfgEnd] at h₁ h₂
  rw [findSector_eq, if_neg (by omega), if_neg (by omega), if_pos (by omega)]
  rfl

end ShGateway.Platform
