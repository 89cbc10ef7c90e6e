import ShGateway.Lib.ByteWords

/-!
The FRAM of the gateway, the writes of `fram.c` to it and the reads from it.
-/

namespace ShGateway.Fram

open ShGateway.Lib.ByteWords

def framSize : Nat := 131072

def framErrAddrOvf : Int := -100

def framCmdWrEn : UInt8 := 0x06
def framCmdRead : UInt8 := 0x03
def framCmdWrite : UInt8 := 0x02

/-- The FM25V10: its memory and its write enable latch. -/
structure Chip where
  bytes : Nat → UInt8
  writeEnable : Bool

/-- Bytes that are stored one after another, back at the start behind the last one. -/
def store (bytes : Nat → UInt8) (addr : Nat) : List UInt8 → Nat → UInt8
  | [] => bytes
  | b :: data => store (Function.update bytes (addr % framSize) b) (addr + 1) data

/-- What the chip does with the bytes it gets while it is selected. -/
def Chip.select (c : Chip) (mosi : List UInt8) : Chip :=
  match mosi with
  | [] => c
  | cmd :: mosi =>
      if cmd = framCmdWrEn then { c with writeEnable := true }
      else if cmd = framCmdWrite then
        match mosi with
        | a :: b :: d :: data =>
            if c.writeEnable then ⟨store c.bytes (ofLe [d, b, a]) data, false⟩ else c
        | _ => c
      else c

def framWrite (addr : UInt32) (data : List UInt8) (c : Chip) : Int × Chip :=
  if addr + UInt32.ofNat data.length > UInt32.ofNat framSize then (framErrAddrOvf, c)
  else
    let c := c.select [framCmdWrEn]
    let cmdBuf := [framCmdWrite, (addr >>> 16).toUInt8, (addr >>> 8).toUInt8, addr.toUInt8]
    (0, c.select (cmdBuf ++ data))

/-- The bytes that the chip sends after a read command. -/
def Chip.answer (c : Chip) (mosi : List UInt8) (size : Nat) : Option (List UInt8) :=
  match mosi with
  | [cmd, a, b, d] =>
      if cmd = framCmdRead then
        some ((List.range' (ofLe [d, b, a]) size).map fun addr => c.bytes (addr % framSize))
      else none
  | _ => none

def framRead (addr size : UInt32) (c : Chip) : Int × Option (List UInt8) :=
  if addr + size > UInt32.ofNat framSize then (framErrAddrOvf, none)
  else
    let cmdBuf := [framCmdRead, (addr >>> 16).toUInt8, (addr >>> 8).toUInt8, addr.toUInt8]
    (0, c.answer cmdBuf size.toNat)

section

variable {bytes : Nat → UInt8} {addr : Nat} {data : List UInt8}

theorem store_of_lt {i : Nat} (hi : i < addr) (hfits : addr + data.length ≤ framSize) :
    store bytes addr data i = bytes i := by
  induction data generalizing bytes addr with
  | nil => rfl
  | cons b data ih =>
      rw [List.length_cons] at hfits
      rw [store, ih (by omega) (by omega), Nat.mod_eq_of_lt (by omega),
        Function.update_of_ne (by omega)]

theorem store_slice (hfits : addr + data.length ≤ framSize) :
    (List.range' addr data.length).map (store bytes addr data) = data := by
  induction data generalizing bytes addr with
  | nil => rfl
  | cons b data ih =>
      rw [List.length_cons] at hfits
      rw [List.length_cons, List.range'_succ, List.map_cons, store, ih (by omega),
        store_of_lt (Nat.lt_succ_self addr) (by omega), Nat.mod_eq_of_lt (by omega),
        Function.update_self]

end

theorem ofLe_address {addr : UInt32} (h : addr.toNat < 2 ^ 24) :
    ofLe [addr.toUInt8, (addr >>> 8).toUInt8, (addr >>> 16).toUInt8] = addr.toNat := by
  simp only [ofLe, UInt32.toNat_toUInt8, UInt32.toNat_shiftRight]
  simp [Nat.shiftRight_eq_div_pow]
  omega

theorem framWrite_spec (c : Chip) {addr : UInt32} {data : List UInt8}
    (hfits : addr.toNat + data.length ≤ framSize) :
    framWrite addr data c = (0, ⟨store c.bytes addr.toNat data, false⟩) := by
  have hsize : framSize = 131072 := rfl
  have hnot : ¬ addr + UInt32.ofNat data.length > UInt32.ofNat framSize := by
    rw [gt_iff_lt, UInt32.lt_iff_toNat_lt, UInt32.toNat_add, UInt32.toNat_ofNat',
      UInt32.toNat_ofNat']
    omega
  rw [framWrite, if_neg hnot]
  have haddr := @ofLe_address addr (by omega)
  simp only [Chip.select, List.cons_append, List.nil_append, haddr]
  rfl

/-- The bytes of an entry of `size` bytes. -/
def Chip.entry (c : Chip) (addr size : Nat) : List UInt8 := (List.range' addr size).map c.bytes

theorem framWrite_entry (c : Chip) {addr : UInt32} {data : List UInt8}
    (hfits : addr.toNat + data.length ≤ framSize) :
    (framWrite addr data c).2.entry addr.toNat data.length = data := by
  rw [framWrite_spec c hfits]
  exact store_slice hfits

end ShGateway.Fram
