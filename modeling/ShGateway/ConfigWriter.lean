import ShGateway.ConfigFormat
import ShGateway.ConfigSystem
import ShGateway.FlashWrite

namespace ShGateway.ConfigWriter

open ShGateway.ConfigFormat
open ShGateway.ConfigSystem
open ShGateway.Crc
open ShGateway.FlashWrite
open ShGateway.Lib.ByteWords
open ShGateway.Lib.NorFlash
open ShGateway.Platform

theorem andThen_eq_ok_iff {first second : Store → ConfigSts × Store} {s s' : Store} :
    andThen first second s = (.ok, s') ↔
      ∃ s₁, first s = (.ok, s₁) ∧ second s₁ = (.ok, s') := by
  unfold andThen
  rcases first s with ⟨sts, s₁⟩
  cases sts <;> simp

/-! ## Frame -/

theorem flushLoop_table (hw : FlashHw) (unit : CrcUnit) (bs : List UInt8)
    (flushAll : Bool) (s : Store) :
    (flushLoop hw unit bs flushAll s).2.table = s.table := by
  induction bs generalizing s with
  | nil => rfl
  | cons b bs ih =>
      simp only [flushLoop]
      split_ifs
      · split
        · rw [ih]
        · rfl
      · rw [ih]

theorem flushDataCalcCrc_table (hw : FlashHw) (unit : CrcUnit) (bytes : List UInt8)
    (flushAll : Bool) (s : Store) :
    (flushDataCalcCrc hw unit bytes flushAll s).2.table = s.table := by
  unfold flushDataCalcCrc
  split_ifs
  · rfl
  · exact flushLoop_table hw unit bytes flushAll s

theorem andThen_table {first second : Store → ConfigSts × Store}
    (hfirst : ∀ s, (first s).2.table = s.table)
    (hsecond : ∀ s, (second s).2.table = s.table) (s : Store) :
    (andThen first second s).2.table = s.table := by
  have h := hfirst s
  unfold andThen
  rcases hs : first s with ⟨sts, s₁⟩
  rw [hs] at h
  cases sts with
  | ok => exact (hsecond s₁).trans h
  | _ => exact h

theorem writeEntry_table (hw : FlashHw) (unit : CrcUnit) (key : List UInt8)
    (size : Nat) (value : List UInt8) (s : Store) :
    (writeEntry hw unit key size value s).2.table = s.table :=
  andThen_table (flushDataCalcCrc_table hw unit _ _)
    (andThen_table (flushDataCalcCrc_table hw unit _ _)
      (flushDataCalcCrc_table hw unit _ _)) s

/-! ## The stream -/

/-- The writer has sent `flushed` to the flash since `before`. -/
structure Flushed (before : FlashDev) (flushed : List UInt8) (s : Store) : Prop where
  offset : s.offsetWriteData = flushed.length
  dev : FlashWritten before cfgOrigin flushed s.dev

/-- Between two calls the writer has sent whole blocks, which the CRC covers. -/
structure Streaming (unit : CrcUnit) (before : FlashDev) (flushed : List UInt8)
    (s : Store) : Prop extends Flushed before flushed s where
  align : flushed.length % flushBufferSize = 0
  bound : flushed.length ≤ cfgSize
  room : s.flushBuffer.length < flushBufferSize
  crc : s.crcDr = crc32End unit unit.reset flushed

/-- `out` was emitted since `before`, its tail being still in the buffer. -/
def Streamed (unit : CrcUnit) (before : FlashDev) (out : List UInt8) (s : Store) :
    Prop :=
  ∃ flushed, Streaming unit before flushed s ∧ out = flushed ++ s.flushBuffer

theorem Streamed.length_lt {unit : CrcUnit} {before : FlashDev} {out : List UInt8}
    {s : Store} (h : Streamed unit before out s) :
    out.length < cfgSize + flushBufferSize := by
  obtain ⟨flushed, hs, rfl⟩ := h
  have hbound := hs.bound
  have hroom := hs.room
  rw [List.length_append]
  omega

theorem Streamed.offset_le {unit : CrcUnit} {before : FlashDev} {out : List UInt8}
    {s : Store} (h : Streamed unit before out s) : s.offsetWriteData ≤ out.length := by
  obtain ⟨flushed, hs, rfl⟩ := h
  rw [hs.offset, List.length_append]
  omega

/-- The configuration sector is to be erased before its next byte is written. -/
def SectorReset (before : FlashDev) : Prop := before.erased cfgSect = false

theorem SectorReset.fresh {before : FlashDev} (h : SectorReset before) {n : Nat}
    (hn : n ≤ cfgSize) : Fresh before cfgOrigin n := by
  intro a h₁ h₂
  refine ⟨cfgSect, findSector_cfg h₁ ?_, h⟩
  simp only [cfgSize, cfgOrigin, cfgEnd] at *
  omega

theorem Flushed.flush {before : FlashDev} {flushed : List UInt8}
    {s : Store} (h : Flushed before flushed s) (hreset : SectorReset before)
    (chunk : List UInt8) (hbound : flushed.length + chunk.length ≤ cfgSize) :
    ∃ dev, platformFlashWrite .ideal s.dev (cfgOrigin + s.offsetWriteData) chunk =
        (0, dev) ∧
      FlashWritten before cfgOrigin (flushed ++ chunk) dev := by
  rw [h.offset]
  exact platformFlashWrite_ideal h.dev chunk (hreset.fresh hbound)

theorem flushLoop_stream {unit : CrcUnit} {before : FlashDev}
    (flushed bs : List UInt8) (s : Store) (h : Streaming unit before flushed s) (hreset : SectorReset before)
    (hbound : flushed.length + s.flushBuffer.length + bs.length <
      cfgSize + flushBufferSize) :
    ∃ s', flushLoop .ideal unit bs false s = (.ok, s') ∧
      Streamed unit before (flushed ++ s.flushBuffer ++ bs) s' := by
  induction bs generalizing s flushed with
  | nil => exact ⟨s, rfl, flushed, h, by simp⟩
  | cons b bs ih =>
      have hroom := h.room
      have halign := h.align
      simp only [flushBufferSize, cfgSize, List.length_cons] at hroom halign hbound
      simp only [flushLoop, Bool.false_eq_true, and_false, or_false]
      by_cases hfull : s.flushBuffer.length + 1 = 32
      · have hchunk : flushed.length + (s.flushBuffer ++ [b]).length ≤ cfgSize := by
          simp only [cfgSize, List.length_append, List.length_singleton]
          omega
        obtain ⟨dev, hwrite, hdev⟩ := h.toFlushed.flush hreset _ hchunk
        rw [if_pos (by simp [flushBufferSize]; omega), hwrite]
        obtain ⟨s', hloop, hstream⟩ := ih (flushed ++ (s.flushBuffer ++ [b]))
          { s with
            dev
            offsetWriteData := s.offsetWriteData + (s.flushBuffer ++ [b]).length
            crcDr := crc32End unit s.crcDr (s.flushBuffer ++ [b])
            flushBuffer := [] }
          { offset := by simp [h.offset]
            align := by
              simp only [flushBufferSize, List.length_append, List.length_singleton]
              omega
            bound := by simpa using hchunk
            room := by simp [flushBufferSize]
            dev := hdev
            crc := by
              have hwords : 4 ∣ flushed.length := by omega
              rw [crc32End_append unit unit.reset hwords, h.crc] }
          (by
            simp only [flushBufferSize, cfgSize, List.length_append, List.length_nil,
              List.length_singleton]
            omega)
        exact ⟨s', hloop, by simpa using hstream⟩
      · rw [if_neg (by simp [flushBufferSize]; omega)]
        obtain ⟨s', hloop, hstream⟩ := ih flushed
          { s with flushBuffer := s.flushBuffer ++ [b] }
          { h with room := by simp [flushBufferSize]; omega }
          (by simp [flushBufferSize, cfgSize]; omega)
        exact ⟨s', hloop, by simpa using hstream⟩

theorem flushLoop_last (unit : CrcUnit) {before : FlashDev} {flushed : List UInt8}
    (bs : List UInt8) (s : Store) (h : Flushed before flushed s)
    (hreset : SectorReset before) (hne : bs ≠ []) (hroom : s.flushBuffer.length + bs.length ≤ flushBufferSize)
    (hbound : flushed.length + s.flushBuffer.length + bs.length ≤ cfgSize) :
    ∃ s', flushLoop .ideal unit bs true s = (.ok, s') ∧
      FlashWritten before cfgOrigin (flushed ++ s.flushBuffer ++ bs) s'.dev := by
  induction bs generalizing s with
  | nil => exact absurd rfl hne
  | cons b bs ih =>
      simp only [List.length_cons] at hroom hbound
      simp only [flushLoop, and_true]
      by_cases hlast : bs = []
      · subst hlast
        obtain ⟨dev, hwrite, hdev⟩ := h.flush hreset (s.flushBuffer ++ [b])
          (by simp only [List.length_append, List.length_singleton]
              simpa [Nat.add_assoc] using hbound)
        rw [if_pos (.inr rfl), hwrite]
        exact ⟨_, rfl, by simpa using hdev⟩
      · have hpos := List.length_pos_iff.mpr hlast
        rw [if_neg (by simp [hlast]; omega)]
        obtain ⟨s', hloop, hdev⟩ := ih { s with flushBuffer := s.flushBuffer ++ [b] }
          ⟨h.offset, h.dev⟩ hlast (by simp; omega) (by simp; omega)
        exact ⟨s', hloop, by simpa using hdev⟩

/-! ## Writers as emitters -/

/-- `write` emits `bytes`: where it succeeds it has emitted them, and it
succeeds if they fit into the sector. -/
structure Emits (unit : CrcUnit) (write : Store → ConfigSts × Store)
    (bytes : List UInt8) : Prop where
  sound : ∀ {before out s s'}, SectorReset before → Streamed unit before out s →
    write s = (.ok, s') → Streamed unit before (out ++ bytes) s'
  complete : ∀ {before out s}, SectorReset before → Streamed unit before out s →
    (out ++ bytes).length ≤ cfgSize → ∃ s', write s = (.ok, s')

theorem Emits.andThen {unit : CrcUnit} {f g : Store → ConfigSts × Store}
    {xs ys : List UInt8} (hf : Emits unit f xs) (hg : Emits unit g ys) :
    Emits unit (ConfigSystem.andThen f g) (xs ++ ys) where
  sound := by
    intro before out s s' hreset hs hok
    obtain ⟨s₁, h₁, h₂⟩ := andThen_eq_ok_iff.mp hok
    rw [← List.append_assoc]
    exact hg.sound hreset (hf.sound hreset hs h₁) h₂
  complete := by
    intro before out s hreset hs hfits
    rw [← List.append_assoc] at hfits
    obtain ⟨s₁, h₁⟩ := hf.complete hreset hs (by
      rw [List.length_append] at hfits
      omega)
    obtain ⟨s₂, h₂⟩ := hg.complete hreset (hf.sound hreset hs h₁) hfits
    exact ⟨s₂, andThen_eq_ok_iff.mpr ⟨s₁, h₁, h₂⟩⟩

theorem emits_nil (unit : CrcUnit) : Emits unit (fun s => (.ok, s)) [] where
  sound := by
    rintro before out s s' _ hs ⟨⟩
    simpa using hs
  complete := fun _ _ _ => ⟨_, rfl⟩

theorem flushDataCalcCrc_stream {unit : CrcUnit} {before : FlashDev}
    {out : List UInt8} (bytes : List UInt8) {s : Store} (hreset : SectorReset before)
    (hs : Streamed unit before out s)
    (hfits : s.offsetWriteData + bytes.length ≤ cfgSize) :
    ∃ s', flushDataCalcCrc .ideal unit bytes false s = (.ok, s') ∧
      Streamed unit before (out ++ bytes) s' := by
  obtain ⟨flushed, h, rfl⟩ := hs
  have hroom := h.room
  rw [h.offset] at hfits
  have hnowrap : ¬ (s.offsetWriteData + bytes.length) % 2 ^ 32 > cfgSize := by
    rw [h.offset, Nat.mod_eq_of_lt (by simp only [cfgSize] at hfits; omega)]
    omega
  rw [flushDataCalcCrc, if_neg hnowrap]
  exact flushLoop_stream flushed bytes s h hreset (by omega)

theorem emits_flushDataCalcCrc (unit : CrcUnit) (bytes : List UInt8)
    (hshort : bytes.length < 2 ^ 31) :
    Emits unit (flushDataCalcCrc .ideal unit bytes false) bytes where
  sound := by
    intro before out s s' hreset hs hok
    have hlt := hs.length_lt
    have hoffset := hs.offset_le
    simp only [cfgSize, flushBufferSize] at hlt
    have hfits : s.offsetWriteData + bytes.length ≤ cfgSize := by
      by_contra hover
      rw [flushDataCalcCrc, if_pos (by rw [Nat.mod_eq_of_lt (by omega)]; omega)] at hok
      simp at hok
    obtain ⟨s₁, hflush, hstream⟩ := flushDataCalcCrc_stream bytes hreset hs hfits
    rw [hflush] at hok
    obtain rfl : s₁ = s' := (Prod.mk.inj hok).2
    exact hstream
  complete := by
    intro before out s hreset hs hfits
    have hoffset := hs.offset_le
    rw [List.length_append] at hfits
    obtain ⟨s', hflush, -⟩ := flushDataCalcCrc_stream bytes hreset hs (by omega)
    exact ⟨s', hflush⟩

theorem emits_writeEntry (unit : CrcUnit) {e : StoredEntry} (hwf : e.WellFormed) :
    Emits unit (writeEntry .ideal unit e.key e.value.length e.value) e.bytes := by
  have hkey := hwf.key_short
  have hvalue := hwf.value_short
  have h := (emits_flushDataCalcCrc unit (e.key ++ [0]) (by simp; omega)).andThen
    ((emits_flushDataCalcCrc unit (le16 e.value.length) (by simp)).andThen
      (emits_flushDataCalcCrc unit e.value (by omega)))
  rw [← List.append_assoc] at h
  exact h

/-- Writing a list of entries one after the other. -/
def writeStored (hw : FlashHw) (unit : CrcUnit) :
    List StoredEntry → Store → ConfigSts × Store
  | [], s => (.ok, s)
  | e :: es, s =>
      andThen (writeEntry hw unit e.key e.value.length e.value)
        (writeStored hw unit es) s

theorem writeStored_table (hw : FlashHw) (unit : CrcUnit) (es : List StoredEntry)
    (s : Store) : (writeStored hw unit es s).2.table = s.table := by
  induction es generalizing s with
  | nil => rfl
  | cons e es ih =>
      exact andThen_table (writeEntry_table hw unit e.key e.value.length e.value) ih s

theorem emits_writeStored (unit : CrcUnit) {es : List StoredEntry}
    (hwf : ∀ e ∈ es, e.WellFormed) :
    Emits unit (writeStored .ideal unit es) (entriesBytes es) := by
  induction es with
  | nil => exact emits_nil unit
  | cons e es ih =>
      have htail := ih fun f hf => hwf f (by simp [hf])
      exact (emits_writeEntry unit (hwf e (by simp))).andThen htail

theorem writeStored_append (hw : FlashHw) (unit : CrcUnit) (es fs : List StoredEntry)
    (s : Store) :
    writeStored hw unit (es ++ fs) s =
      andThen (writeStored hw unit es) (writeStored hw unit fs) s := by
  induction es generalizing s with
  | nil => simp [writeStored, andThen]
  | cons e es ih =>
      simp only [List.cons_append, writeStored, andThen]
      split
      · rename_i s₁ heq
        rw [ih, andThen]
      · rename_i hfailed
        split
        · rename_i s₁ heq
          exact absurd heq (hfailed s₁)
        · rfl

end ShGateway.ConfigWriter
