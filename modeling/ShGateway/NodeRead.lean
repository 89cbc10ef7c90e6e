import ShGateway.SdoFlasher

/-!
What `cb_nd_rd` leaves in the buffer of its caller.
-/

namespace ShGateway.NodeRead

open ShGateway.Crc
open ShGateway.FwHeader
open ShGateway.Lib.ByteWords
open ShGateway.SdoFlasher

variable {β : Type*} (bus : SdoBus β) (unit : CrcUnit) (id : UInt8)
  (fwType addr sizeBuffer : Nat) (b : β)

/-- The packet that the node answers a request with, as far as `pkt` takes it. -/
def answer : Option (List UInt8) :=
  match bus.writeSdo id 0x1F50 1 (blockBytes unit fwType addr []) 3000 b with
  | (0, b) =>
      match bus.readSdo id 0x1F50 1 1024 100 b with
      | (0, bytes, _) => some (bytes.take 1024)
      | _ => none
  | _ => none

/-- The packet for a call of `cb_nd_rd`, if it comes to a request. -/
def response : Option (List UInt8) :=
  let (sts, b) := if addr = 0 then command bus id coSdoFlasherWStop b else (0, b)
  if sts ≠ 0 then none else answer bus unit id fwType addr b

/-- The selector and the offset in the header of a packet are the requested ones. -/
def Matches (pkt : List UInt8) : Prop :=
  5 ≤ pkt.length ∧ (pkt.getD 0 0).toNat = fwType ∧ ofLe ((pkt.drop 1).take 4) = addr

/-- No more than the buffer is written, and what is returned with success comes from a packet
for the request. -/
structure Respects : Prop where
  written : (cbNdRd bus unit id fwType addr sizeBuffer b).2.1.length ≤ sizeBuffer
  success : (cbNdRd bus unit id fwType addr sizeBuffer b).1 = 0 →
    ∃ sizeRead pkt, (cbNdRd bus unit id fwType addr sizeBuffer b).2.2.1 = some sizeRead ∧
      sizeRead ≤ sizeBuffer ∧ response bus unit id fwType addr b = some pkt ∧
      Matches fwType addr pkt ∧ sizeRead ≤ pkt.length - 5 ∧
      (cbNdRd bus unit id fwType addr sizeBuffer b).2.1.take sizeRead =
        (pkt.drop 5).take sizeRead

section

variable {bus unit id fwType addr sizeBuffer b}

theorem devRead_cases (b : β) :
    (∃ pkt b', answer bus unit id fwType addr b = some pkt ∧ Matches fwType addr pkt ∧
        devRead bus unit id fwType addr b = (((pkt.length - 5 : Nat) : Int), pkt.drop 5, b')) ∨
      (∀ pkt, answer bus unit id fwType addr b = some pkt → ¬ Matches fwType addr pkt) ∧
        ∃ sts b', devRead bus unit id fwType addr b = (sts, [], b') ∧ sts < 0 := by
  rcases hwrite : bus.writeSdo id 0x1F50 1 (blockBytes unit fwType addr []) 3000 b with
    ⟨_ | code, b₁⟩
  · rcases hread : bus.readSdo id 0x1F50 1 1024 100 b₁ with ⟨_ | code, bytes, b₂⟩
    · simp only [answer, devRead, hwrite, hread]
      split_ifs with hshort hother
      · refine .inr ⟨?_, _, b₂, rfl, by decide⟩
        rintro pkt ⟨⟩ hmatches
        exact absurd hmatches.1 (Nat.not_le.mpr hshort)
      · refine .inr ⟨?_, _, b₂, rfl, by decide⟩
        rintro pkt ⟨⟩ hmatches
        exact hother.elim (absurd hmatches.2.1) (absurd hmatches.2.2)
      · obtain ⟨hsel, hoff⟩ := not_or.mp hother
        exact .inl ⟨_, b₂, rfl, ⟨Nat.not_lt.mp hshort, not_not.mp hsel, not_not.mp hoff⟩, rfl⟩
    · simp only [answer, devRead, hwrite, hread]
      exact .inr ⟨nofun, -4, b₂, rfl, by decide⟩
  · simp only [answer, devRead, hwrite]
    exact .inr ⟨nofun, -1, b₁, rfl, by decide⟩

/-- `cb_nd_rd` copies what follows the header of a packet for the request, and fails without
one. -/
theorem cbNdRd_cases (hsize : sizeBuffer ≤ blockSz) (b : β) :
    (∃ pkt b', response bus unit id fwType addr b = some pkt ∧ Matches fwType addr pkt ∧
        cbNdRd bus unit id fwType addr sizeBuffer b =
          (0, pkt.drop 5, some (min (pkt.length - 5) sizeBuffer), b')) ∨
      (∀ pkt, response bus unit id fwType addr b = some pkt → ¬ Matches fwType addr pkt) ∧
        ∃ sts b', cbNdRd bus unit id fwType addr sizeBuffer b = (sts, [], none, b') ∧
          sts ≠ 0 := by
  rw [response, cbNdRd, if_neg (Nat.not_lt.mpr hsize)]
  rcases (if addr = 0 then command bus id coSdoFlasherWStop b else (0, b)) with ⟨sts, b₁⟩
  dsimp only
  rcases Classical.em (sts ≠ 0) with hsts | hsts
  · rw [if_pos hsts, if_pos hsts]
    exact .inr ⟨nofun, sts, b₁, rfl, hsts⟩
  rw [if_neg hsts, if_neg hsts]
  rcases @devRead_cases β bus unit id fwType addr b₁ with
    ⟨pkt, b₂, hanswer, hmatches, hread⟩ | ⟨hnone, code, b₂, hread, hneg⟩
  · rw [hread]
    dsimp only
    rw [if_neg (Int.not_lt.mpr (Int.natCast_nonneg _))]
    exact .inl ⟨pkt, b₂, hanswer, hmatches, rfl⟩
  · rw [hread]
    dsimp only
    rw [if_pos hneg]
    exact .inr ⟨hnone, -code, b₂, rfl, by omega⟩

end

/-- A read respects the buffer exactly if what follows the header of a packet for the request
fits it. -/
theorem respects_iff :
    Respects bus unit id fwType addr sizeBuffer b ↔
      (sizeBuffer ≤ blockSz → ∀ pkt, response bus unit id fwType addr b = some pkt →
        Matches fwType addr pkt → pkt.length - 5 ≤ sizeBuffer) := by
  rcases Classical.em (sizeBuffer ≤ blockSz) with hsize | hsize
  · rcases @cbNdRd_cases β bus unit id fwType addr sizeBuffer hsize b with
      ⟨pkt, b', hresponse, hmatches, hrun⟩ | ⟨hnone, sts, b', hrun, hsts⟩
    · constructor
      · rintro ⟨hwritten, -⟩ - pkt' hpkt' -
        obtain rfl := Option.some.inj (hresponse.symm.trans hpkt')
        rw [hrun, List.length_drop] at hwritten
        exact hwritten
      · intro h
        have hfits := h hsize pkt hresponse hmatches
        constructor
        · rw [hrun, List.length_drop]
          exact hfits
        · intro _
          refine ⟨min (pkt.length - 5) sizeBuffer, pkt, ?_, Nat.min_le_right _ _, hresponse,
            hmatches, Nat.min_le_left _ _, ?_⟩
          · rw [hrun]
          · rw [hrun]
    · refine iff_of_true ⟨?_, fun hzero => ?_⟩ fun _ pkt hpkt hmatches =>
        absurd hmatches (hnone pkt hpkt)
      · rw [hrun]
        exact Nat.zero_le _
      · rw [hrun] at hzero
        exact absurd hzero hsts
  · have hrun : cbNdRd bus unit id fwType addr sizeBuffer b =
        (sdoFlErrSizeBiggerThanBuffer, [], none, b) := by
      rw [cbNdRd, if_pos (Nat.not_le.mp hsize)]
    refine iff_of_true ⟨?_, fun hzero => ?_⟩ fun h => absurd h hsize
    · rw [hrun]
      exact Nat.zero_le _
    · rw [hrun] at hzero
      have hcode : sdoFlErrSizeBiggerThanBuffer ≠ 0 := by decide
      exact absurd hzero hcode

/-- A node that answers every read with 600 bytes of its loader. -/
def generousBus : SdoBus Unit where
  readSdo := fun _ _ _ _ _ b => (0, 1 :: le32 512 ++ List.replicate 600 0, b)
  writeSdo := fun _ _ _ _ _ b => (0, b)

theorem not_respects_generousBus : ¬ Respects generousBus .stm32 5 1 512 512 () := by
  rintro ⟨hwritten, -⟩
  have hlength : (cbNdRd generousBus .stm32 5 1 512 512 ()).2.1.length = 600 := by
    decide +kernel
  rw [hlength] at hwritten
  exact absurd hwritten (by decide)

end ShGateway.NodeRead
