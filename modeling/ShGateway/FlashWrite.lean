import ShGateway.Platform

namespace ShGateway.FlashWrite

open ShGateway.Lib.NorFlash
open ShGateway.Platform

/-- Every address of the range belongs to a sector that `before` still has to
erase. -/
def Fresh (before : FlashDev) (start n : Nat) : Prop :=
  ∀ a, start ≤ a → a < start + n →
    ∃ i, findSector a = some i ∧ before.erased i = false

/-- The device after `content` was written from `start` on: the flags mark the
touched sectors, each of them was erased once and only the content's addresses
were programmed. -/
structure FlashWritten (before : FlashDev) (start : Nat) (content : List UInt8)
    (after : FlashDev) : Prop where
  mem : Written findSector before.mem start content after.mem
  erased : ∀ i, after.erased i = true ↔
    before.erased i = true ∨ Touched findSector start content.length i
  ops : ∃ ops, after.ops = before.ops ++ ops ∧
    (∀ a b, .programByte a b ∈ ops → start ≤ a ∧ a < start + content.length) ∧
    (∀ i, Touched findSector start content.length i →
      ops.count (.eraseSector i) = 1) ∧
    ∀ i, ¬ Touched findSector start content.length i →
      ops.count (.eraseSector i) = 0

theorem FlashWritten.nil (d : FlashDev) (start : Nat) :
    FlashWritten d start [] d where
  mem := Written.nil d.mem start
  erased := fun i => by simp [not_touched_zero]
  ops := ⟨[], by simp, by simp, fun i h => absurd h (not_touched_zero start i),
    fun _ _ => rfl⟩

/-- Bookkeeping of one more programmed byte, `erase` being the erase that came
first, if any. -/
theorem FlashWritten.ops_snoc {before after : FlashDev} {start : Nat}
    {content : List UInt8} (h : FlashWritten before start content after)
    {i : Nat} (hi : findSector (start + content.length) = some i)
    (erase : List FlashOp)
    (hother : ∀ j, j ≠ i → erase.count (.eraseSector j) = 0)
    (hself : Touched findSector start content.length i ∧
        erase.count (.eraseSector i) = 0 ∨
      ¬ Touched findSector start content.length i ∧
        erase.count (.eraseSector i) = 1)
    (hprogram : ∀ a b, .programByte a b ∉ erase) (b : UInt8) :
    ∃ ops, after.ops ++ erase ++
        [.programByte (start + content.length) b] = before.ops ++ ops ∧
      (∀ a b', .programByte a b' ∈ ops →
        start ≤ a ∧ a < start + (content ++ [b]).length) ∧
      (∀ j, Touched findSector start (content ++ [b]).length j →
        ops.count (.eraseSector j) = 1) ∧
      ∀ j, ¬ Touched findSector start (content ++ [b]).length j →
        ops.count (.eraseSector j) = 0 := by
  obtain ⟨ops, hops, hin, hone, hzero⟩ := h.ops
  have hcount : ∀ j, (ops ++ erase ++
      [FlashOp.programByte (start + content.length) b]).count (.eraseSector j) =
        ops.count (.eraseSector j) + erase.count (.eraseSector j) := by
    intro j
    simp [List.count_append]
  have htouched : ∀ j, Touched findSector start (content ++ [b]).length j ↔
      Touched findSector start content.length j ∨ i = j := by
    intro j
    rw [List.length_append, List.length_singleton, touched_succ, hi, Option.some.injEq]
  refine ⟨ops ++ erase ++ [.programByte (start + content.length) b], ?_, ?_, ?_, ?_⟩
  · simp [hops]
  · intro a b' hmem
    simp only [List.mem_append, List.mem_singleton] at hmem
    simp only [List.length_append, List.length_singleton]
    rcases hmem with (hmem | hmem) | hmem
    · have := hin a b' hmem
      omega
    · exact absurd hmem (hprogram a b')
    · cases hmem
      omega
  · intro j hj
    rw [hcount]
    by_cases hji : j = i
    · subst j
      rcases hself with ⟨hold, hnone⟩ | ⟨hnew, honce⟩
      · rw [hone i hold, hnone]
      · rw [hzero i hnew, honce]
    · have hold : Touched findSector start content.length j :=
        ((htouched j).mp hj).resolve_right (Ne.symm hji)
      rw [hone j hold, hother j hji]
  · intro j hj
    rw [htouched, not_or] at hj
    rw [hcount, hzero j hj.1, hother j (Ne.symm hj.2)]

theorem platformFlashWriteByte_ideal {before d : FlashDev} {start : Nat}
    {content : List UInt8} (h : FlashWritten before start content d) {i : Nat}
    (hi : findSector (start + content.length) = some i)
    (hfresh : before.erased i = false) (b : UInt8) :
    ∃ d', platformFlashWriteByte .ideal d (start + content.length) b = (0, d') ∧
      FlashWritten before start (content ++ [b]) d' := by
  by_cases ht : Touched findSector start content.length i
  · have hflag : d.erased i = true := (h.erased i).mpr (.inr ht)
    have hmem := h.mem.program hi ht b
    refine ⟨{ d with
      mem := programByte d.mem (start + content.length) b
      ops := d.ops ++ [.programByte (start + content.length) b] }, ?_, hmem, ?_, ?_⟩
    · have hback := hmem.stored content.length (by simp)
      simp only [List.getElem_concat_length] at hback
      simp [platformFlashWriteByte, hi, eraseOnce, hflag, flashProgramByte,
        FlashHw.ideal, hback]
    · intro j
      rw [List.length_append, List.length_singleton, touched_succ, h.erased, hi,
        Option.some.injEq]
      constructor
      · rintro (hj | hj)
        · exact .inl hj
        · exact .inr (.inl hj)
      · rintro (hj | hj | rfl)
        · exact .inl hj
        · exact .inr hj
        · exact .inr ht
    · simpa using h.ops_snoc hi [] (by simp) (.inl ⟨ht, rfl⟩) (by simp) b
  · have hflag : d.erased i = false := by
      rw [← Bool.not_eq_true, h.erased, not_or]
      exact ⟨by simp [hfresh], ht⟩
    have hmem := h.mem.erase_program hi ht b
    refine ⟨{
      mem := programByte (eraseSector findSector d.mem i) (start + content.length) b
      erased := Function.update d.erased i true
      ops := d.ops ++ [.eraseSector i] ++
        [.programByte (start + content.length) b] }, ?_, hmem, ?_, ?_⟩
    · have hback := hmem.stored content.length (by simp)
      simp only [List.getElem_concat_length] at hback
      simp [platformFlashWriteByte, hi, eraseOnce, hflag, flashEraseSector,
        flashProgramByte, FlashHw.ideal, hback]
    · intro j
      rw [List.length_append, List.length_singleton, touched_succ, hi,
        Option.some.injEq]
      by_cases hj : j = i
      · subst hj
        simp
      · have hold : Function.update d.erased i true j = d.erased j :=
          Function.update_of_ne hj _ _
        simp only [hold, h.erased, Ne.symm hj, or_false]
    · exact h.ops_snoc hi [.eraseSector i]
        (by intro j hj; simp [Ne.symm hj]) (.inr ⟨ht, by simp⟩)
        (by simp) b

/-- A write into fresh sectors of a device without faults succeeds and stores
exactly the source bytes. -/
theorem platformFlashWrite_ideal {before d : FlashDev} {start : Nat}
    {content : List UInt8} (h : FlashWritten before start content d)
    (src : List UInt8) (hfresh : Fresh before start (content.length + src.length)) :
    ∃ d', platformFlashWrite .ideal d (start + content.length) src = (0, d') ∧
      FlashWritten before start (content ++ src) d' := by
  induction src generalizing d content with
  | nil => exact ⟨d, rfl, by simpa using h⟩
  | cons b src ih =>
      obtain ⟨i, hi, hflag⟩ := hfresh (start + content.length) (by omega)
        (by simp only [List.length_cons]; omega)
      obtain ⟨d₁, hbyte, h₁⟩ := platformFlashWriteByte_ideal h hi hflag b
      have hlen : (content ++ [b]).length + src.length =
          content.length + (b :: src).length := by
        simp only [List.length_append, List.length_cons, List.length_nil]
        omega
      obtain ⟨d₂, hwrite, h₂⟩ := ih h₁ (by rw [hlen]; exact hfresh)
      refine ⟨d₂, ?_, by simpa using h₂⟩
      rw [platformFlashWrite, hbyte]
      simpa [Nat.add_assoc] using hwrite

/-! ## Writes with faults -/

/-- What a write of `n` bytes to `dest` leaves alone, whatever fails: flags that
are set, and the bytes outside its range in sectors that were erased before. -/
structure FlashFrame (d : FlashDev) (dest n : Nat) (d' : FlashDev) : Prop where
  erased : ∀ i, d.erased i = true → d'.erased i = true
  mem : ∀ a, (a < dest ∨ dest + n ≤ a) →
    (∀ i, findSector a = some i → d.erased i = true) → d'.mem a = d.mem a

theorem FlashFrame.refl (d : FlashDev) (dest n : Nat) : FlashFrame d dest n d :=
  ⟨fun _ h => h, fun _ _ _ => rfl⟩

theorem FlashFrame.trans {d₁ d₂ d₃ : FlashDev} {dest n k : Nat}
    (h₁ : FlashFrame d₁ dest n d₂) (h₂ : FlashFrame d₂ (dest + n) k d₃) :
    FlashFrame d₁ dest (n + k) d₃ where
  erased := fun i h => h₂.erased i (h₁.erased i h)
  mem := fun a ha hsect => by
    rw [h₂.mem a (by omega) fun i hi => h₁.erased i (hsect i hi)]
    exact h₁.mem a (by omega) hsect

theorem eraseOnce_frame (hw : FlashHw) (d : FlashDev) (sect dest n : Nat) :
    FlashFrame d dest n (eraseOnce hw d sect).2 ∧
      (eraseOnce hw d sect).2.erased sect = true := by
  rw [eraseOnce]
  by_cases hflag : d.erased sect = true
  · rw [if_pos hflag]
    exact ⟨FlashFrame.refl d dest n, hflag⟩
  · rw [if_neg hflag]
    have herased : ∀ i, d.erased i = true →
        Function.update d.erased sect true i = true := by
      intro i hi
      by_cases hsame : i = sect
      · rw [hsame, Function.update_self]
      · rw [Function.update_of_ne hsame, hi]
    have hother : ∀ a, (∀ i, findSector a = some i → d.erased i = true) →
        findSector a ≠ some sect := by
      intro a hsect hin
      exact hflag (hsect sect hin)
    rw [flashEraseSector]
    rcases hfault : hw.eraseFault d.ops with _ | junk
    · exact ⟨⟨herased, fun a _ hsect => if_neg (hother a hsect)⟩, Function.update_self ..⟩
    · exact ⟨⟨herased, fun a _ hsect => if_neg (hother a hsect)⟩, Function.update_self ..⟩

theorem flashProgramByte_frame (hw : FlashHw) (d : FlashDev) (dest : Nat) (b : UInt8) :
    FlashFrame d dest 1 (flashProgramByte hw d dest b).2 ∧
      (flashProgramByte hw d dest b).2.erased = d.erased := by
  rw [flashProgramByte]
  rcases hfault : hw.programFault d.ops with _ | junk
  · refine ⟨⟨fun _ h => h, fun a ha _ => ?_⟩, rfl⟩
    exact Function.update_of_ne (by omega) _ _
  · refine ⟨⟨fun _ h => h, fun a ha _ => ?_⟩, rfl⟩
    exact Function.update_of_ne (by omega) _ _

theorem platformFlashWriteByte_frame (hw : FlashHw) (d : FlashDev) (dest : Nat)
    (b : UInt8) :
    FlashFrame d dest 1 (platformFlashWriteByte hw d dest b).2 ∧
      ((platformFlashWriteByte hw d dest b).1 = 0 → ∀ i, findSector dest = some i →
        (platformFlashWriteByte hw d dest b).2.erased i = true) := by
  unfold platformFlashWriteByte
  rcases hsect : findSector dest with _ | i
  · exact ⟨FlashFrame.refl d dest 1, by simp⟩
  · obtain ⟨hframe, hflag⟩ := eraseOnce_frame hw d i dest 0
    rcases herase : eraseOnce hw d i with ⟨_ | _, d₁⟩
    · rw [herase] at hframe
      simp only [herase]
      exact ⟨⟨hframe.erased, fun a _ h => hframe.mem a (by omega) h⟩, by simp⟩
    · rw [herase] at hframe hflag
      obtain ⟨hprogram, herased⟩ := flashProgramByte_frame hw d₁ dest b
      have htotal := hframe.trans hprogram
      have hset : (flashProgramByte hw d₁ dest b).2.erased i = true := by
        rw [herased]
        exact hflag
      rcases hprog : flashProgramByte hw d₁ dest b with ⟨_ | _, d₂⟩
      · rw [hprog, Nat.zero_add] at htotal
        simp only [herase, hprog]
        exact ⟨htotal, by simp⟩
      · rw [hprog] at htotal hset
        rw [Nat.zero_add] at htotal
        simp only [herase, hprog]
        split_ifs
        · exact ⟨htotal, by simp⟩
        · refine ⟨htotal, fun _ j hj => ?_⟩
          obtain rfl := Option.some.inj hj
          exact hset

/-- Whatever fails, a write keeps to its range and to the sectors it erases; if
nothing fails, the touched sectors are marked as erased. -/
theorem platformFlashWrite_frame (hw : FlashHw) (d : FlashDev) (dest : Nat)
    (src : List UInt8) :
    FlashFrame d dest src.length (platformFlashWrite hw d dest src).2 ∧
      ((platformFlashWrite hw d dest src).1 = 0 → ∀ i,
        Touched findSector dest src.length i →
        (platformFlashWrite hw d dest src).2.erased i = true) := by
  induction src generalizing d dest with
  | nil =>
      exact ⟨FlashFrame.refl d dest 0, fun _ i h => absurd h (not_touched_zero dest i)⟩
  | cons b src ih =>
      obtain ⟨hbyte, hset⟩ := platformFlashWriteByte_frame hw d dest b
      rw [platformFlashWrite]
      rcases hres : platformFlashWriteByte hw d dest b with ⟨_ | err, d₁⟩
      · rw [hres] at hbyte hset
        obtain ⟨hrest, hrestSet⟩ := ih d₁ (dest + 1)
        have hlen : (b :: src).length = 1 + src.length := by
          rw [List.length_cons, Nat.add_comm]
        rw [hlen]
        refine ⟨hbyte.trans hrest, fun hok i ⟨a, hlo, hhi, ha⟩ => ?_⟩
        by_cases hfirst : a = dest
        · subst hfirst
          exact hrest.erased i (hset rfl i ha)
        · exact hrestSet hok i ⟨a, by omega, by omega, ha⟩
      · rw [hres] at hbyte
        refine ⟨⟨hbyte.erased, fun a ha h => hbyte.mem a ?_ h⟩, by simp⟩
        simp only [List.length_cons] at ha
        omega

end ShGateway.FlashWrite
