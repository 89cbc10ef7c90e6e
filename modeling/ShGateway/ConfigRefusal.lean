import ShGateway.ConfigRuns
import ShGateway.FlashSession

/-!
Calls of `config_write_storage` that are turned down before anything reaches the
flash.
-/

namespace ShGateway.ConfigRefusal

open ShGateway.ConfigFormat
open ShGateway.ConfigParser
open ShGateway.ConfigRoundTrip
open ShGateway.ConfigRuns
open ShGateway.ConfigSave
open ShGateway.ConfigSystem
open ShGateway.Crc
open ShGateway.FlashSession
open ShGateway.Lib.ByteWords
open ShGateway.Lib.NorFlash
open ShGateway.Platform

/-! ## Writers and the flash -/

/-- The flash only changes by operations. -/
def Recorded (d d' : FlashDev) : Prop :=
  ∃ ops, d'.ops = d.ops ++ ops ∧ (ops = [] → d'.mem = d.mem)

theorem recorded_refl (d : FlashDev) : Recorded d d :=
  ⟨[], (List.append_nil _).symm, fun _ => rfl⟩

theorem Recorded.trans {d₁ d₂ d₃ : FlashDev} (h : Recorded d₁ d₂) (h' : Recorded d₂ d₃) :
    Recorded d₁ d₃ := by
  obtain ⟨ops, hops, hmem⟩ := h
  obtain ⟨ops', hops', hmem'⟩ := h'
  refine ⟨ops ++ ops', by rw [hops', hops, List.append_assoc], fun hnil => ?_⟩
  obtain ⟨rfl, rfl⟩ := List.append_eq_nil_iff.mp hnil
  exact (hmem' rfl).trans (hmem rfl)

theorem Recorded.mem_eq {d d' : FlashDev} (h : Recorded d d') (hops : d'.ops = d.ops) :
    d'.mem = d.mem := by
  obtain ⟨ops, hops', hmem⟩ := h
  exact hmem (by simpa [hops] using hops')

theorem recorded_platformFlashWrite (hw : FlashHw) (d : FlashDev) (dest : Nat)
    (src : List UInt8) : Recorded d (platformFlashWrite hw d dest src).2 := by
  obtain ⟨ops, heffect⟩ := platformFlashWrite_effect hw d dest src
  refine ⟨ops, heffect.ops_eq, ?_⟩
  rintro rfl
  funext a
  exact heffect.frame a (by simp) (by simp)

/-- A writer that leaves `config_valid` alone. -/
def Steady (f : Store → ConfigSts × Store) : Prop :=
  ∀ s, Recorded s.dev (f s).2.dev ∧ (f s).2.configValid = s.configValid

/-- A writer that leaves `config_valid` alone unless it succeeds. -/
def Cautious (f : Store → ConfigSts × Store) : Prop :=
  ∀ s, Recorded s.dev (f s).2.dev ∧ ((f s).1 ≠ .ok → (f s).2.configValid = s.configValid)

section

variable (hw : FlashHw) (unit : CrcUnit) {f g : Store → ConfigSts × Store}

theorem Steady.andThen_cautious (hf : Steady f) (hg : Cautious g) :
    Cautious (andThen f g) := by
  intro s
  obtain ⟨hdev, hflag⟩ := hf s
  unfold andThen
  rcases hs : f s with ⟨sts, s₁⟩
  rw [hs] at hdev hflag
  cases sts with
  | ok =>
      obtain ⟨hdev', hflag'⟩ := hg s₁
      exact ⟨hdev.trans hdev', fun hne => (hflag' hne).trans hflag⟩
  | _ => exact ⟨hdev, fun _ => hflag⟩

theorem Steady.andThen (hf : Steady f) (hg : Steady g) : Steady (andThen f g) := by
  intro s
  obtain ⟨hdev, hflag⟩ := hf s
  unfold ConfigSystem.andThen
  rcases hs : f s with ⟨sts, s₁⟩
  rw [hs] at hdev hflag
  cases sts with
  | ok =>
      obtain ⟨hdev', hflag'⟩ := hg s₁
      exact ⟨hdev.trans hdev', hflag'.trans hflag⟩
  | _ => exact ⟨hdev, hflag⟩

theorem steady_flushLoop (bs : List UInt8) (flushAll : Bool) :
    Steady (flushLoop hw unit bs flushAll) := by
  induction bs with
  | nil => exact fun s => ⟨recorded_refl _, rfl⟩
  | cons b bs ih =>
      intro s
      simp only [flushLoop]
      split_ifs
      · have hwrite := recorded_platformFlashWrite hw s.dev (cfgOrigin + s.offsetWriteData)
          (s.flushBuffer ++ [b])
        split
        · rename_i dev hdev
          rw [hdev] at hwrite
          obtain ⟨hrest, hflag⟩ := ih { s with
            dev
            offsetWriteData := s.offsetWriteData + (s.flushBuffer ++ [b]).length
            crcDr := crc32End unit s.crcDr (s.flushBuffer ++ [b])
            flushBuffer := [] }
          exact ⟨hwrite.trans hrest, hflag⟩
        · rename_i dev _ hdev
          rw [hdev] at hwrite
          exact ⟨hwrite, rfl⟩
      · exact ih { s with flushBuffer := s.flushBuffer ++ [b] }

theorem steady_flushDataCalcCrc (bytes : List UInt8) (flushAll : Bool) :
    Steady (flushDataCalcCrc hw unit bytes flushAll) := by
  intro s
  unfold flushDataCalcCrc
  split_ifs
  · exact ⟨recorded_refl _, rfl⟩
  · exact steady_flushLoop hw unit bytes flushAll s

theorem steady_writeEntry (key : List UInt8) (size : Nat) (value : List UInt8) :
    Steady (writeEntry hw unit key size value) :=
  (steady_flushDataCalcCrc hw unit _ _).andThen
    ((steady_flushDataCalcCrc hw unit _ _).andThen (steady_flushDataCalcCrc hw unit _ _))

theorem steady_writeNative (table : List ConfigEntry) : Steady (writeNative hw unit table) := by
  induction table with
  | nil => exact fun s => ⟨recorded_refl _, rfl⟩
  | cons e table ih => exact (steady_writeEntry hw unit _ _ _).andThen ih

theorem steady_beginImage (sizeConfigData : Nat) :
    Steady (beginImage hw unit sizeConfigData) := by
  intro s
  obtain ⟨hdev, hflag⟩ := steady_flushDataCalcCrc hw unit (le32 sizeConfigData) false { s with
    dev := platformFlashEraseFlagResetSectCfg s.dev
    crcDr := crc32Start unit []
    flushBuffer := []
    offsetWriteData := 0 }
  exact ⟨hdev, hflag⟩

theorem cautious_endImage (zeros : Nat) : Cautious (endImage hw unit zeros) := by
  refine (steady_flushDataCalcCrc hw unit _ _).andThen_cautious fun s => ?_
  have hlast : Cautious (andThen
      (flushDataCalcCrc hw unit (le32 (crc32End unit s.crcDr s.flushBuffer).toNat) true)
      fun s => (.ok, { s with configValid := true })) :=
    (steady_flushDataCalcCrc hw unit _ _).andThen_cautious
      fun s => ⟨recorded_refl _, fun hne => absurd rfl hne⟩
  exact hlast { s with crcDr := crc32End unit s.crcDr s.flushBuffer }

theorem writeOld_steady (old : List OldEntry) {s : Store} {r : ConfigSts × Store}
    (h : writeOld hw unit old s = some r) :
    Recorded s.dev r.2.dev ∧ r.2.configValid = s.configValid := by
  induction old generalizing s with
  | nil =>
      obtain rfl := Option.some.inj h
      exact ⟨recorded_refl _, rfl⟩
  | cons e old ih =>
      simp only [writeOld] at h
      split_ifs at h
      · exact ih h
      · obtain ⟨hdev, hflag⟩ := steady_writeEntry hw unit e.name e.dataSz e.value s
        rcases hs : writeEntry hw unit e.name e.dataSz e.value s with ⟨sts, s₁⟩
        rw [hs] at h hdev hflag
        cases sts with
        | ok =>
            obtain ⟨hdev', hflag'⟩ := ih h
            exact ⟨hdev.trans hdev', hflag'.trans hflag⟩
        | _ =>
            obtain rfl := Option.some.inj h
            exact ⟨hdev, hflag⟩

theorem writeFresh_recorded (s : Store) :
    Recorded s.dev (writeFresh hw unit s).2.dev ∧
      ((writeFresh hw unit s).1 ≠ .ok → (writeFresh hw unit s).2.configValid = false) := by
  simp only [writeFresh]
  split
  · exact ⟨recorded_refl _, fun _ => rfl⟩
  · split_ifs
    · exact ⟨recorded_refl _, fun _ => rfl⟩
    · exact ⟨recorded_refl _, fun _ => rfl⟩
    · exact (steady_beginImage hw unit _).andThen_cautious
        ((steady_writeNative hw unit _).andThen_cautious (cautious_endImage hw unit _))
        { s with configValid := false }

theorem writePreserve_recorded {s : Store} {r : ConfigSts × Store}
    (h : writePreserve hw unit s = some r) :
    Recorded s.dev r.2.dev ∧ (r.1 ≠ .ok → r.2.configValid = false) := by
  simp only [writePreserve] at h
  split at h
  · obtain rfl := Option.some.inj h
    exact ⟨recorded_refl _, fun _ => rfl⟩
  · split at h
    · exact absurd h (by simp)
    · split_ifs at h
      · obtain rfl := Option.some.inj h
        exact ⟨recorded_refl _, fun _ => rfl⟩
      · rename_i old _ _
        generalize hzeros : countZeros (sizeOld s.table old _) = zeros at h
        generalize hsize : (_ + zeros) % 2 ^ 32 = sizeConfigData at h
        obtain ⟨hdev, hflag⟩ :=
          steady_beginImage hw unit sizeConfigData { s with configValid := false }
        rcases hbegin : beginImage hw unit sizeConfigData { s with configValid := false } with
          ⟨sts, s₁⟩
        rw [hbegin] at h hdev hflag
        cases sts with
        | ok =>
            rcases hold : writeOld hw unit old s₁ with _ | ⟨sts, s₂⟩
            · simp [hold] at h
            · obtain ⟨hdev', hflag'⟩ := writeOld_steady hw unit old hold
              simp only [hold] at h
              cases sts with
              | ok =>
                  obtain rfl := Option.some.inj h
                  obtain ⟨hdev₂, hflag₂⟩ := (steady_writeNative hw unit s₂.table).andThen_cautious
                    (cautious_endImage hw unit zeros) s₂
                  exact ⟨(hdev.trans hdev').trans hdev₂,
                    fun hne => (hflag₂ hne).trans (hflag'.trans hflag)⟩
              | _ =>
                  obtain rfl := Option.some.inj h
                  exact ⟨hdev.trans hdev', fun _ => hflag'.trans hflag⟩
        | _ =>
            obtain rfl := Option.some.inj h
            exact ⟨hdev, fun _ => hflag⟩

end

/-! ## Refused calls -/

/-- The call returns one of the statuses of its checks, and no operation has
reached the flash. -/
structure Refused (hw : FlashHw) (unit : CrcUnit) (s : Store) (sts : ConfigSts)
    (s' : Store) : Prop where
  returns : configWriteStorage hw unit s = some (sts, s')
  status : sts ∈ [ConfigSts.noData, .keyLong, .keyShort, .lengthDataZero,
    .storageOutOfBounds]
  ops : s'.dev.ops = s.dev.ops

/-- One more call, for the variables as they are by then. -/
def Call (hw : FlashHw) (unit : CrcUnit) (sts : ConfigSts) (s s' : Store) : Prop :=
  ∃ rows, List.Forall₂ Overwritten s.table rows ∧
    configWriteStorage hw unit { s with table := rows } = some (sts, s')

/-- The flash and `config_valid` are as before, and any later call that succeeds
keeps the entries of other firmwares. -/
structure Harmless (hw : FlashHw) (unit : CrcUnit) (s s' : Store) : Prop where
  flash : s'.dev.mem = s.dev.mem
  flag : s'.configValid = s.configValid
  carries : ∀ {area : List UInt8} {es : List LocatedEntry}, s.configValid = true →
    IsImage unit s.dev.mem area es → ∀ s₁ s₂,
      Relation.ReflTransGen (fun t t' => ∃ sts, Call hw unit sts t t') s' s₁ →
      Call hw unit .ok s₁ s₂ → ∃ area' es', IsImage unit s₂.dev.mem area' es' ∧
        foreign s₂.table (es'.map LocatedEntry.entry) =
          foreign s₂.table (es.map LocatedEntry.entry)

section

variable {hw : FlashHw} {unit : CrcUnit} {s s' : Store} {sts : ConfigSts}

theorem refused_cases (h : Refused hw unit s sts s') :
    s'.dev.mem = s.dev.mem ∧
      (s.table = [] ∧ s' = s ∨ s.table ≠ [] ∧ s'.configValid = false) := by
  have hne : sts ≠ .ok := by
    rintro rfl
    simpa using h.status
  have hreturns := h.returns
  rw [configWriteStorage] at hreturns
  by_cases hempty : s.table.length = 0
  · rw [if_pos hempty] at hreturns
    obtain ⟨-, rfl⟩ := Prod.mk.inj (Option.some.inj hreturns)
    exact ⟨rfl, .inl ⟨List.length_eq_zero_iff.mp hempty, rfl⟩⟩
  · have hrows : s.table ≠ [] := fun hnil => hempty (by rw [hnil, List.length_nil])
    rw [if_neg hempty] at hreturns
    by_cases hvalid : s.configValid = false
    · rw [if_pos hvalid] at hreturns
      obtain ⟨hdev, hflag⟩ := writeFresh_recorded hw unit s
      rw [Option.some.inj hreturns] at hdev hflag
      exact ⟨hdev.mem_eq h.ops, .inr ⟨hrows, hflag hne⟩⟩
    · rw [if_neg hvalid] at hreturns
      obtain ⟨hdev, hflag⟩ := writePreserve_recorded hw unit hreturns
      exact ⟨hdev.mem_eq h.ops, .inr ⟨hrows, hflag hne⟩⟩

theorem no_call_of_empty {s₁ s₂ : Store} (hempty : s.table = [])
    (hcalls : Relation.ReflTransGen (fun t t' => ∃ sts, Call hw unit sts t t') s s₁) :
    s₁.table = [] ∧ ¬ Call hw unit .ok s₁ s₂ := by
  have hcall : ∀ {t t' : Store} {sts}, t.table = [] → Call hw unit sts t t' →
      sts = .noData ∧ t'.table = [] := by
    rintro t t' sts hnil ⟨rows, hrows, hcall⟩
    rw [hnil] at hrows
    obtain rfl := List.forall₂_nil_left_iff.mp hrows
    rw [configWriteStorage, if_pos (List.length_nil)] at hcall
    obtain ⟨rfl, rfl⟩ := Prod.mk.inj (Option.some.inj hcall)
    exact ⟨rfl, rfl⟩
  have hnil : s₁.table = [] := by
    induction hcalls with
    | refl => exact hempty
    | tail _ hstep ih =>
        obtain ⟨sts, hstep⟩ := hstep
        exact (hcall ih hstep).2
  exact ⟨hnil, fun hok => absurd (hcall hnil hok).1 (by decide)⟩

/-- A refused save is harmless only where there was nothing to lose. -/
theorem refused_harmless_iff (h : Refused hw unit s sts s') :
    Harmless hw unit s s' ↔ s.table = [] ∨ s.configValid = false := by
  obtain ⟨hmem, ⟨hempty, rfl⟩ | ⟨hne, hflag⟩⟩ := refused_cases h
  · refine iff_of_true ⟨rfl, rfl, ?_⟩ (.inl hempty)
    intro area es _ _ s₁ s₂ hcalls hok
    exact absurd hok (no_call_of_empty hempty hcalls).2
  · constructor
    · intro hharmless
      exact .inr (hharmless.flag.symm.trans hflag)
    · rintro (hempty | hvalid)
      · exact absurd hempty hne
      · refine ⟨hmem, hflag.trans hvalid.symm, ?_⟩
        intro area es htrue
        exact absurd (hvalid.symm.trans htrue) Bool.false_ne_true

end

theorem keylessSize_lt : 2 < 65536 := by decide

def keylessRow : ConfigEntry where
  key := []
  size := 2
  dataAbsAddress := 0
  data := none
  key_ne_nul := by simp
  size_lt := keylessSize_lt
  data_length := by simp

theorem refused_harmless_iff_keyShort :
    Harmless .ideal .stm32 (powerUp (fun _ => 0xFF) [keylessRow])
        (powerUp (fun _ => 0xFF) [keylessRow]) ↔
      [keylessRow] = [] ∨ false = false :=
  @refused_harmless_iff .ideal .stm32 (powerUp (fun _ => 0xFF) [keylessRow])
    (powerUp (fun _ => 0xFF) [keylessRow]) .keyShort ⟨rfl, by decide, rfl⟩

theorem largeKey_ne_nul : ∀ b ∈ ([105, 112] : List UInt8), b ≠ 0 := by simp

theorem ownKey_ne_nul : ∀ b ∈ ([112] : List UInt8), b ≠ 0 := by simp

def largeRow : ConfigEntry where
  key := [105, 112]
  size := 65000
  dataAbsAddress := 0
  data := none
  key_ne_nul := largeKey_ne_nul
  size_lt := by decide
  data_length := by simp

def ownRow : ConfigEntry where
  key := [112]
  size := 1000
  dataAbsAddress := 0
  data := none
  key_ne_nul := ownKey_ne_nul
  size_lt := by decide
  data_length := by simp

theorem entriesLength_row (e : ConfigEntry) :
    entriesLength [stored e] = e.key.length + 3 + e.size := by
  rw [entriesLength_cons, stored_bytes_length]
  simp [entriesLength, entriesBytes]

theorem foreign_largeRow : foreign [ownRow] [stored largeRow] = [stored largeRow] :=
  List.filter_cons_of_pos (by decide)

/-- A save that does not fit is turned down; the next one takes the path without
an image, fits, and the entry of the other firmware is gone. -/
theorem not_harmless_outOfBounds :
    ∃ s s' s'', Refused .ideal .stm32 s .storageOutOfBounds s' ∧
      (∃ area, IsImage .stm32 s.dev.mem area (locate areaOrigin [stored largeRow])) ∧
      Call .ideal .stm32 .ok s' s'' ∧
      (∃ area, IsImage .stm32 s''.dev.mem area (locate areaOrigin [stored ownRow])) ∧
      ¬ Harmless .ideal .stm32 s s' := by
  have hlarge : Storable largeRow := ⟨by decide, by decide, by decide⟩
  have hown : Storable ownRow := ⟨by decide, by decide, by decide⟩
  have hlargeLen : entriesLength [stored largeRow] = 65005 := by
    rw [entriesLength_row]
    simp [largeRow]
  have hownLen : entriesLength [stored ownRow] = 1004 := by
    rw [entriesLength_row]
    simp [ownRow]
  -- the other firmware has saved its entry
  have htable₀ : (powerUp (fun _ => 0xFF) [largeRow]).table = [largeRow] := rfl
  obtain ⟨s₀, hok₀⟩ := @writeFresh_fits .stm32 (powerUp (fun _ => 0xFF) [largeRow])
    (by rw [htable₀]; simpa using hlarge) (by
      rw [htable₀, List.map_singleton, imageArea_length, hlargeLen]
      decide)
  obtain ⟨-, hsaved₀⟩ := writeFresh_ok hok₀
  rw [htable₀, List.map_singleton] at hsaved₀
  have himage₀ : IsImage .stm32 s₀.dev.mem (imageArea [stored largeRow])
      (locate areaOrigin [stored largeRow]) :=
    hsaved₀.isImage (by simpa using hlarge.wellFormed) (List.cons_ne_nil _ _)
  obtain ⟨s, hs⟩ : ∃ s, s = { powerUp s₀.dev.mem [ownRow] with configValid := true } :=
    ⟨_, rfl⟩
  have himage : IsImage .stm32 s.dev.mem (imageArea [stored largeRow])
      (locate areaOrigin [stored largeRow]) := by
    rw [hs]
    exact himage₀
  have htable : s.table = [ownRow] := by rw [hs]; rfl
  have hvalid : s.configValid = true := by rw [hs]
  obtain ⟨s', hs'⟩ : ∃ s', s' = { s with configValid := false } := ⟨_, rfl⟩
  have htable' : s'.table = [ownRow] := by rw [hs', ← htable]
  -- its image and the own row together are too large
  have hrefused : Refused .ideal .stm32 s .storageOutOfBounds s' := by
    rw [hs']
    refine ⟨?_, by decide, rfl⟩
    have hcheck : checkEntries [ownRow] 0 = .ok 1004 := by decide
    rw [configWriteStorage, htable, if_neg (by decide), hvalid, if_neg (by decide),
      writePreserve_eq .ideal himage, htable, hcheck]
    simp only [locate_map_entry, foreign_largeRow, writeChecked, List.map_cons, List.map_nil,
      entriesLength_append, hlargeLen, hownLen]
    rw [if_pos (by decide)]
  -- alone it fits
  obtain ⟨s'', hok⟩ := @writeFresh_fits .stm32 s' (by rw [htable']; simpa using hown) (by
    rw [htable', List.map_singleton, imageArea_length, hownLen]
    decide)
  obtain ⟨-, hsaved⟩ := writeFresh_ok hok
  rw [htable'] at hsaved
  have himage' : IsImage .stm32 s''.dev.mem (imageArea [stored ownRow])
      (locate areaOrigin [stored ownRow]) :=
    hsaved.isImage (wellFormed_stored (by simpa using hown)) (by simp)
  have hcall : Call .ideal .stm32 .ok s' s'' := by
    refine ⟨s'.table, List.forall₂_same.mpr fun e _ => ⟨.refl e, rfl⟩, ?_⟩
    rw [configWriteStorage, if_neg (by rw [htable']; decide), if_pos (by rw [hs']), hok]
  refine ⟨s, s', s'', hrefused, ⟨_, himage⟩, hcall, ⟨_, himage'⟩, ?_⟩
  intro hharmless
  have hflag := hharmless.flag
  rw [hs', hvalid] at hflag
  exact Bool.false_ne_true hflag

end ShGateway.ConfigRefusal
