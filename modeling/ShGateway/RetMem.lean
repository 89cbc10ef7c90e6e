import ShGateway.Lib.Runs
import ShGateway.Preldr

/-!
The backup registers that keep values from one boot to the next.
-/

namespace ShGateway.RetMem

open ShGateway.Lib.Runs
open ShGateway.Preldr

def loadSrcApp : UInt32 := 0xAA

/-- Registers and calendar of the RTC, which run on through a reset. The calendar is
in seconds since 1970, and `inits` counts how often `rtc_init` has set it. -/
structure Backup where
  bkp : Nat → UInt32
  calendar : Nat
  inits : Nat

def Backup.write (d : Backup) (n : Nat) (v : UInt32) : Backup :=
  { d with bkp := Function.update d.bkp n v }

def retMemGetLoadSrc (d : Backup) : UInt32 := d.bkp 0

def retMemSetLoadSrc (d : Backup) (src : UInt32) : Backup := d.write 0 src

def retMemSetRstCauseLdr (d : Backup) (src : UInt32) : Backup := d.write 2 src

def retMemSetRstCauseApp (d : Backup) (src : UInt32) : Backup := d.write 3 src

def retMemGetRstCauseLdr (d : Backup) : UInt32 := d.bkp 2

def retMemGetRstCauseApp (d : Backup) : UInt32 := d.bkp 3

/-- `BKUP_REG` of `rtc.c`. -/
def bkupReg : Nat := 2

def rtcInitialised : UInt32 := 0x55aa

/-- The flags `platform_handle_reset_cause` finds in the reset status. -/
structure ResetFlags where
  lp : Bool := false
  wwdg : Bool := false
  iwdg : Bool := false
  por : Bool := false
  pin : Bool := false
  sft : Bool := false
  bor : Bool := false

def platformHandleResetCause (f : ResetFlags) : UInt32 :=
  let bit (set : Bool) (n : UInt32) : UInt32 := if set then 1 <<< n else 0
  bit f.lp 0 ||| bit f.wwdg 1 ||| bit f.iwdg 2 ||| bit f.por 3 ||| bit f.pin 4 |||
    bit f.sft 5 ||| bit f.bor 6

/-! ## Boots -/

inductive Program
  | ldr
  | app
deriving DecidableEq, Repr

def Program.start : Program → Nat
  | .ldr => Platform.ldrStart
  | .app => Platform.appStart

/-- Where the pre-loader jumps to, given which images are not locked. -/
def bootTarget (loadSrc : UInt32) (ldrOk appOk : Bool) : Option Program :=
  if loadSrc = loadSrcBootloader ∧ appOk then some .app
  else if ldrOk then some .ldr
  else if appOk then some .app
  else none

theorem preldrMain_eq_bootTarget (unit : Crc.CrcUnit) (lits : FwHeader.NameLiterals)
    (m : Lib.NorFlash.Mem) (loadSrc : UInt32) :
    (preldrMain unit lits m loadSrc).1 =
      (bootTarget loadSrc ((FwHeader.fwHeaderCheckAll unit lits m {}).ldr.locked = .none)
        ((FwHeader.fwHeaderCheckAll unit lits m {}).app.locked = .none)).map Program.start := by
  simp only [preldrMain, bootTarget, decide_eq_true_eq]
  split_ifs <;> rfl

/-- What is retained. -/
inductive Item
  | loadSrc
  | rstCauseLdr
  | rstCauseApp
  | rtcMarker
deriving DecidableEq, Repr

def Item.get (d : Backup) : Item → UInt32
  | .loadSrc => retMemGetLoadSrc d
  | .rstCauseLdr => retMemGetRstCauseLdr d
  | .rstCauseApp => retMemGetRstCauseApp d
  | .rtcMarker => d.bkp bkupReg

def Item.set (d : Backup) (v : UInt32) : Item → Backup
  | .loadSrc => retMemSetLoadSrc d v
  | .rstCauseLdr => retMemSetRstCauseLdr d v
  | .rstCauseApp => retMemSetRstCauseApp d v
  | .rtcMarker => d.write bkupReg v

/-- The backup domain, and what the setter of each item wrote last. -/
structure System where
  dev : Backup
  written : Item → Option UInt32

def System.put (s : System) (i : Item) (v : UInt32) : System :=
  { dev := i.set s.dev v, written := Function.update s.written i (some v) }

/-- `rtc_init`; `lse` tells whether the oscillator starts. -/
def rtcInit (s : System) (lse : Bool) : Nat × System :=
  if s.dev.bkp bkupReg ≠ rtcInitialised then
    if lse = false then (1, s)
    else
      let dev := { s.dev with calendar := 0, inits := s.dev.inits + 1 }
      (0, { s with dev := dev }.put .rtcMarker rtcInitialised)
  else (0, s)

/-- What `main` of the loader keeps. -/
def ldrMain (s : System) (flags : ResetFlags) : System :=
  (s.put .rstCauseLdr (platformHandleResetCause flags)).put .loadSrc loadSrcBootloader

/-- What `main` of the application keeps. -/
def appMain (s : System) (flags : ResetFlags) (lse : Bool) : System :=
  ((rtcInit s lse).2.put .loadSrc loadSrcApp).put .rstCauseApp (platformHandleResetCause flags)

/-- A reset, after which the pre-loader starts a program, or what happens in between:
time passes, or the console sets the clock. -/
inductive Event
  | boot (flags : ResetFlags) (ldrOk appOk lse : Bool)
  | elapse (seconds : Nat)
  | setClock (calendar : Nat)

def System.step (s : System) : Event → Option System
  | .boot flags ldrOk appOk lse =>
      let started := s.put .loadSrc loadSrcNone
      match bootTarget (retMemGetLoadSrc s.dev) ldrOk appOk with
      | some .ldr => some (ldrMain started flags)
      | some .app => some (appMain started flags lse)
      | none => some started
  | .elapse seconds =>
      some { s with dev := { s.dev with calendar := s.dev.calendar + seconds } }
  | .setClock calendar => some { s with dev := { s.dev with calendar := calendar } }

/-- Each item reads as its setter wrote it last, and the clock has been initialised
at most once. -/
structure Retained (s : System) : Prop where
  reads : ∀ i v, s.written i = some v → i.get s.dev = v
  once : s.dev.inits ≤ 1

/-- The loader does not start after `rtc_init` has left its mark, and no application
initialises the clock after a loader has started. -/
def Apart (s : System) : Event → Prop
  | .boot _ ldrOk appOk lse =>
      match bootTarget (retMemGetLoadSrc s.dev) ldrOk appOk with
      | some .ldr => s.written .rtcMarker = none
      | some .app => lse = true → s.written .rstCauseLdr = none
      | none => True
  | _ => True

/-! ## One step -/

/-- The backup register of an item. -/
def Item.reg : Item → Nat
  | .loadSrc => 0
  | .rstCauseLdr => 2
  | .rstCauseApp => 3
  | .rtcMarker => 2

theorem Item.get_eq (i : Item) (d : Backup) : i.get d = d.bkp i.reg := by
  cases i <;> rfl

theorem Item.set_eq (i : Item) (d : Backup) (v : UInt32) : i.set d v = d.write i.reg v := by
  cases i <;> rfl

theorem platformHandleResetCause_ne (flags : ResetFlags) :
    platformHandleResetCause flags ≠ rtcInitialised := by
  obtain ⟨lp, wwdg, iwdg, por, pin, sft, bor⟩ := flags
  revert lp wwdg iwdg por pin sft bor
  decide

/-- The marker and the cause of the loader are only ever written with values of
their own. -/
structure Sound (s : System) : Prop extends Retained s where
  cause_ne : ∀ v, s.written .rstCauseLdr = some v → v ≠ rtcInitialised
  marker_eq : ∀ v, s.written .rtcMarker = some v → v = rtcInitialised
  uninitialised : s.written .rtcMarker = none → s.dev.inits = 0

section

variable {s s' : System}

@[simp] theorem written_put_self (i : Item) (v : UInt32) : (s.put i v).written i = some v :=
  Function.update_self ..

theorem written_put_of_ne {i j : Item} (h : j ≠ i) (v : UInt32) :
    (s.put i v).written j = s.written j :=
  Function.update_of_ne h ..

@[simp] theorem inits_put (i : Item) (v : UInt32) : (s.put i v).dev.inits = s.dev.inits := by
  rw [System.put, Item.set_eq]
  rfl

theorem bkp_put (i : Item) (v : UInt32) :
    (s.put i v).dev.bkp = Function.update s.dev.bkp i.reg v := by
  rw [System.put, Item.set_eq]
  rfl

theorem get_put_self (i : Item) (v : UInt32) : i.get (s.put i v).dev = v := by
  rw [Item.get_eq, bkp_put, Function.update_self]

theorem get_put_of_ne {i j : Item} (h : j.reg ≠ i.reg) (v : UInt32) :
    j.get (s.put i v).dev = j.get s.dev := by
  rw [Item.get_eq, Item.get_eq, bkp_put, Function.update_of_ne h]

theorem Retained.put (h : Retained s) (i : Item) (v : UInt32)
    (hother : ∀ j, j ≠ i → j.reg = i.reg → s.written j = none) : Retained (s.put i v) where
  reads := by
    intro j w hw
    rcases eq_or_ne j i with rfl | hne
    · rw [written_put_self] at hw
      rw [get_put_self, Option.some.inj hw]
    · rw [written_put_of_ne hne] at hw
      rcases eq_or_ne j.reg i.reg with hreg | hreg
      · exact absurd (hw.symm.trans (hother j hne hreg)) (Option.some_ne_none w)
      · rw [get_put_of_ne hreg]
        exact h.reads j w hw
  once := by
    rw [inits_put]
    exact h.once

theorem Sound.put (h : Sound s) {i : Item} (hi : i = .loadSrc ∨ i = .rstCauseApp) (v : UInt32) :
    Sound (s.put i v) := by
  have hreg : ∀ j, j ≠ i → j.reg ≠ i.reg := by
    rcases hi with rfl | rfl <;> intro j hj <;> cases j <;> simp_all [Item.reg]
  have hne : Item.rstCauseLdr ≠ i ∧ Item.rtcMarker ≠ i := by
    rcases hi with rfl | rfl <;> simp
  refine ⟨h.toRetained.put i v fun j hj hsame => absurd hsame (hreg j hj), ?_, ?_, ?_⟩
  · rw [written_put_of_ne hne.1]
    exact h.cause_ne
  · rw [written_put_of_ne hne.2]
    exact h.marker_eq
  · rw [written_put_of_ne hne.2, inits_put]
    exact h.uninitialised

theorem Sound.ldrMain (h : Sound s) (hmarker : s.written .rtcMarker = none) (flags : ResetFlags) :
    Sound (ldrMain s flags) := by
  refine Sound.put ⟨h.toRetained.put _ _ ?_, ?_, ?_, ?_⟩ (.inl rfl) _
  · intro j hj hreg
    cases j with
    | rtcMarker => exact hmarker
    | rstCauseLdr => exact absurd rfl hj
    | loadSrc => exact absurd hreg (by decide)
    | rstCauseApp => exact absurd hreg (by decide)
  · intro v hv
    rw [written_put_self] at hv
    rw [← Option.some.inj hv]
    exact platformHandleResetCause_ne flags
  · rw [written_put_of_ne (by decide)]
    exact h.marker_eq
  · rw [written_put_of_ne (by decide), inits_put]
    exact h.uninitialised

theorem Sound.rtcInit (h : Sound s) {lse : Bool}
    (hcause : lse = true → s.written .rstCauseLdr = none) : Sound (rtcInit s lse).2 := by
  rw [RetMem.rtcInit]
  split_ifs with hblank hlse
  · exact h
  · -- the mark is not there, so it has never been written
    have hmarker : s.written .rtcMarker = none := by
      by_contra hne
      obtain ⟨v, hv⟩ := Option.ne_none_iff_exists'.mp hne
      have hreads := h.reads .rtcMarker v hv
      exact hblank (hreads.trans (h.marker_eq v hv))
    have hcause := hcause (by simpa using hlse)
    have hcleared : Retained { s with
        dev := { s.dev with calendar := 0, inits := s.dev.inits + 1 } } := by
      refine ⟨fun i v hv => ?_, ?_⟩
      · rw [Item.get_eq, ← h.reads i v hv, Item.get_eq]
      · rw [h.uninitialised hmarker]
    refine ⟨hcleared.put .rtcMarker rtcInitialised ?_, ?_, ?_, ?_⟩
    · intro j hj hreg
      cases j with
      | rstCauseLdr => exact hcause
      | rtcMarker => exact absurd rfl hj
      | loadSrc => exact absurd hreg (by decide)
      | rstCauseApp => exact absurd hreg (by decide)
    · intro v hv
      rw [written_put_of_ne (by decide)] at hv
      exact absurd (hcause.symm.trans hv) (Option.some_ne_none v).symm
    · intro v hv
      rw [written_put_self] at hv
      exact (Option.some.inj hv).symm
    · intro hnone
      rw [written_put_self] at hnone
      exact absurd hnone (Option.some_ne_none _)
  · exact h

theorem Sound.step (h : Sound s) {ev : Event} (hq : Apart s ev) (hstep : s.step ev = some s') :
    Sound s' := by
  cases ev with
  | boot flags ldrOk appOk lse =>
      have hstarted : Sound (s.put .loadSrc loadSrcNone) := h.put (.inl rfl) _
      rw [System.step] at hstep
      rw [Apart] at hq
      rcases htarget : bootTarget (retMemGetLoadSrc s.dev) ldrOk appOk with _ | _ | _
      · rw [htarget] at hstep
        obtain rfl := Option.some.inj hstep
        exact hstarted
      · rw [htarget] at hstep hq
        obtain rfl := Option.some.inj hstep
        exact hstarted.ldrMain hq flags
      · rw [htarget] at hstep hq
        obtain rfl := Option.some.inj hstep
        exact ((hstarted.rtcInit hq).put (.inl rfl) _).put (.inr rfl) _
  | elapse seconds =>
      obtain rfl := Option.some.inj hstep
      exact ⟨⟨fun i v hv => by rw [← h.reads i v hv, Item.get_eq, Item.get_eq], h.once⟩,
        h.cause_ne, h.marker_eq, h.uninitialised⟩
  | setClock calendar =>
      obtain rfl := Option.some.inj hstep
      exact ⟨⟨fun i v hv => by rw [← h.reads i v hv, Item.get_eq, Item.get_eq], h.once⟩,
        h.cause_ne, h.marker_eq, h.uninitialised⟩

theorem not_retained_of_shared {v w : UInt32} (hldr : s.written .rstCauseLdr = some v)
    (hmarker : s.written .rtcMarker = some w) (hne : v ≠ w) : ¬ Retained s := by
  intro h
  exact hne ((h.reads .rstCauseLdr v hldr).symm.trans (h.reads .rtcMarker w hmarker))

theorem written_ldrMain (flags : ResetFlags) :
    (RetMem.ldrMain s flags).written .rstCauseLdr = some (platformHandleResetCause flags) ∧
      (RetMem.ldrMain s flags).written .rtcMarker = s.written .rtcMarker := by
  rw [RetMem.ldrMain]
  constructor
  · rw [written_put_of_ne (by decide), written_put_self]
  · rw [written_put_of_ne (by decide), written_put_of_ne (by decide)]

theorem written_appMain (flags : ResetFlags) (hblank : s.dev.bkp bkupReg ≠ rtcInitialised) :
    (appMain s flags true).written .rtcMarker = some rtcInitialised ∧
      (appMain s flags true).written .rstCauseLdr = s.written .rstCauseLdr := by
  rw [appMain, RetMem.rtcInit, if_pos hblank, if_neg (by decide)]
  constructor
  · rw [written_put_of_ne (by decide), written_put_of_ne (by decide), written_put_self]
  · rw [written_put_of_ne (by decide), written_put_of_ne (by decide),
      written_put_of_ne (by decide)]

theorem not_retained_of_not_apart (h : Sound s) {ev : Event} (hq : ¬ Apart s ev)
    (hstep : s.step ev = some s') : ¬ Retained s' := by
  cases ev with
  | boot flags ldrOk appOk lse =>
      rw [System.step] at hstep
      rw [Apart] at hq
      rcases htarget : bootTarget (retMemGetLoadSrc s.dev) ldrOk appOk with _ | _ | _
      · rw [htarget] at hq
        exact absurd trivial hq
      · rw [htarget] at hstep hq
        obtain rfl := Option.some.inj hstep
        obtain ⟨v, hv⟩ := Option.ne_none_iff_exists'.mp hq
        obtain ⟨hcause, hmarker⟩ := written_ldrMain (s := s.put .loadSrc loadSrcNone) flags
        rw [written_put_of_ne (by decide), hv] at hmarker
        refine not_retained_of_shared hcause hmarker ?_
        rw [h.marker_eq v hv]
        exact platformHandleResetCause_ne flags
      · rw [htarget] at hstep hq
        obtain rfl := Option.some.inj hstep
        rw [Classical.not_imp] at hq
        obtain ⟨rfl, hne⟩ := hq
        obtain ⟨v, hv⟩ := Option.ne_none_iff_exists'.mp hne
        have hblank : (s.put .loadSrc loadSrcNone).dev.bkp bkupReg ≠ rtcInitialised := by
          rw [bkp_put, Function.update_of_ne (by decide)]
          have hreads := h.reads .rstCauseLdr v hv
          exact fun heq => h.cause_ne v hv (hreads.symm.trans heq)
        obtain ⟨hmarker, hcause⟩ := written_appMain flags hblank
        rw [written_put_of_ne (by decide), hv] at hcause
        exact not_retained_of_shared hcause hmarker (h.cause_ne v hv)
  | elapse seconds => exact absurd trivial hq
  | setClock calendar => exact absurd trivial hq

end

/-! ## Runs -/

/-- Whatever the registers hold, nothing has been written yet. -/
def System.init (bkp : Nat → UInt32) (calendar : Nat) : System where
  dev := ⟨bkp, calendar, 0⟩
  written := fun _ => none

theorem sound_init (bkp : Nat → UInt32) (calendar : Nat) : Sound (System.init bkp calendar) where
  reads := nofun
  once := Nat.zero_le 1
  cause_ne := nofun
  marker_eq := nofun
  uninitialised := fun _ => rfl

/-- All items are retained all through a run exactly if it has no loader boot together
with an initialised clock. -/
theorem run_retained_iff (bkp : Nat → UInt32) (calendar : Nat) {evs : List Event} {s : System}
    (h : evs.foldlM System.step (System.init bkp calendar) = some s) :
    Throughout System.step (System.init bkp calendar) Retained evs ↔
      AtSteps System.step (System.init bkp calendar) Apart evs := by
  exact @throughout_iff_atSteps _ _ System.step _ s evs Sound Retained Apart
    (sound_init bkp calendar) (fun s hs => hs.toRetained)
    (fun s ev s' hs hq hstep => hs.step hq hstep)
    (fun s ev s' hs hq hstep => not_retained_of_not_apart hs hq hstep) h

/-- The loader after power is switched on, and the application after its reset. -/
def powerOn : List Event :=
  [.boot { por := true } true true true, .boot { sft := true } true true true]

theorem run_retained_iff_powerOn :
    ∃ s, powerOn.foldlM System.step (System.init (fun _ => 0) 0) = some s ∧
      (Throughout System.step (System.init (fun _ => 0) 0) Retained powerOn ↔
        AtSteps System.step (System.init (fun _ => 0) 0) Apart powerOn) := by
  have hrun : (powerOn.foldlM System.step (System.init (fun _ => 0) 0)).isSome := by decide
  obtain ⟨s, hs⟩ := Option.isSome_iff_exists.mp hrun
  exact ⟨s, hs, run_retained_iff _ _ hs⟩

/-- `rtc_init` writes its mark over the reset cause of the loader. -/
theorem not_retained_powerOn :
    ∃ s, powerOn.foldlM System.step (System.init (fun _ => 0) 0) = some s ∧ ¬ Retained s := by
  have hrun : (powerOn.foldlM System.step (System.init (fun _ => 0) 0)).map
      (fun s => (s.written .rstCauseLdr, s.written .rtcMarker)) =
        some (some 8, some rtcInitialised) := by decide
  obtain ⟨s, hs, hwritten⟩ := Option.map_eq_some_iff.mp hrun
  simp only [Prod.mk.injEq] at hwritten
  exact ⟨s, hs, not_retained_of_shared hwritten.1 hwritten.2 (by decide)⟩

end ShGateway.RetMem
