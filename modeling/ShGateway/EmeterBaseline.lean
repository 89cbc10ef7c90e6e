import ShGateway.Debounce
import ShGateway.EmeterPulses
import ShGateway.Lib.ExchangeSort
import ShGateway.Lib.RingLog

/-!
The adaptive level of `emeter.c`: the median of its history of samples. With the pulses of a poll
this is the whole of `emeter_poll` but for the power.
-/

namespace ShGateway.EmeterBaseline

open ShGateway.Debounce
open ShGateway.EmeterPulses
open ShGateway.Fram
open ShGateway.Lib.ExchangeSort
open ShGateway.Lib.RingLog
open ShGateway.Lib.Runs

def qSize : Nat := 64
def noiseMargin : Int := 2048
def baselineDark : UInt16 := 2000

instance uint16LinearOrder : LinearOrder UInt16 where
  le_refl := UInt16.le_refl
  le_trans := fun _ _ _ => UInt16.le_trans
  lt_iff_le_not_ge := fun _ _ => Std.lt_iff_le_and_not_ge
  le_antisymm := fun _ _ => UInt16.le_antisymm
  le_total := UInt16.le_total
  toDecidableLE := inferInstance

/-- The variables of `emeter.c`. -/
structure Meter where
  history : Vector UInt16 qSize
  historyIndex : Fin qSize
  baselineLevel : UInt16
  pulses : Emeter
  debLightOn : Debouncer
  lightEnabled : Bool

theorem index_zero_lt : 0 < qSize := by decide

/-- `emeter_init` before the first poll. -/
def emeterInit (pulseAccOld : UInt32) (fram : Chip) : Meter where
  history := Vector.replicate qSize (4095 / 2)
  historyIndex := ⟨0, index_zero_lt⟩
  baselineLevel := 4095
  pulses := EmeterPulses.emeterInit pulseAccOld fram
  debLightOn := lightTrig.zeroed
  lightEnabled := false

/-- `adc_val.ir` is the whole number that `adc_track` took from the converter. -/
structure Sample where
  diffMs : UInt32
  ir : UInt16

theorem index_next_lt (i : Fin qSize) : (i.val + 1) % qSize < qSize :=
  Nat.mod_lt _ index_zero_lt

/-- The middle of a sorted copy of the history. -/
def middle (history : Vector UInt16 qSize) : UInt16 :=
  (exchangeSort qSize history.toList).getD (qSize / 2) 0

/-- A poll that starts in the light-off state puts its sample into the history. -/
def track (s : Meter) (ir : UInt16) : Meter :=
  let history := s.history.set s.historyIndex ir
  { s with
    history
    historyIndex := ⟨(s.historyIndex.val + 1) % qSize, index_next_lt s.historyIndex⟩
    baselineLevel := middle history }

/-- The light of a pulse is below the level; the difference is an `int`. -/
def lightOn (s : Meter) (ir : UInt16) : Bool :=
  (ir.toNat : Int) < s.baselineLevel.toNat - noiseMargin

def adapt (s : Meter) (ir : UInt16) : Meter := if s.pulses.prevOn then s else track s ir

/-- What the rest of a poll gets to see of the light. -/
def pulsePoll (s : Meter) (p : Sample) : Poll := ⟨p.diffMs, lightOn (adapt s p.ir) p.ir⟩

def lightCall (s : Meter) (p : Sample) : Call :=
  ⟨(adapt s p.ir).baselineLevel < baselineDark, p.diffMs⟩

def emeterPoll (s : Meter) (p : Sample) : Meter :=
  if p.diffMs = 0 then s
  else
    let debLightOn := debounceUpdate s.debLightOn (lightCall s p)
    { adapt s p.ir with
      pulses := EmeterPulses.emeterPoll s.pulses (pulsePoll s p)
      debLightOn
      lightEnabled := debLightOn.state = trigSet }

def run (pulseAccOld : UInt32) (fram : Chip) (polls : List Sample) : Meter :=
  polls.foldl emeterPoll (emeterInit pulseAccOld fram)

/-! ## The samples of the history -/

/-- The poll has an effect and starts in the light-off state. -/
def Taken (s : Meter) (p : Sample) : Prop := p.diffMs ≠ 0 ∧ s.pulses.prevOn = false

instance (s : Meter) (p : Sample) : Decidable (Taken s p) := inferInstanceAs (Decidable (_ ∧ _))

/-- The samples taken by the polls that follow `s`. -/
def taken (s : Meter) : List Sample → List UInt16
  | [] => []
  | p :: polls =>
      if Taken s p then p.ir :: taken (emeterPoll s p) polls else taken (emeterPoll s p) polls

/-- The last 64 of the samples, behind as many initial entries as are missing. -/
def recent (samples : List UInt16) : List UInt16 :=
  (List.replicate qSize 2047 ++ samples).drop samples.length

/-- The level after a poll `p` that follows the polls `h`. -/
structure Adapts (pulseAccOld : UInt32) (fram : Chip) (h : List Sample) (p : Sample) : Prop where
  median : p.diffMs ≠ 0 →
    (recent (taken (emeterInit pulseAccOld fram) (h ++ [p]))).mergeSort[32]? =
      some (emeterPoll (run pulseAccOld fram h) p).baselineLevel
  frozen : (run pulseAccOld fram h).pulses.prevOn = true →
    (emeterPoll (run pulseAccOld fram h) p).history = (run pulseAccOld fram h).history ∧
      (emeterPoll (run pulseAccOld fram h) p).historyIndex =
        (run pulseAccOld fram h).historyIndex ∧
      (emeterPoll (run pulseAccOld fram h) p).baselineLevel =
        (run pulseAccOld fram h).baselineLevel

section

variable {s : Meter} {samples : List UInt16} {ir : UInt16} {p : Sample}

theorem recent_snoc : recent (samples ++ [ir]) = (recent samples).tail ++ [ir] := by
  rw [recent, recent, List.tail_drop, List.length_append, List.length_singleton,
    ← List.append_assoc, List.drop_append_of_le_length]
  rw [List.length_append, List.length_replicate, qSize]
  omega

/-- Read from its index on, the history holds the samples in order. -/
def Holds (s : Meter) (samples : List UInt16) : Prop :=
  s.history.toList.rotate s.historyIndex.val = recent samples

theorem Holds.track (h : Holds s samples) : Holds (track s ir) (samples ++ [ir]) := by
  have hlength : s.history.toList.length = qSize := Vector.length_toList
  have hset : (s.history.set s.historyIndex ir).toList =
      s.history.toList.set s.historyIndex.val ir := Vector.toList_set ..
  have hmod := List.rotate_mod (s.history.toList.set s.historyIndex.val ir)
    (s.historyIndex.val + 1)
  rw [List.length_set, hlength] at hmod
  change (s.history.set s.historyIndex ir).toList.rotate ((s.historyIndex.val + 1) % qSize) = _
  rw [hset, hmod, rotate_set (hlength.symm ▸ s.historyIndex.isLt), h, recent_snoc]

theorem track_level (s : Meter) (ir : UInt16) :
    (track s ir).baselineLevel = middle (track s ir).history := by
  simp only [track]

theorem middle_eq {history : Vector UInt16 qSize} {xs : List UInt16}
    (h : history.toList.Perm xs) : xs.mergeSort[32]? = some (middle history) := by
  have hlength : history.toList.length = qSize := Vector.length_toList
  have hsort := exchangeSort_eq_mergeSort h
  have hlt : 32 < xs.mergeSort.length := by
    rw [List.length_mergeSort, ← h.length_eq, hlength, qSize]
    omega
  have hmiddle : qSize / 2 = 32 := rfl
  rw [hlength] at hsort
  rw [middle, hsort, hmiddle, List.getElem?_eq_getElem hlt, List.getD_eq_getElem _ _ hlt]

theorem Holds.median (h : Holds s samples) :
    (recent (samples ++ [ir])).mergeSort[32]? =
      some (EmeterBaseline.track s ir).baselineLevel := by
  rw [track_level]
  refine middle_eq ?_
  rw [← h.track]
  exact (List.rotate_perm _ _).symm

theorem taken_snoc {polls : List Sample} :
    taken s (polls ++ [p]) = taken s polls ++
      if Taken (polls.foldl emeterPoll s) p then [p.ir] else [] := by
  induction polls generalizing s with
  | nil => rfl
  | cons q polls ih =>
      rw [List.cons_append, taken, taken, List.foldl_cons, ih]
      rcases Classical.em (Taken s q) with hq | hq
      · rw [if_pos hq, if_pos hq]
        rfl
      · rw [if_neg hq, if_neg hq]

end

/-! ## Runs -/

section

variable {pulseAccOld : UInt32} {fram : Chip} {s : Meter} {samples : List UInt16} {p : Sample}
  {h : List Sample}

/-- The history and the level between two polls. The level counts from the first sample on. -/
structure Inv (s : Meter) (samples : List UInt16) : Prop where
  holds : Holds s samples
  median : s.pulses.prevOn = true → (recent samples).mergeSort[32]? = some s.baselineLevel

theorem inv_init : Inv (emeterInit pulseAccOld fram) [] where
  holds := by
    change (Vector.replicate qSize _).toList.rotate 0 = recent []
    have hlevel : (4095 / 2 : UInt16) = 2047 := by decide
    rw [List.rotate_zero, Vector.toList_replicate, recent, List.length_nil, List.drop_zero,
      List.append_nil, hlevel]
  median := nofun

theorem Inv.poll (hs : Inv s samples) (hp : p.diffMs ≠ 0) :
    Holds (emeterPoll s p) (samples ++ if Taken s p then [p.ir] else []) ∧
      (recent (samples ++ if Taken s p then [p.ir] else [])).mergeSort[32]? =
        some (emeterPoll s p).baselineLevel := by
  rw [emeterPoll, if_neg hp, adapt]
  rcases Bool.eq_false_or_eq_true s.pulses.prevOn with hon | hoff
  · have hnot : ¬ Taken s p := fun htaken => absurd (hon.symm.trans htaken.2) nofun
    rw [if_neg hnot, List.append_nil, if_pos hon]
    exact ⟨hs.holds, hs.median hon⟩
  · rw [if_pos (show Taken s p from ⟨hp, hoff⟩), if_neg (by simp [hoff])]
    have hholds := @Holds.track s samples p.ir hs.holds
    have hmedian := @Holds.median s samples p.ir hs.holds
    generalize track s p.ir = s' at hholds hmedian ⊢
    exact ⟨hholds, hmedian⟩

theorem Inv.step (hs : Inv s samples) :
    Inv (emeterPoll s p) (samples ++ if Taken s p then [p.ir] else []) := by
  rcases eq_or_ne p.diffMs 0 with hp | hp
  · rw [emeterPoll, if_pos hp, if_neg fun htaken => htaken.1 hp, List.append_nil]
    exact hs
  · obtain ⟨hholds, hmedian⟩ := hs.poll hp
    exact ⟨hholds, fun _ => hmedian⟩

theorem run_inv (h : List Sample) :
    Inv (run pulseAccOld fram h) (taken (emeterInit pulseAccOld fram) h) := by
  induction h using List.reverseRecOn with
  | nil => exact inv_init
  | append_singleton h p ih =>
      rw [taken_snoc, run, List.foldl_append]
      exact ih.step

theorem emeterPoll_frozen (hon : s.pulses.prevOn = true) :
    (emeterPoll s p).history = s.history ∧ (emeterPoll s p).historyIndex = s.historyIndex ∧
      (emeterPoll s p).baselineLevel = s.baselineLevel := by
  rw [emeterPoll, adapt, if_pos hon]
  split_ifs
  · exact ⟨rfl, rfl, rfl⟩
  · exact ⟨rfl, rfl, rfl⟩

end

/-- In every run the level is the median of the history, and the sort orders every content. -/
theorem baseline_adapts (pulseAccOld : UInt32) (fram : Chip) (polls : List Sample) :
    AtEach (Adapts pulseAccOld fram) polls ∧
      ∀ history : Vector UInt16 qSize, (exchangeSort qSize history.toList).Perm history.toList ∧
        (exchangeSort qSize history.toList).Pairwise (· ≤ ·) := by
  refine ⟨fun h p _ => ⟨fun hp => ?_, emeterPoll_frozen⟩, fun history => ?_⟩
  · rw [taken_snoc]
    exact ((run_inv h).poll hp).2
  · have hlength : history.toList.length = qSize := Vector.length_toList
    have hperm := exchangeSort_perm history.toList
    have hsorted := exchangeSort_sorted history.toList
    rw [hlength] at hperm hsorted
    exact ⟨hperm, hsorted⟩

end ShGateway.EmeterBaseline
