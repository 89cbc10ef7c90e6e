import ShGateway.AppFiles
import ShGateway.Lib.CountedLoop
import ShGateway.NodeWrite

/-!
The console command that dumps an object of a node: `sdo_rd_cb` of `console_can.h`. What it
prints is left out.
-/

namespace ShGateway.SdoDump

open ShGateway.AppFiles
open ShGateway.Lib.CountedLoop
open ShGateway.NodeWrite
open ShGateway.SdoFlasher

/-! ## The argument line -/

/-- The value of a digit, 16 for what is none. -/
def digitValue (b : UInt8) : Nat :=
  if 48 ≤ b ∧ b ≤ 57 then b.toNat - 48
  else if 97 ≤ b ∧ b ≤ 102 then b.toNat - 87
  else if 65 ≤ b ∧ b ≤ 70 then b.toNat - 55
  else 16

def isDigit (base : Nat) (b : UInt8) : Bool := digitValue b < base

/-- A hexadecimal number without its `0x`. -/
def skipPrefix (base : Nat) (s : List UInt8) : List UInt8 :=
  match s with
  | 48 :: x :: d :: rest =>
      if base = 16 ∧ (x = 120 ∨ x = 88) ∧ isDigit 16 d = true then d :: rest else s
  | s => s

/-- The digits at the head of a string as a number, with what follows them. -/
def scanMagnitude (base : Nat) (s : List UInt8) : Option (Nat × List UInt8) :=
  let s := skipPrefix base s
  match s.takeWhile (isDigit base) with
  | [] => none
  | ds => some (ds.foldl (fun n b => base * n + digitValue b) 0, s.dropWhile (isDigit base))

/-- What `sscanf` stores for `%u` or `%x`, with what it leaves. -/
def scanNumber (base : Nat) (s : List UInt8) : Option (Nat × List UInt8) :=
  let fit n := min n (2 ^ 32 - 1)
  match s.dropWhile isSpace with
  | 45 :: s => (scanMagnitude base s).map fun (n, s) =>
      (if n ≤ 2 ^ 32 - 1 then (2 ^ 32 - n) % 2 ^ 32 else 2 ^ 32 - 1, s)
  | 43 :: s => (scanMagnitude base s).map fun (n, s) => (fit n, s)
  | s => (scanMagnitude base s).map fun (n, s) => (fit n, s)

/-- `id`, `idx` and `subidx` of a line with at least the first two. -/
def scanArgs (arg : List UInt8) : Option (Nat × Nat × Option Nat) :=
  match scanNumber 10 arg with
  | none => none
  | some (id, s) =>
      match scanNumber 16 s with
      | none => none
      | some (idx, s) => some (id, idx, (scanNumber 10 s).map Prod.fst)

/-! ## The command -/

section

variable {β : Type*} (bus : SdoBus β)

/-- The loop over `current_sub`. -/
def dump (fuel : Nat) (id : UInt8) (idx : Nat) (startSub endSub : UInt8) (b : β) : Option β :=
  loop (· + 1) endSub
    (fun currentSub b => (bus.readSdo id idx currentSub.toNat 256 3000 b).2.2) fuel startSub b

def sdoRdCb (fuel : Nat) (arg : List UInt8) (b : β) : Option β :=
  match scanArgs arg with
  | none => some b
  | some (id, idx, subidx) =>
      -- The parameters of `read_SDO` have 8 and 16 bits.
      let id := UInt8.ofNat id
      let idx := idx % 2 ^ 16
      match subidx with
      | none =>
          match bus.readSdo id idx 0 256 3000 b with
          | (0, count :: _, b) => dump bus fuel id idx 1 count b
          | (_, _, b) => some b
      | some subidx => dump bus fuel id idx (UInt8.ofNat subidx) (UInt8.ofNat subidx) b

end

/-! ## What is read -/

/-- A sub-index read into `data`. -/
def reading (id : UInt8) (idx sub code : Nat) (bytes : List UInt8) : Transfer :=
  .read id idx sub 256 3000 code bytes

/-- The sub-indices `subs` are read one after another. -/
def Reads (id : UInt8) (idx : Nat) (subs : List Nat) (done : List Transfer) : Prop :=
  List.Forall₂ (fun sub t => ∃ code bytes, t = reading id idx sub code bytes) subs done

/-- The sub-indices from `startSub` to `endSub`. -/
def subs (startSub endSub : UInt8) : List Nat :=
  List.range' startSub.toNat (endSub.toNat + 1 - startSub.toNat)

/-- The sub-indices that the node reports, none when its count cannot be read. -/
def reported : Nat → List UInt8 → List Nat
  | 0, count :: _ => subs 1 count
  | _, _ => []

section

variable {β : Type*} (bus : SdoBus β) (arg : List UInt8) (b : β)

/-- A call returns, and it has read the sub-indices of its line, or the count and then the
reported sub-indices. -/
def Dumps : Prop :=
  ∀ id idx subidx, scanArgs arg = some (id, idx, subidx) →
    ∃ fuel b' counted dumped,
      sdoRdCb (recorded bus) fuel arg (b, []) = some (b', counted ++ dumped) ∧
        match subidx with
        | some sub => counted = [] ∧
            Reads (UInt8.ofNat id) (idx % 2 ^ 16) (subs (UInt8.ofNat sub) (UInt8.ofNat sub)) dumped
        | none => ∃ code bytes, counted = [reading (UInt8.ofNat id) (idx % 2 ^ 16) 0 code bytes] ∧
            Reads (UInt8.ofNat id) (idx % 2 ^ 16) (reported code bytes) dumped

/-- Neither the sub-index of the line nor the count that the node reports is 255. -/
def Below255 : Prop :=
  ∀ id idx subidx, scanArgs arg = some (id, idx, subidx) →
    match subidx with
    | some sub => sub % 256 ≠ 255
    | none => ∀ bytes b',
        bus.readSdo (UInt8.ofNat id) (idx % 2 ^ 16) 0 256 3000 b = (0, bytes, b') →
          bytes.head? ≠ some 255

end

section

variable {β : Type*} {bus : SdoBus β} {id startSub endSub : UInt8} {idx : Nat} {b b₁ : β}
  {done : List Transfer}

theorem recorded_readSdo {sub code : Nat} {bytes : List UInt8}
    (hread : bus.readSdo id idx sub 256 3000 b = (code, bytes, b₁)) :
    (recorded bus).readSdo id idx sub 256 3000 (b, done) =
      (code, bytes, b₁, done ++ [reading id idx sub code bytes]) := by
  simp only [recorded, hread]
  rfl

theorem foldl_recorded (l : List UInt8) :
    ∃ b' dumped, l.foldl (fun s sub =>
        ((recorded bus).readSdo id idx sub.toNat 256 3000 s).2.2) (b, done) =
          (b', done ++ dumped) ∧ Reads id idx (l.map UInt8.toNat) dumped := by
  induction l generalizing b done with
  | nil => exact ⟨b, [], by rw [List.append_nil]; rfl, .nil⟩
  | cons sub l ih =>
      rcases hread : bus.readSdo id idx sub.toNat 256 3000 b with ⟨code, bytes, b₁⟩
      obtain ⟨b', dumped, hfold, hreads⟩ :=
        @ih b₁ (done ++ [reading id idx sub.toNat code bytes])
      refine ⟨b', reading id idx sub.toNat code bytes :: dumped, ?_, ?_⟩
      · rw [List.foldl_cons, recorded_readSdo hread, hfold, List.append_assoc]
        rfl
      · exact .cons ⟨code, bytes, rfl⟩ hreads

theorem dump_spec (hend : endSub.toNat ≠ 255) :
    ∃ b' dumped,
      dump (recorded bus) 257 id idx startSub endSub (b, done) = some (b', done ++ dumped) ∧
        Reads id idx (subs startSub endSub) dumped := by
  have hendLt := endSub.toNat_lt
  have hstartLt := startSub.toNat_lt
  obtain ⟨b', dumped, hfold, hreads⟩ := @foldl_recorded β bus id idx b done
    (List.iterate (· + 1) startSub (endSub.toNat + 1 - startSub.toNat))
  rw [map_toNat_iterate (by omega)] at hreads
  refine ⟨b', dumped, ?_, hreads⟩
  rw [dump, loop_of_passed (n := endSub.toNat + 1 - startSub.toNat), hfold]
  · intro j hj
    have hmem := List.mem_map_of_mem (f := UInt8.toNat) hj
    rw [map_toNat_iterate (by omega), List.mem_range'_1] at hmem
    exact UInt8.le_iff_toNat_le.mpr (by omega)
  · rw [UInt8.le_iff_toNat_le, iterate_toNat (by omega)]
    omega
  · omega

/-- The loop does not end with the bound 255. -/
theorem dump_255 (fuel : Nat) (hend : endSub.toNat = 255) :
    dump bus fuel id idx startSub endSub b = none :=
  loop_of_forall_le fun j => UInt8.le_iff_toNat_le.mpr (by have := j.toNat_lt; omega)

theorem sdoRdCb_sub {arg : List UInt8} {id sub : Nat} (fuel : Nat)
    (harg : scanArgs arg = some (id, idx, some sub)) :
    sdoRdCb bus fuel arg b =
      dump bus fuel (UInt8.ofNat id) (idx % 2 ^ 16) (UInt8.ofNat sub) (UInt8.ofNat sub) b := by
  rw [sdoRdCb, harg]

theorem sdoRdCb_count {arg bytes : List UInt8} {id : Nat} {count : UInt8} (fuel : Nat)
    (harg : scanArgs arg = some (id, idx, none))
    (hread : bus.readSdo (UInt8.ofNat id) (idx % 2 ^ 16) 0 256 3000 b = (0, count :: bytes, b₁)) :
    sdoRdCb bus fuel arg b = dump bus fuel (UInt8.ofNat id) (idx % 2 ^ 16) 1 count b₁ := by
  rw [sdoRdCb, harg]
  dsimp only
  rw [hread]
  rfl

theorem sdoRdCb_failed {arg bytes : List UInt8} {id code : Nat} (fuel : Nat)
    (harg : scanArgs arg = some (id, idx, none))
    (hread : bus.readSdo (UInt8.ofNat id) (idx % 2 ^ 16) 0 256 3000 b = (code, bytes, b₁))
    (hfailed : code ≠ 0 ∨ bytes = []) : sdoRdCb bus fuel arg b = some b₁ := by
  rw [sdoRdCb, harg]
  dsimp only
  rw [hread]
  rcases hfailed with hcode | rfl
  · obtain ⟨code, rfl⟩ := Nat.exists_eq_succ_of_ne_zero hcode
    rfl
  · cases code with
    | zero => rfl
    | succ code => rfl

end

section

variable {β : Type*} (bus : SdoBus β) (arg : List UInt8) (b : β)

theorem dumps_of_below255 (h : Below255 bus arg b) : Dumps bus arg b := by
  intro id idx subidx harg
  have hbelow := h id idx subidx harg
  cases subidx with
  | some sub =>
      obtain ⟨b', dumped, hrun, hreads⟩ := @dump_spec β bus (UInt8.ofNat id)
        (UInt8.ofNat sub) (UInt8.ofNat sub) (idx % 2 ^ 16) b []
        (by rw [UInt8.toNat_ofNat']; exact hbelow)
      exact ⟨257, b', [], dumped, (sdoRdCb_sub 257 harg).trans hrun, rfl, hreads⟩
  | none =>
      rcases hread : bus.readSdo (UInt8.ofNat id) (idx % 2 ^ 16) 0 256 3000 b with
        ⟨code, bytes, b₁⟩
      rcases Classical.em (code ≠ 0 ∨ bytes = []) with hfailed | hok
      · refine ⟨0, b₁, [reading _ _ 0 code bytes], [],
          sdoRdCb_failed 0 harg (recorded_readSdo hread) hfailed, code, bytes, rfl, ?_⟩
        rcases hfailed with hcode | rfl
        · obtain ⟨code, rfl⟩ := Nat.exists_eq_succ_of_ne_zero hcode
          exact .nil
        · cases code with
          | zero => exact .nil
          | succ code => exact .nil
      · obtain ⟨hcode, hbytes⟩ := not_or.mp hok
        obtain rfl := not_not.mp hcode
        obtain ⟨count, rest, rfl⟩ := List.exists_cons_of_ne_nil hbytes
        have hcount : count.toNat ≠ 255 := by
          intro hcount
          have h255 : count = 255 := UInt8.toNat_inj.mp hcount
          exact hbelow _ _ hread (by rw [h255]; rfl)
        obtain ⟨b', dumped, hrun, hreads⟩ := @dump_spec β bus (UInt8.ofNat id) 1 count
          (idx % 2 ^ 16) b₁ [reading (UInt8.ofNat id) (idx % 2 ^ 16) 0 0 (count :: rest)] hcount
        exact ⟨257, b', [reading _ _ 0 0 (count :: rest)], dumped,
          (sdoRdCb_count 257 harg (recorded_readSdo hread)).trans hrun, 0, count :: rest, rfl,
          hreads⟩

/-- A dump ends after the reads of its sub-indices exactly if its last sub-index is not 255. -/
theorem dumps_iff : Dumps bus arg b ↔ Below255 bus arg b := by
  constructor
  · intro h id idx subidx harg
    obtain ⟨fuel, b', counted, dumped, hrun, -⟩ := h id idx subidx harg
    cases subidx with
    | some sub =>
        intro hsub
        rw [sdoRdCb_sub fuel harg, dump_255 fuel (by rw [UInt8.toNat_ofNat']; exact hsub)] at hrun
        cases hrun
    | none =>
        rintro bytes b₁ hread hhead
        obtain ⟨rest, rfl⟩ := List.head?_eq_some_iff.mp hhead
        rw [sdoRdCb_count fuel harg (recorded_readSdo hread), dump_255 fuel rfl] at hrun
        cases hrun
  · exact dumps_of_below255 bus arg b

end

/-- A node that answers every read with the byte 255. -/
def fullNode : SdoBus Unit where
  readSdo := fun _ _ _ _ _ b => (0, [255], b)
  writeSdo := fun _ _ _ _ _ b => (0, b)

/-- `1 1003`: an object of node 1 that reports 255 sub-indices. -/
def wholeObject : List UInt8 := [49, 32, 49, 48, 48, 51]

theorem not_dumps_wholeObject : ¬ Dumps fullNode wholeObject () := by
  intro h
  have harg : scanArgs wholeObject = some (1, 0x1003, none) := by decide
  obtain ⟨fuel, b', counted, dumped, hrun, -⟩ := h 1 0x1003 none harg
  rw [sdoRdCb_count fuel harg (recorded_readSdo rfl), dump_255 fuel rfl] at hrun
  cases hrun

end ShGateway.SdoDump
