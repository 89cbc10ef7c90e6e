import ShGateway.FlashWrite
import ShGateway.Lib.Runs

/-!
Sequences of calls of `platform_flash_write` between two resets of the erase
flags, on a device where every operation may fail.
-/

namespace ShGateway.FlashSession

open ShGateway.FlashWrite
open ShGateway.Lib.NorFlash
open ShGateway.Lib.Runs
open ShGateway.Platform

/-! ## The operations of a call -/

/-- What a call with `n` bytes left for `dest` does until it returns: it erases
the sector of the next byte if its flag is not set, and programs bytes in order. -/
inductive CallOps : (Nat → Bool) → Nat → Nat → List FlashOp → (Nat → Bool) → Prop
  | done (flags : Nat → Bool) (dest n : Nat) : CallOps flags dest n [] flags
  | erase {flags flags' : Nat → Bool} {dest n i : Nat} {ops : List FlashOp} :
      findSector dest = some i → flags i = false →
      CallOps (Function.update flags i true) dest (n + 1) ops flags' →
      CallOps flags dest (n + 1) (.eraseSector i :: ops) flags'
  | program {flags flags' : Nat → Bool} {dest n : Nat} {ops : List FlashOp} (b : UInt8) :
      (findSector dest).isSome → CallOps flags (dest + 1) n ops flags' →
      CallOps flags dest (n + 1) (.programByte dest b :: ops) flags'

theorem CallOps.count_eraseSector {flags flags' : Nat → Bool} {dest n : Nat}
    {ops : List FlashOp} (h : CallOps flags dest n ops flags') (i : Nat) :
    ops.count (.eraseSector i) + (flags i).toNat = (flags' i).toNat := by
  induction h with
  | done flags dest n => simp
  | @erase flags flags' dest n j ops _ hflag _ ih =>
      by_cases hij : j = i
      · subst hij
        rw [Function.update_self] at ih
        rw [List.count_cons_self, hflag]
        simpa [Nat.add_right_comm] using ih
      · rw [Function.update_of_ne (Ne.symm hij)] at ih
        rw [List.count_cons_of_ne (by simpa using hij)]
        exact ih
  | program b _ _ ih =>
      rw [List.count_cons_of_ne (by simp)]
      exact ih

theorem CallOps.program_mem {flags flags' : Nat → Bool} {dest n : Nat}
    {ops : List FlashOp} (h : CallOps flags dest n ops flags') {a : Nat} {b : UInt8}
    (hmem : .programByte a b ∈ ops) :
    dest ≤ a ∧ a < dest + n ∧ ∀ x, dest ≤ x → x ≤ a → (findSector x).isSome := by
  induction h with
  | done flags dest n => cases hmem
  | erase _ _ _ ih => exact ih (by simpa using hmem)
  | @program flags flags' dest n ops c hsome _ ih =>
      rcases List.mem_cons.mp hmem with heq | hmem
      · obtain ⟨rfl, -⟩ := FlashOp.programByte.inj heq
        refine ⟨Nat.le_refl _, by omega, fun x hx hxa => ?_⟩
        obtain rfl := Nat.le_antisymm hxa hx
        exact hsome
      · obtain ⟨hlo, hhi, hall⟩ := ih hmem
        refine ⟨by omega, by omega, fun x hx hxa => ?_⟩
        rcases Nat.eq_or_lt_of_le hx with rfl | hlt
        · exact hsome
        · exact hall x hlt hxa

theorem CallOps.erase_mem {flags flags' : Nat → Bool} {dest n : Nat}
    {ops : List FlashOp} (h : CallOps flags dest n ops flags') {i : Nat}
    (hmem : .eraseSector i ∈ ops) :
    flags i = false ∧ ∃ a, dest ≤ a ∧ a < dest + n ∧ findSector a = some i ∧
      ∀ x, dest ≤ x → x ≤ a → (findSector x).isSome := by
  induction h with
  | done flags dest n => cases hmem
  | @erase flags flags' dest n j ops hj hflag _ ih =>
      rcases List.mem_cons.mp hmem with heq | hmem
      · obtain rfl := FlashOp.eraseSector.inj heq
        refine ⟨hflag, dest, Nat.le_refl _, by omega, hj, fun x hx hxa => ?_⟩
        obtain rfl := Nat.le_antisymm hxa hx
        rw [hj]
        rfl
      · obtain ⟨hclear, ha⟩ := ih hmem
        refine ⟨?_, ha⟩
        by_cases hij : i = j
        · rw [hij, hflag]
        · rwa [Function.update_of_ne hij] at hclear
  | @program flags flags' dest n ops c hsome _ ih =>
      obtain ⟨hclear, a, hlo, hhi, ha, hall⟩ := ih (by simpa using hmem)
      refine ⟨hclear, a, by omega, by omega, ha, fun x hx hxa => ?_⟩
      rcases Nat.eq_or_lt_of_le hx with rfl | hlt
      · exact hsome
      · exact hall x hlt hxa

/-- From `d` to `d'` the operations were performed, and nothing else changed a
byte. -/
structure CallEffect (d : FlashDev) (dest n : Nat) (d' : FlashDev)
    (ops : List FlashOp) : Prop where
  ops_eq : d'.ops = d.ops ++ ops
  lawful : CallOps d.erased dest n ops d'.erased
  frame : ∀ a, (∀ b, .programByte a b ∉ ops) →
    (∀ i, findSector a = some i → .eraseSector i ∉ ops) → d'.mem a = d.mem a

theorem CallEffect.done (d : FlashDev) (dest n : Nat) : CallEffect d dest n d [] where
  ops_eq := (List.append_nil _).symm
  lawful := .done d.erased dest n
  frame := fun _ _ _ => rfl

section

variable {hw : FlashHw} {d d' : FlashDev} {dest n : Nat}

theorem exists_effect_eraseOnce {i : Nat} (hi : findSector dest = some i)
    (h : ∃ ops, CallEffect (eraseOnce hw d i).2 dest (n + 1) d' ops) :
    ∃ ops, CallEffect d dest (n + 1) d' ops := by
  obtain ⟨ops, hops, hlawful, hframe⟩ := h
  rw [eraseOnce] at hops hlawful hframe
  rcases hflag : d.erased i with _ | _
  · rw [hflag, if_neg Bool.false_ne_true] at hops hlawful hframe
    refine ⟨.eraseSector i :: ops, ?_, .erase hi hflag ?_, fun a hprogram herase => ?_⟩
    · rw [hops, flashEraseSector]
      rcases hw.eraseFault d.ops with _ | junk <;> simp
    · rw [flashEraseSector] at hlawful
      rcases hfault : hw.eraseFault d.ops with _ | junk <;> simpa [hfault] using hlawful
    · rw [hframe a (fun b hb => hprogram b (List.mem_cons_of_mem _ hb)) fun j hj hmem =>
        herase j hj (List.mem_cons_of_mem _ hmem), flashEraseSector]
      have hother : findSector a ≠ some i := fun ha => herase i ha (by simp)
      rcases hw.eraseFault d.ops with _ | junk <;> simp [eraseSector, hother]
  · rw [hflag, if_pos rfl] at hops hlawful hframe
    exact ⟨ops, hops, hlawful, hframe⟩

theorem exists_effect_programByte {i : Nat} (hi : findSector dest = some i) (b : UInt8)
    (h : ∃ ops, CallEffect (flashProgramByte hw d dest b).2 (dest + 1) n d' ops) :
    ∃ ops, CallEffect d dest (n + 1) d' ops := by
  obtain ⟨ops, hops, hlawful, hframe⟩ := h
  refine ⟨.programByte dest b :: ops, ?_, .program b (by rw [hi]; rfl) ?_,
    fun a hprogram herase => ?_⟩
  · rw [hops, flashProgramByte]
    rcases hw.programFault d.ops with _ | junk <;> simp
  · rw [flashProgramByte] at hlawful
    rcases hfault : hw.programFault d.ops with _ | junk <;> simpa [hfault] using hlawful
  · rw [hframe a (fun c hc => hprogram c (List.mem_cons_of_mem _ hc)) fun j hj hmem =>
      herase j hj (List.mem_cons_of_mem _ hmem), flashProgramByte]
    have hne : a ≠ dest := by
      rintro rfl
      exact hprogram b (by simp)
    rcases hw.programFault d.ops with _ | junk <;> simp [programByte, hne]

theorem exists_effect_byte (b : UInt8)
    (hnext : (platformFlashWriteByte hw d dest b).1 = 0 →
      ∃ ops, CallEffect (platformFlashWriteByte hw d dest b).2 (dest + 1) n d' ops)
    (hfail : (platformFlashWriteByte hw d dest b).1 ≠ 0 →
      d' = (platformFlashWriteByte hw d dest b).2) :
    ∃ ops, CallEffect d dest (n + 1) d' ops := by
  rw [platformFlashWriteByte] at hnext hfail
  rcases hi : findSector dest with _ | i
  · rw [hi] at hfail
    rw [hfail (by simp)]
    exact ⟨[], .done d dest _⟩
  simp only [hi] at hnext hfail
  apply @exists_effect_eraseOnce hw d d' dest n i hi
  rcases herase : eraseOnce hw d i with ⟨_ | _, d₁⟩
  · simp only [herase] at hfail
    rw [hfail (by decide)]
    exact ⟨[], .done d₁ dest _⟩
  simp only [herase] at hnext hfail
  apply @exists_effect_programByte hw d₁ d' dest n i hi b
  rcases hprogram : flashProgramByte hw d₁ dest b with ⟨_ | _, d₂⟩
  · simp only [hprogram] at hfail
    rw [hfail (by decide)]
    exact ⟨[], .done d₂ (dest + 1) _⟩
  simp only [hprogram] at hnext hfail
  by_cases hback : d₂.mem dest ≠ b
  · rw [if_pos hback] at hfail
    rw [hfail (by simp)]
    exact ⟨[], .done d₂ (dest + 1) _⟩
  · rw [if_neg hback] at hnext
    exact hnext rfl

/-- Whatever fails, a call performs its operations in the lawful order. -/
theorem platformFlashWrite_effect (hw : FlashHw) (d : FlashDev) (dest : Nat)
    (src : List UInt8) :
    ∃ ops, CallEffect d dest src.length (platformFlashWrite hw d dest src).2 ops := by
  induction src generalizing d dest with
  | nil => exact ⟨[], .done d dest 0⟩
  | cons b src ih =>
      rw [platformFlashWrite, List.length_cons]
      apply @exists_effect_byte hw d _ dest src.length b
      · intro hok
        rcases hbyte : platformFlashWriteByte hw d dest b with ⟨_ | err, d₁⟩
        · exact ih d₁ (dest + 1)
        · rw [hbyte] at hok
          cases hok
      · intro hfail
        rcases hbyte : platformFlashWriteByte hw d dest b with ⟨_ | err, d₁⟩
        · rw [hbyte] at hfail
          exact absurd rfl hfail
        · rfl

end

/-! ## One call -/

theorem findSector_isSome_iff (a : Nat) :
    (findSector a).isSome ↔ flashStart ≤ a ∧ a < flashFinish := by
  rw [findSector_eq]
  simp only [flashStart, flashFinish]
  split_ifs <;> simp <;> omega

section

variable (hw : FlashHw) (d : FlashDev) (dest : Nat) (src : List UInt8)

theorem platformFlashWriteByte_stored (b : UInt8)
    (hok : (platformFlashWriteByte hw d dest b).1 = 0) :
    (platformFlashWriteByte hw d dest b).2.mem dest = b := by
  unfold platformFlashWriteByte at hok ⊢
  rcases hi : findSector dest with _ | i
  · simp [hi] at hok
  simp only [hi] at hok ⊢
  rcases herase : eraseOnce hw d i with ⟨_ | _, d₁⟩
  · simp [herase] at hok
  simp only [herase] at hok ⊢
  rcases hprogram : flashProgramByte hw d₁ dest b with ⟨_ | _, d₂⟩
  · simp [hprogram] at hok
  simp only [hprogram] at hok ⊢
  by_cases hback : d₂.mem dest ≠ b
  · rw [if_pos hback] at hok
    cases hok
  · rw [if_neg hback]
    exact not_not.mp hback

theorem platformFlashWrite_stored (hok : (platformFlashWrite hw d dest src).1 = 0) :
    readBytes (platformFlashWrite hw d dest src).2.mem dest src.length = src := by
  induction src generalizing d dest with
  | nil => rfl
  | cons b src ih =>
      have hstored := platformFlashWriteByte_stored hw d dest b
      have hset := (platformFlashWriteByte_frame hw d dest b).2
      rw [platformFlashWrite] at hok ⊢
      rcases hbyte : platformFlashWriteByte hw d dest b with ⟨_ | err, d₁⟩
      · rw [hbyte] at hok hstored hset
        obtain ⟨hframe, -⟩ := platformFlashWrite_frame hw d₁ (dest + 1) src
        have hfirst := hframe.mem dest (.inl (Nat.lt_succ_self dest)) (hset rfl)
        rw [List.length_cons, readBytes_succ]
        exact congrArg₂ List.cons (hfirst.trans (hstored rfl)) (ih d₁ (dest + 1) hok)
      · rw [hbyte] at hok
        cases hok

theorem platformFlashWrite_outside {a : Nat} (hlo : dest ≤ a) (hhi : a < dest + src.length)
    (ha : findSector a = none) : (platformFlashWrite hw d dest src).1 ≠ 0 := by
  induction src generalizing d dest with
  | nil =>
      rw [List.length_nil] at hhi
      omega
  | cons b src ih =>
      rw [platformFlashWrite]
      rcases hbyte : platformFlashWriteByte hw d dest b with ⟨_ | err, d₁⟩
      · rcases Nat.eq_or_lt_of_le hlo with rfl | hlt
        · rw [platformFlashWriteByte, ha] at hbyte
          cases hbyte
        · exact ih d₁ (dest + 1) hlt (by rw [List.length_cons] at hhi; omega)
      · exact Nat.succ_ne_zero err

end

theorem CallEffect.outside {d d' : FlashDev} {dest n : Nat} {ops : List FlashOp}
    (h : CallEffect d dest n d' ops) {a : Nat} (hlo : dest ≤ a)
    (ha : findSector a = none) {x : Nat} (hx : a ≤ x) :
    (∀ b, .programByte x b ∉ ops) ∧ d'.mem x = d.mem x := by
  have hprogram : ∀ b, .programByte x b ∉ ops := by
    intro b hmem
    have hsome := (h.lawful.program_mem hmem).2.2 a hlo hx
    rw [ha] at hsome
    cases hsome
  refine ⟨hprogram, h.frame x hprogram fun i hi hmem => ?_⟩
  obtain ⟨-, y, hylo, -, hy, hall⟩ := h.lawful.erase_mem hmem
  have hxIn := (findSector_isSome_iff x).mp (by rw [hi]; rfl)
  have hyIn := (findSector_isSome_iff y).mp (by rw [hy]; rfl)
  have haOut : ¬ (findSector a).isSome := by
    rw [ha]
    exact Bool.false_ne_true
  rcases Nat.lt_or_ge y a with hlt | hge
  · exact haOut ((findSector_isSome_iff a).mpr ⟨by omega, by omega⟩)
  · exact haOut (hall a hlo hge)

/-! ## Sessions -/

/-- A call of `platform_flash_write`. -/
structure WriteCall where
  dest : Nat
  src : List UInt8
deriving DecidableEq, Repr

/-- The ranges of two calls have no address in common. -/
def WriteCall.Disjoint (c c' : WriteCall) : Prop :=
  c.dest + c.src.length ≤ c'.dest ∨ c'.dest + c'.src.length ≤ c.dest

/-- The device after some calls. -/
def session (hw : FlashHw) (d : FlashDev) (calls : List WriteCall) : FlashDev :=
  calls.foldl (fun d c => (platformFlashWrite hw d c.dest c.src).2) d

section

variable (hw : FlashHw) (d : FlashDev)

theorem session_cons (c : WriteCall) (calls : List WriteCall) :
    session hw d (c :: calls) = session hw (platformFlashWrite hw d c.dest c.src).2 calls :=
  rfl

theorem session_ops (calls : List WriteCall) :
    ∃ ops, (session hw d calls).ops = d.ops ++ ops ∧ ∀ i,
      ops.count (.eraseSector i) + (d.erased i).toNat =
        ((session hw d calls).erased i).toNat := by
  induction calls generalizing d with
  | nil => exact ⟨[], (List.append_nil _).symm, fun i => by simp [session]⟩
  | cons c calls ih =>
      obtain ⟨ops, heffect⟩ := platformFlashWrite_effect hw d c.dest c.src
      obtain ⟨ops', hops', hcount'⟩ := ih (platformFlashWrite hw d c.dest c.src).2
      refine ⟨ops ++ ops', ?_, fun i => ?_⟩
      · rw [← List.append_assoc, ← heffect.ops_eq]
        exact hops'
      · have hcount := heffect.lawful.count_eraseSector i
        have hrest := hcount' i
        rw [List.count_append, session_cons]
        omega

theorem session_frame {c : WriteCall} {calls : List WriteCall}
    (hsectors : ∀ a, c.dest ≤ a → a < c.dest + c.src.length →
      ∀ i, findSector a = some i → d.erased i = true)
    (hdisjoint : ∀ c' ∈ calls, c.Disjoint c') {a : Nat} (hlo : c.dest ≤ a)
    (hhi : a < c.dest + c.src.length) : (session hw d calls).mem a = d.mem a := by
  induction calls generalizing d with
  | nil => rfl
  | cons c' calls ih =>
      obtain ⟨hframe, -⟩ := platformFlashWrite_frame hw d c'.dest c'.src
      have hout : a < c'.dest ∨ c'.dest + c'.src.length ≤ a := by
        have hranges := hdisjoint c' (by simp)
        rw [WriteCall.Disjoint] at hranges
        omega
      have hkept := hframe.mem a hout (hsectors a hlo hhi)
      exact (ih _ (fun x hx hx' i hi => hframe.erased i (hsectors x hx hx' i hi))
        fun c'' hmem => hdisjoint c'' (List.mem_cons_of_mem _ hmem)).trans hkept

/-- The calls of a session keep their promises, whatever fails. -/
theorem session_spec (calls : List WriteCall) :
    (∃ ops, (session hw d calls).ops = d.ops ++ ops ∧ ∀ i,
      ops.count (.eraseSector i) ≤ 1 ∧
        (d.erased i = true → .eraseSector i ∉ ops)) ∧
    AtEach (fun pre c =>
      let s := session hw d pre
      let r := platformFlashWrite hw s c.dest c.src
      (r.1 = 0 → readBytes r.2.mem c.dest c.src.length = c.src) ∧
      (∃ ops, r.2.ops = s.ops ++ ops ∧
        CallOps s.erased c.dest c.src.length ops r.2.erased ∧
        ∀ a, (a < c.dest ∨ c.dest + c.src.length ≤ a) →
          (∀ i, findSector a = some i → .eraseSector i ∉ ops) → r.2.mem a = s.mem a) ∧
      ∀ a, c.dest ≤ a → a < c.dest + c.src.length → findSector a = none →
        r.1 ≠ 0 ∧ ∀ x, a ≤ x → r.2.mem x = s.mem x ∧
          ∀ b, .programByte x b ∉ r.2.ops.drop s.ops.length) calls ∧
    ∀ pre c post, calls = pre ++ c :: post →
      (platformFlashWrite hw (session hw d pre) c.dest c.src).1 = 0 →
      (∀ c' ∈ post, c.Disjoint c') →
      readBytes (session hw d calls).mem c.dest c.src.length = c.src := by
  refine ⟨?_, ?_, ?_⟩
  · obtain ⟨ops, hops, hcount⟩ := session_ops hw d calls
    refine ⟨ops, hops, fun i => ?_⟩
    have hle := Bool.toNat_le ((session hw d calls).erased i)
    have hi := hcount i
    refine ⟨by omega, fun hset hmem => ?_⟩
    rw [hset] at hi
    have hpos := List.count_pos_iff.mpr hmem
    simp only [Bool.toNat_true] at hi
    omega
  · intro pre c _
    obtain ⟨ops, heffect⟩ :=
      platformFlashWrite_effect hw (session hw d pre) c.dest c.src
    refine ⟨platformFlashWrite_stored hw _ c.dest c.src,
      ⟨ops, heffect.ops_eq, heffect.lawful, fun a hout herase =>
        heffect.frame a (fun b hmem => ?_) herase⟩, fun a hlo hhi ha =>
      ⟨platformFlashWrite_outside hw _ c.dest c.src hlo hhi ha, fun x hx => ?_⟩⟩
    · have hin := heffect.lawful.program_mem hmem
      omega
    · obtain ⟨hprogram, hmem⟩ := heffect.outside hlo ha hx
      refine ⟨hmem, ?_⟩
      rw [heffect.ops_eq, List.drop_left]
      exact hprogram
  · rintro pre c post rfl hok hdisjoint
    have hstored := platformFlashWrite_stored hw (session hw d pre) c.dest c.src hok
    have hflags := (platformFlashWrite_frame hw (session hw d pre) c.dest c.src).2 hok
    have hsession : session hw d (pre ++ c :: post) =
        session hw (platformFlashWrite hw (session hw d pre) c.dest c.src).2 post := by
      rw [← session_cons, session, List.foldl_append]
      rfl
    rw [hsession]
    refine (readBytes_congr fun i hi => ?_).trans hstored
    exact session_frame hw _ (fun a hlo hhi i hi => hflags i ⟨a, hlo, hhi, hi⟩) hdisjoint
      (Nat.le_add_right _ _) (by omega)

end

end ShGateway.FlashSession
