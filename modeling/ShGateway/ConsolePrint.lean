import ShGateway.Lib.WriteLog

/-!
`_PRINTF` of the console: the text that `vsnprintf` formats, on its way through `print_buf`
into a datagram.
-/

namespace ShGateway.ConsolePrint

open ShGateway.Lib.WriteLog

/-- The size of `print_buf`. -/
def printBufSize : Nat := 256

def outBuffer (character : UInt8) (buffer : Region) (idx maxlen : Nat) : Region :=
  if idx < maxlen then buffer.poke idx character else buffer

/-- The characters of a text, put out one by one. -/
def outText (maxlen : Nat) : Region → Nat → List UInt8 → Region
  | buffer, _, [] => buffer
  | buffer, idx, c :: text => outText maxlen (outBuffer c buffer idx maxlen) (idx + 1) text

/-- `vsnprintf` for a format and arguments that make up `text`. -/
def vsnprintf (buffer : Region) (count : Nat) (text : List UInt8) : Nat × Region :=
  let idx := text.length
  (idx, outBuffer 0 (outText count buffer 0 text) (if idx < count then idx else count - 1) count)

/-- What `_PRINTF` does: `print_buf`, the size of the payload unless it is `NULL`, how many bytes
are copied to it, and the bytes that are sent. -/
structure Printed where
  printBuf : Region
  payload : Option Nat
  copied : Nat
  sent : List UInt8

/-- `_PRINTF`, unless it returns at once. `pbufAlloc` tells for which lengths there is memory. -/
def printf (port : UInt16) (pbufAlloc : UInt16 → Bool) (printBuf : Region)
    (text : List UInt8) : Option Printed :=
  if port = 0 then none
  else
    let (actLen, printBuf) := vsnprintf printBuf (printBufSize - 1) text
    let printBuf := printBuf.poke actLen 0
    let actLen := actLen + 1
    let length := UInt16.ofNat actLen
    some {
      printBuf := printBuf
      payload := if pbufAlloc length then some length.toNat else none
      copied := actLen
      sent := (printBuf.slice actLen).take length.toNat }

/-- Only `print_buf` is written and read, a payload that is there takes what is copied, and the
text is sent as far as it fits the buffer, with a NUL. -/
structure Contained (text : List UInt8) (p : Printed) : Prop where
  writes : ∀ i ∈ p.printBuf.written, i < printBufSize
  reads : p.copied ≤ printBufSize
  payload : ∃ n, p.payload = some n ∧ p.copied ≤ n
  sent : p.sent = text.take (printBufSize - 1) ++ [0]

theorem outText_eq (maxlen : Nat) (buffer : Region) (idx : Nat) (text : List UInt8) :
    outText maxlen buffer idx text = buffer.copy idx (text.take (maxlen - idx)) := by
  induction text generalizing buffer idx with
  | nil => rw [List.take_nil, outText, Region.copy]
  | cons c text ih =>
      rw [outText, ih, outBuffer]
      rcases Nat.lt_or_ge idx maxlen with hlt | hge
      · have hsub : maxlen - idx = maxlen - (idx + 1) + 1 := by omega
        rw [if_pos hlt, hsub, List.take_succ_cons, Region.copy]
      · have hsub : maxlen - idx = 0 := by omega
        have hsub' : maxlen - (idx + 1) = 0 := by omega
        rw [if_neg (Nat.not_lt.mpr hge), hsub, hsub', List.take_zero, List.take_zero]
        rfl

theorem vsnprintf_eq (buffer : Region) {count : Nat} (hcount : 0 < count) (text : List UInt8) :
    vsnprintf buffer count text = (text.length,
      (buffer.copy 0 (text.take count)).poke (min text.length (count - 1)) 0) := by
  rw [vsnprintf, outText_eq, Nat.sub_zero]
  rcases Nat.lt_or_ge text.length count with hlt | hge
  · rw [if_pos hlt, outBuffer, if_pos hlt, Nat.min_eq_left (by omega)]
  · rw [if_neg (Nat.not_lt.mpr hge), outBuffer, if_pos (by omega), Nat.min_eq_right (by omega)]

section

variable {port : UInt16} {pbufAlloc : UInt16 → Bool} {bytes : Nat → UInt8} {text : List UInt8}

theorem printf_eq (hport : port ≠ 0) :
    printf port pbufAlloc ⟨bytes, []⟩ text =
      some {
        printBuf := (((Region.mk bytes []).copy 0 (text.take 255)).poke
          (min text.length 254) 0).poke text.length 0
        payload := if pbufAlloc (UInt16.ofNat (text.length + 1)) then
          some (UInt16.ofNat (text.length + 1)).toNat else none
        copied := text.length + 1
        sent := (((((Region.mk bytes []).copy 0 (text.take 255)).poke
          (min text.length 254) 0).poke text.length 0).slice (text.length + 1)).take
            (UInt16.ofNat (text.length + 1)).toNat } := by
  rw [printf, if_neg hport, vsnprintf_eq _ (by decide)]
  rfl

theorem length_lt_of_contained (hport : port ≠ 0)
    (h : ∀ p, printf port pbufAlloc ⟨bytes, []⟩ text = some p → Contained text p) :
    text.length < 256 :=
  (h _ (printf_eq hport)).writes _ (List.mem_append_right _ List.mem_cons_self)

theorem sent_eq (hlength : text.length ≤ 255) :
    ((((Region.mk bytes []).copy 0 (text.take 255)).poke
      (min text.length 254) 0).poke text.length 0).slice (text.length + 1) =
        if text.length = 255 then text.take 254 ++ [0] ++ [0] else text ++ [0] := by
  rw [List.take_of_length_le hlength, slice_succ, slice_poke (Nat.le_refl _), poke_bytes_self]
  split_ifs with hfull
  · have hmin : min text.length 254 = 254 := by omega
    rw [hmin, hfull, slice_succ, slice_poke (Nat.le_refl _), poke_bytes_self,
      slice_copy_take (by omega)]
  · have hmin : min text.length 254 = text.length := by omega
    rw [hmin, slice_poke (Nat.le_refl _), slice_copy]

/-- What `_PRINTF` writes and sends is as it should be exactly if there is nobody to print to, or
there is memory for the datagram and the text has at most 254 characters, a NUL at the end of
the buffer not counted. -/
theorem printf_contained_iff :
    (∀ p, printf port pbufAlloc ⟨bytes, []⟩ text = some p → Contained text p) ↔
      port = 0 ∨ pbufAlloc (UInt16.ofNat (text.length + 1)) = true ∧
        (text.length ≤ 254 ∨ text.length = 255 ∧ text.getLast? = some 0) := by
  rcases Classical.em (port = 0) with hport | hport
  · refine iff_of_true ?_ (.inl hport)
    intro p hp
    rw [printf, if_pos hport] at hp
    exact absurd hp.symm (Option.some_ne_none p)
  have htoNat : text.length ≤ 255 → (UInt16.ofNat (text.length + 1)).toNat = text.length + 1 := by
    intro hlength
    rw [UInt16.toNat_ofNat', Nat.mod_eq_of_lt (by omega)]
  have hlast : text.length = 255 →
      (text.take 254 ++ [0] ++ [0] = text.take 255 ++ [0] ↔ text.getLast? = some 0) := by
    intro hlength
    have hlt : 254 < text.length := by omega
    rw [List.take_succ_eq_append_getElem hlt, List.append_left_inj, List.append_right_inj,
      List.getLast?_eq_getElem?, hlength, List.getElem?_eq_getElem hlt, List.singleton_inj,
      Option.some_inj]
    exact eq_comm
  constructor
  · intro h
    have hlength : text.length ≤ 255 := Nat.le_of_lt_succ (length_lt_of_contained hport h)
    have hcontained := h _ (printf_eq hport)
    obtain ⟨n, hpayload, -⟩ := hcontained.payload
    have hsent := hcontained.sent
    dsimp only at hpayload hsent
    refine .inr ⟨?_, ?_⟩
    · by_contra hnone
      rw [if_neg hnone] at hpayload
      exact absurd hpayload.symm (Option.some_ne_none n)
    · rcases Nat.lt_or_ge text.length 255 with hlt | hge
      · exact .inl (Nat.le_of_lt_succ hlt)
      · have hfull : text.length = 255 := Nat.le_antisymm hlength hge
        rw [htoNat hlength, sent_eq hlength, if_pos hfull] at hsent
        rw [List.take_of_length_le] at hsent
        · exact .inr ⟨hfull, (hlast hfull).mp hsent⟩
        · simp [hfull]
  · rintro (hzero | ⟨halloc, hfits⟩) p hp
    · exact absurd hzero hport
    · have hlength : text.length ≤ 255 := by omega
      rw [printf_eq hport] at hp
      obtain rfl := Option.some.inj hp
      constructor
      · intro i hi
        simp only [poke_written, copy_written, List.mem_append, List.mem_singleton,
          List.mem_range'_1, List.length_take, List.nil_append] at hi
        rw [printBufSize]
        omega
      · exact Nat.succ_le_succ hlength
      · dsimp only
        rw [if_pos halloc, htoNat hlength]
        exact ⟨_, rfl, Nat.le_refl _⟩
      · dsimp only
        change _ = text.take 255 ++ [0]
        rw [htoNat hlength, sent_eq hlength]
        split_ifs with hfull
        · rw [List.take_of_length_le (by simp [hfull])]
          exact (hlast hfull).mpr (hfits.resolve_left (by omega)).2
        · rw [List.take_of_length_le (by simp), List.take_of_length_le hlength]

/-- A text of 300 characters. -/
theorem not_contained_longText :
    ¬ ∀ p, printf 50000 (fun _ => true) ⟨fun _ => 0, []⟩ (List.replicate 300 65) = some p →
      Contained (List.replicate 300 65) p := by
  intro h
  have hlength := length_lt_of_contained (by decide) h
  rw [List.length_replicate] at hlength
  exact absurd hlength (by decide)

end

end ShGateway.ConsolePrint
