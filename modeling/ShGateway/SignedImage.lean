import ShGateway.FwVerdict
import ShGateway.Sign

/-!
What the signer writes, and which of it the device accepts.
-/

namespace ShGateway.SignedImage

open ShGateway.Crc
open ShGateway.FieldTable
open ShGateway.FwHeader
open ShGateway.FwVerdict
open ShGateway.Lib.ByteWords
open ShGateway.Lib.NorFlash
open ShGateway.Lib.StringTable
open ShGateway.Platform
open ShGateway.Sign

/-! ## The content -/

/-- The key and the value of an argument. -/
def argumentField (arg : Argument) : List UInt8 × List UInt8 :=
  let delim := arg.chars.findIdx (· = 61)
  (arg.chars.take delim, arg.chars.drop (delim + 1))

def argumentFields (args : List Argument) : Fields := args.map argumentField

theorem alignContent_eq (content : List UInt8) :
    alignContent content = content ++ List.replicate (4 - content.length % 4) 0 := by
  induction content using alignContent.induct with
  | case1 content h =>
      rw [alignContent, if_pos h]
      rw [List.length_append, List.length_singleton] at h
      have hone : 4 - content.length % 4 = 1 := by omega
      rw [hone]
      rfl
  | case2 content h ih =>
      rw [alignContent, if_neg h, ih]
      rw [List.length_append, List.length_singleton] at h ⊢
      have hnext : 4 - content.length % 4 = 4 - (content.length + 1) % 4 + 1 := by omega
      rw [hnext, List.replicate_succ, List.append_assoc]
      rfl

theorem alignContent_length (content : List UInt8) :
    (alignContent content).length = content.length / 4 * 4 + 4 := by
  rw [alignContent_eq, List.length_append, List.length_replicate]
  omega

theorem appendField_ok {content content' : List UInt8} {arg : Argument}
    (h : appendField content arg = .ok content') :
    content' = content ++ ((argumentField arg).1 ++ 0 :: ((argumentField arg).2 ++ [0])) ∧
      IsString (argumentField arg).1 ∧ IsString (argumentField arg).2 := by
  unfold appendField at h
  rcases hidx : arg.chars.findIdx? (· = 61) with _ | delim
  · simp [hidx] at h
  · rw [hidx] at h
    obtain ⟨hlt, hdelim⟩ := List.findIdx?_eq_some_iff_findIdx_eq.mp hidx
    by_cases hformat : delim = 0 ∨ arg.chars.length ≤ delim + 1
    · simp [hformat] at h
    · simp only [if_neg hformat, Except.ok.injEq] at h
      rw [not_or] at hformat
      have hfield : argumentField arg = (arg.chars.take delim, arg.chars.drop (delim + 1)) := by
        rw [argumentField, hdelim]
      rw [hfield, ← h]
      refine ⟨?_, ⟨?_, ?_⟩, ⟨?_, ?_⟩⟩
      · rw [List.set_append_left _ _ hlt, List.set_eq_take_append_cons_drop, if_pos hlt]
        simp
      · exact List.ne_nil_of_length_pos (by rw [List.length_take]; omega)
      · exact fun b hb => arg.ne_nul b (List.mem_of_mem_take hb)
      · exact List.ne_nil_of_length_pos (by rw [List.length_drop]; omega)
      · exact fun b hb => arg.ne_nul b (List.mem_of_mem_drop hb)

theorem appendFields_ok {content content' : List UInt8} {args : List Argument}
    (h : args.foldlM appendField content = .ok content') :
    content' = content ++ (strings (argumentFields args)).flatMap (· ++ [0]) ∧
      ∀ s ∈ strings (argumentFields args), IsString s := by
  induction args generalizing content with
  | nil =>
      obtain rfl := Except.ok.inj h
      simp [argumentFields]
  | cons arg args ih =>
      rw [List.foldlM_cons] at h
      rcases hfield : appendField content arg with code | content₁
      · rw [hfield] at h
        cases h
      · rw [hfield] at h
        obtain ⟨rfl, hkey, hvalue⟩ := appendField_ok hfield
        obtain ⟨rfl, hrest⟩ := ih h
        have hstrings : strings (argumentFields (arg :: args)) =
            (argumentField arg).1 :: (argumentField arg).2 :: strings (argumentFields args) :=
          strings_cons _ _ _
        rw [hstrings]
        constructor
        · simp
        · intro s hs
          rcases List.mem_cons.mp hs with rfl | hs
          · exact hkey
          · rcases List.mem_cons.mp hs with rfl | hs
            · exact hvalue
            · exact hrest s hs

/-- The bytes of the fields and the terminator that ends them. -/
def tableLength (args : List Argument) : Nat :=
  (args.map fun arg => arg.chars.length + 1).sum + 1

theorem putWord_length {content : List UInt8} {offset n : Nat}
    (h : offset + 4 ≤ content.length) : (putWord content offset n).length = content.length := by
  simp only [putWord, List.length_append, List.length_take, List.length_drop, le32_length]
  omega

theorem putWord_append {xs w ys : List UInt8} {offset : Nat} (hxs : xs.length = offset)
    (hw : w.length = 4) (n : Nat) :
    putWord (xs ++ (w ++ ys)) offset n = xs ++ (le32 n ++ ys) := by
  have hskip : (xs ++ (w ++ ys)).drop (offset + 4) = ys := by
    rw [← List.append_assoc]
    exact List.drop_left' (by simp [hxs, hw])
  rw [putWord, hskip, List.take_left' hxs, List.append_assoc]

/-- A signed file: the code before the header, the header, and the rest, with the
fields behind the padded input. -/
structure Signed (input : List UInt8) (args : List Argument) (out : List UInt8)
    (before after : List UInt8) (pad : Nat) : Prop where
  before_length : before.length = fieldsOffset
  content : before ++ (pattern ++ after) = alignContent input ++
    (tableBytes (strings (argumentFields args)) ++ List.replicate pad 0)
  isString : ∀ s ∈ strings (argumentFields args), IsString s
  out_eq : out = before ++ (le32 out.length ++ (le32 (contentCrc out).toNat ++
    (le32 (alignContent input).length ++ (le32 0xDDDDDDDD ++ after))))

theorem contentCrc_eq {before w₀ w₁ w₂ w₃ after : List UInt8}
    (hbefore : before.length = fieldsOffset) (h₀ : w₀.length = 4) (h₁ : w₁.length = 4)
    (h₂ : w₂.length = 4) (h₃ : w₃.length = 4) :
    contentCrc (before ++ (w₀ ++ (w₁ ++ (w₂ ++ (w₃ ++ after))))) =
      crc32End ethUnit (crc32Start ethUnit before) (after.take (after.length % 2 ^ 32)) := by
  have hskip : (before ++ (w₀ ++ (w₁ ++ (w₂ ++ (w₃ ++ after))))).drop (fieldsOffset + 16) =
      after := by
    simp only [← List.append_assoc]
    exact List.drop_left' (by simp [hbefore, h₀, h₁, h₂, h₃])
  have hlen := congrArg List.length hskip
  rw [List.length_drop] at hlen
  rw [contentCrc, hskip, List.take_left' hbefore, hlen]

theorem putHeader_eq {before w₀ w₁ w₂ : List UInt8} (w₃ after : List UInt8)
    (hbefore : before.length = fieldsOffset) (h₀ : w₀.length = 4) (h₁ : w₁.length = 4)
    (h₂ : w₂.length = 4) (fwSize fwCrc offset : Nat) :
    putWord (before ++ (w₀ ++ (w₁ ++ (w₂ ++ (w₃ ++ after))))) fieldsOffset fwSize =
        before ++ (le32 fwSize ++ (w₁ ++ (w₂ ++ (w₃ ++ after)))) ∧
      putWord (before ++ (le32 fwSize ++ (w₁ ++ (w₂ ++ (w₃ ++ after))))) (fieldsOffset + 8)
          offset =
        before ++ (le32 fwSize ++ (w₁ ++ (le32 offset ++ (w₃ ++ after)))) ∧
      putWord (before ++ (le32 fwSize ++ (w₁ ++ (le32 offset ++ (w₃ ++ after)))))
          (fieldsOffset + 4) fwCrc =
        before ++ (le32 fwSize ++ (le32 fwCrc ++ (le32 offset ++ (w₃ ++ after)))) := by
  refine ⟨putWord_append hbefore h₀ fwSize, ?_, ?_⟩
  · have hpadded : (before ++ (le32 fwSize ++ w₁)).length = fieldsOffset + 8 := by
      simp [hbefore, h₁]
    have hput := @putWord_append _ w₂ (w₃ ++ after) _ hpadded h₂ offset
    simpa only [List.append_assoc] using hput
  · have hpadded : (before ++ le32 fwSize).length = fieldsOffset + 4 := by simp [hbefore]
    have hput := @putWord_append _ w₁ (le32 offset ++ (w₃ ++ after)) _ hpadded h₁ fwCrc
    simpa only [List.append_assoc] using hput

/-- What the signer has written when it succeeds. -/
theorem signMain_ok {limit : Int} {input : List UInt8} {args : List Argument}
    {out : List UInt8} (h : signMain limit input args = .ok out) :
    ∃ before after pad, Signed input args out before after pad := by
  unfold signMain at h
  by_cases hsmall : (alignContent input).length < fieldsOffset + 4
  · simp [hsmall] at h
  simp only [if_neg hsmall] at h
  rcases hfields : args.foldlM appendField (alignContent input) with code | content
  · simp [hfields] at h
  obtain ⟨hcontent, hstrings⟩ := appendFields_ok hfields
  simp only [hfields] at h
  split_ifs at h with hpattern hlimit
  obtain ⟨pad, hpad⟩ : ∃ pad, alignContent content = alignContent input ++
      (tableBytes (strings (argumentFields args)) ++ List.replicate pad 0) := by
    refine ⟨3 - content.length % 4, ?_⟩
    have hone : 4 - content.length % 4 = 3 - content.length % 4 + 1 := by omega
    rw [alignContent_eq, hone, List.replicate_succ, hcontent, tableBytes]
    simp
  rw [not_not] at hpattern
  have hsplit : alignContent content = (alignContent content).take fieldsOffset ++
      (pattern ++ (alignContent content).drop (fieldsOffset + 16)) := by
    rw [← hpattern, ← List.drop_drop, List.take_append_drop, List.take_append_drop]
  have hbefore : ((alignContent content).take fieldsOffset).length = fieldsOffset := by
    have hlen := congrArg List.length hpattern
    rw [List.length_take, List.length_drop] at hlen
    have : pattern.length = 16 := rfl
    rw [List.length_take]
    omega
  generalize (alignContent content).take fieldsOffset = before at hsplit hbefore
  generalize (alignContent content).drop (fieldsOffset + 16) = after at hsplit
  refine ⟨before, after, pad, hbefore, ?_, hstrings, ?_⟩
  · rw [← hsplit, hpad]
  · have hwords : pattern ++ after = le32 0xAAAAAAAA ++ (le32 0xBBBBBBBB ++
        (le32 0xCCCCCCCC ++ (le32 0xDDDDDDDD ++ after))) := by
      simp only [pattern, List.append_assoc]
    have hout := Except.ok.inj h
    rw [hwords] at hsplit
    have hle := le32_length
    rw [hsplit, (putHeader_eq _ _ hbefore (hle _) (hle _) (hle _) _ 0 0).1,
      (putHeader_eq _ _ hbefore (hle 0) (hle _) (hle _) _ 0 _).2.1,
      contentCrc_eq hbefore (hle _) (hle _) (hle _) (hle _),
      (putHeader_eq _ _ hbefore (hle 0) (hle _) (hle 0) _ _ _).2.2] at hout
    have hlen := congrArg List.length hout
    simp only [List.length_append, le32_length] at hlen
    have hcrc : contentCrc out =
        crc32End ethUnit (crc32Start ethUnit before) (after.take (after.length % 2 ^ 32)) := by
      rw [← hout]
      exact contentCrc_eq hbefore (hle _) (hle _) (hle _) (hle _)
    rw [hcrc, ← hlen]
    simpa only [List.length_append, le32_length] using hout.symm

/-! ## The image in flash -/

/-- The size limits in the Makefiles. -/
def signLimit : FwType → Nat
  | .preldr => 4096
  | .ldr => 49152
  | .app => 393216

/-- A file that was written to the start of a partition. -/
structure Flashed (m : Mem) (start : Nat) (out : List UInt8) : Prop where
  stored : readBytes m start out.length = out

section

variable {m : Mem} {start : Nat} {input out before after : List UInt8}
  {args : List Argument} {pad : Nat}

theorem readBytes_drop {xs : List UInt8} {a n : Nat} (h : readBytes m a xs.length = xs)
    (hn : n ≤ xs.length) : readBytes m (a + n) (xs.drop n).length = xs.drop n := by
  have hsplit : readBytes m a (xs.take n ++ xs.drop n).length = xs.take n ++ xs.drop n := by
    rw [List.take_append_drop]
    exact h
  have hdrop := (readBytes_append_iff.mp hsplit).2
  rwa [List.length_take_of_le hn] at hdrop

theorem Signed.tableBytes_length (h : Signed input args out before after pad) :
    (tableBytes (strings (argumentFields args))).length = tableLength args := by
  have hstrings := h.isString
  clear h
  induction args with
  | nil => rfl
  | cons arg args ih =>
      have hcons : strings (argumentFields (arg :: args)) =
          (argumentField arg).1 :: (argumentField arg).2 :: strings (argumentFields args) :=
        strings_cons _ _ _
      rw [hcons] at hstrings ⊢
      have hrest := ih fun s hs => hstrings s (by simp [hs])
      have hvalue := List.length_pos_iff.mpr (hstrings (argumentField arg).2 (by simp)).ne_nil
      simp only [argumentField, List.length_drop] at hvalue
      rw [tableBytes_cons, tableBytes_cons]
      simp only [List.length_append, List.length_cons, hrest, tableLength, List.map_cons,
        List.sum_cons, argumentField, List.length_take, List.length_drop]
      omega

theorem Signed.length (h : Signed input args out before after pad) :
    out.length = (alignContent input).length + tableLength args + pad ∧
      out.length = fieldsOffset + 16 + after.length := by
  have hout := congrArg List.length h.out_eq
  have hcontent := congrArg List.length h.content
  have hpattern : pattern.length = 16 := rfl
  simp only [List.length_append, le32_length, List.length_replicate, h.tableBytes_length,
    h.before_length, hpattern] at hout hcontent
  omega

theorem Signed.drop_eq (h : Signed input args out before after pad)
    (hinput : fieldsOffset + 16 ≤ (alignContent input).length) :
    out.drop (alignContent input).length =
      tableBytes (strings (argumentFields args)) ++ List.replicate pad 0 := by
  obtain ⟨n, hn⟩ := Nat.exists_eq_add_of_le hinput
  have hdrop : ∀ xs : List UInt8,
      xs.drop (alignContent input).length = (xs.drop (fieldsOffset + 16)).drop n := by
    intro xs
    rw [hn, List.drop_drop]
  have hcode : (before ++ (pattern ++ after)).drop (fieldsOffset + 16) = after := by
    rw [← List.append_assoc]
    refine List.drop_left' ?_
    rw [List.length_append, h.before_length]
    rfl
  have hout : out.drop (fieldsOffset + 16) = after := by
    rw [h.out_eq]
    simp only [← List.append_assoc]
    exact List.drop_left' (by simp [h.before_length])
  have hcontent := congrArg (List.drop (alignContent input).length) h.content
  rw [List.drop_left, hdrop, hcode] at hcontent
  rw [hdrop, hout, hcontent]

/-- What the device reads in the header of a signed image. -/
structure HeaderRead (m : Mem) (start : Nat) (input : List UInt8) (args : List Argument)
    (out : List UInt8) : Prop where
  fwSize : fwSize m start = out.length
  fwCrc32 : fwCrc32 m start = (crc32 .stm32 (coveredBytes m start)).toNat
  offset : fieldsAddrOffset m start = (alignContent input).length
  stored : readBytes m (start + (alignContent input).length)
    (tableBytes (strings (argumentFields args))).length =
      tableBytes (strings (argumentFields args))

theorem Signed.headerRead (h : Signed input args out before after pad)
    (hflash : Flashed m start out) (hlen : out.length < 2 ^ 32)
    (hinput : fieldsOffset + 16 ≤ (alignContent input).length) :
    HeaderRead m start input args out := by
  obtain ⟨htotal, hafter⟩ := h.length
  have hstored := hflash.stored
  rw [h.out_eq] at hstored
  obtain ⟨hbefore, hstored⟩ := readBytes_append_iff.mp hstored
  obtain ⟨hsize, hstored⟩ := readBytes_append_iff.mp hstored
  obtain ⟨hcrc, hstored⟩ := readBytes_append_iff.mp hstored
  obtain ⟨hoffset, hstored⟩ := readBytes_append_iff.mp hstored
  obtain ⟨-, hstored⟩ := readBytes_append_iff.mp hstored
  simp only [le32_length, h.before_length, Nat.add_assoc] at hsize hcrc hoffset hstored
  have hoff : headerOffset = fieldsOffset := rfl
  have hfwSize : FwHeader.fwSize m start = out.length := by
    rw [FwHeader.fwSize, readWord, hoff, hsize, ofLe_le32 hlen]
  have hcovered : coveredBytes m start = before ++ after := by
    have hrest : FwHeader.fwSize m start - (headerOffset + headerSize) = after.length := by
      rw [hfwSize, hafter, hoff]
      exact Nat.add_sub_cancel_left _ _
    have haddr : start + fieldsOffset + headerSize =
        start + (fieldsOffset + (4 + (4 + (4 + 4)))) := Nat.add_assoc _ _ _
    rw [h.before_length] at hbefore
    rw [coveredBytes, hrest, hoff, haddr, hbefore, hstored]
  have hwhole : after.length % 2 ^ 32 = after.length := Nat.mod_eq_of_lt (by omega)
  have hcontentCrc : contentCrc out = crc32 .stm32 (coveredBytes m start) := by
    have hword : 4 ∣ before.length := by
      rw [h.before_length]
      decide
    rw [hcovered, crc32, crc32End_append _ _ hword, ← ethUnit_eq, h.out_eq]
    rw [contentCrc_eq h.before_length (le32_length _) (le32_length _) (le32_length _)
      (le32_length _), hwhole, List.take_length]
    rfl
  constructor
  · exact hfwSize
  · rw [FwHeader.fwCrc32, readWord, hoff, Nat.add_assoc, hcrc, ← hcontentCrc]
    exact ofLe_le32 (UInt32.toNat_lt _)
  · rw [fieldsAddrOffset, readWord, hoff, Nat.add_assoc, hoffset]
    exact ofLe_le32 (by omega)
  · have htable := readBytes_drop hflash.stored
      (show (alignContent input).length ≤ out.length by omega)
    rw [h.drop_eq hinput] at htable
    exact (readBytes_append_iff.mp htable).1

end

/-! ## The verdict of the device -/

/-- The device finds the image sound, counts the arguments, and finds for each
key the value of the first argument with that key. -/
structure Accepted (m : Mem) (fw : FwInfo) (args : List Argument) : Prop where
  locked : (fwHeaderCheckRegion .stm32 m fw (maxSize fw.addr)).locked = .none
  fieldsCount : (fwHeaderCheckRegion .stm32 m fw (maxSize fw.addr)).fieldsCount = args.length
  values : ∀ key value, (argumentFields args).lookup key = some value →
    FlashString m (fwFieldsFindByKey m ((fw.addr + fieldsAddrOffset m fw.addr) % 2 ^ 32) key
      (maxSize fw.addr - fieldsAddrOffset m fw.addr)) value

section

variable {m : Mem} {fw : FwInfo} {t : FwType} {input out before after : List UInt8}
  {args : List Argument} {pad : Nat}

theorem Signed.isFieldTable (h : Signed input args out before after pad) {start : Nat}
    (hread : HeaderRead m start input args out) (hne : args ≠ []) {n : Nat}
    (hn : tableLength args ≤ n) :
    IsFieldTable m (start + fieldsAddrOffset m start) n (argumentFields args) where
  ne_nil := fun hnil => hne (List.map_eq_nil_iff.mp hnil)
  isString := h.isString
  stored := by
    rw [hread.offset]
    exact hread.stored
  fits := by
    rw [h.tableBytes_length]
    exact hn

/-- The device accepts a signed image exactly if its fields end before the region
that it scans for them does. -/
theorem signMain_accepted_iff (haddr : fw.addr = t.start)
    (hpattern : (input.drop fieldsOffset).take 16 = pattern)
    (hsign : signMain (signLimit t) input args = .ok out)
    (hlimit : out.length ≤ signLimit t) (hflash : Flashed m t.start out)
    (hprod : ((argumentFields args).lookup (literal "prod")).isSome)
    (hname : ((argumentFields args).lookup (literal "prod_name")).isSome) :
    Accepted m fw args ↔ input.length / 4 * 4 + 4 + tableLength args ≤ maxSize t.start := by
  obtain ⟨before, after, pad, h⟩ := signMain_ok hsign
  obtain ⟨hword, hlower, hupper⟩ := start_bounds t
  have hpadded := alignContent_length input
  have hinput : fieldsOffset + 16 ≤ (alignContent input).length := by
    have hlen := congrArg List.length hpattern
    rw [List.length_take, List.length_drop] at hlen
    have hpatternLen : pattern.length = 16 := rfl
    omega
  obtain ⟨htotal, hafter⟩ := h.length
  have hfits : t.start + out.length ≤ flashFinish := by
    cases t <;> simp only [signLimit, FwType.start, preldrStart, ldrStart, appStart,
      flashFinish] at hlimit ⊢ <;> omega
  have hlower' : 0x08000000 ≤ t.start := hlower
  have hfinish : flashFinish = 0x08080000 := rfl
  have hread := h.headerRead (m := m) hflash (by omega) hinput
  have hne : args ≠ [] := by
    rintro rfl
    simp [argumentFields] at hprod
  have hwrap : (t.start + fieldsAddrOffset m t.start) % 2 ^ 32 =
      t.start + fieldsAddrOffset m t.start := by
    rw [hread.offset]
    omega
  have hoffset := hread.offset
  constructor
  · intro haccepted
    obtain ⟨gs, hgs⟩ := (fwHeaderCheckRegion_locked_iff .stm32 m fw haddr).mp haccepted.locked
    rw [haddr] at hgs
    -- the table found is the one that was signed, so that this one fits
    have hlarge := h.isFieldTable hread hne (Nat.le_max_left (tableLength args)
      (maxSize t.start - fieldsAddrOffset m t.start))
    have hgsLarge : IsFieldTable m (t.start + fieldsAddrOffset m t.start)
        (max (tableLength args) (maxSize t.start - fieldsAddrOffset m t.start)) gs :=
      { hgs.table with fits := hgs.table.fits.trans (Nat.le_max_right _ _) }
    have hsame := hlarge.unique hgsLarge
    have htable := hgs.table.fits
    rw [← hsame, h.tableBytes_length, hread.offset] at htable
    have hpos : 0 < tableLength args := Nat.succ_pos _
    omega
  · intro hregion
    have htable := h.isFieldTable hread hne
      (show tableLength args ≤ maxSize t.start - fieldsAddrOffset m t.start by omega)
    have hok : RegionOk .stm32 m t.start (argumentFields args) := by
      refine ⟨?_, hlower, ?_, hread.fwCrc32.symm, htable, hprod, hname⟩
      · have hpos : 0 < tableLength args := Nat.succ_pos _
        rw [hread.fwSize]
        change fieldsOffset + 16 < _
        omega
      · rw [hread.fwSize]
        exact hfits
    rw [← haddr] at hok
    constructor
    · exact (fwHeaderCheckRegion_of_regionOk .stm32 m fw haddr hok).2
    · rw [fwHeaderCheckRegion_eq .stm32 m fw haddr hok]
      simp [checkFields, argumentFields]
    · intro key value hkey
      rw [haddr, hwrap]
      exact (fwFieldsFindByKey_some htable (by omega) (by omega) hkey).2

end

/-! ## Sample files -/

/-- Code that starts with the names of the images. -/
def sampleCode : List UInt8 := nameStrings ++ List.replicate 380 0

theorem sampleCode_length : sampleCode.length = fieldsOffset := by
  rw [sampleCode, List.length_append, List.length_replicate]
  decide +kernel

/-- An input file with `n` zero bytes behind the header. -/
def sampleInput (n : Nat) : List UInt8 := sampleCode ++ (pattern ++ List.replicate n 0)

theorem prodArg_ne_nul : ∀ b ∈ literal "prod=a", b ≠ 0 := by decide +kernel

theorem prodNameArg_ne_nul : ∀ b ∈ literal "prod_name=b", b ≠ 0 := by decide +kernel

def sampleArgs : List Argument :=
  [⟨literal "prod=a", prodArg_ne_nul⟩, ⟨literal "prod_name=b", prodNameArg_ne_nul⟩]

/-- A flash that holds a file. -/
def flashOf (start : Nat) (out : List UInt8) : Mem := fun a => out.getD (a - start) 0xFF

theorem flashOf_flashed (start : Nat) (out : List UInt8) :
    Flashed (flashOf start out) start out := by
  constructor
  rw [readBytes_eq_iff]
  intro i hi
  rw [flashOf, Nat.add_sub_cancel_left, List.getD_eq_getElem _ _ hi]

theorem sampleInput_pattern (n : Nat) (rest : List UInt8) :
    ((sampleInput n ++ rest).drop fieldsOffset).take 16 = pattern := by
  rw [sampleInput, List.append_assoc, List.append_assoc, List.drop_left' sampleCode_length]
  exact List.take_left' rfl

theorem sampleInput_length (n : Nat) : (sampleInput n).length = 416 + n := by
  simp only [sampleInput, List.length_append, sampleCode_length, List.length_replicate,
    fieldsOffset, pattern, le32_length]
  omega

theorem signMain_succeeds {limit : Int} {input content : List UInt8} {args : List Argument}
    (hpattern : (input.drop fieldsOffset).take 16 = pattern)
    (hfields : args.foldlM appendField (alignContent input) = .ok content)
    (hsmall : content.length < 2 ^ 30) (hlimit : ((alignContent content).length : Int) ≤ limit) :
    ∃ out, signMain limit input args = .ok out ∧
      out.length = (alignContent content).length := by
  have hlen := alignContent_length content
  have hpadded := alignContent_length input
  have hinput : fieldsOffset + 16 ≤ input.length := by
    have hlength := congrArg List.length hpattern
    rw [List.length_take, List.length_drop] at hlength
    have hsixteen : pattern.length = 16 := rfl
    omega
  have happend := (appendFields_ok hfields).1
  rw [alignContent_eq input, List.append_assoc] at happend
  have hcode : (((alignContent content).drop fieldsOffset).take 16) = pattern := by
    rw [alignContent_eq, happend, List.append_assoc, List.drop_append_of_le_length (by omega),
      List.take_append_of_le_length (by rw [List.length_drop]; omega)]
    exact hpattern
  have hbmod : Int.bmod ((alignContent content).length : Nat) (2 ^ 32) =
      (alignContent content).length := Int.bmod_eq_of_le (by omega) (by omega)
  unfold signMain
  simp only [hfields, hcode, ne_eq, not_true_eq_false, if_false]
  rw [if_neg (by omega), hbmod, if_neg (by omega)]
  refine ⟨_, rfl, ?_⟩
  have hlong : fieldsOffset + 12 ≤ (alignContent content).length := by
    have hcount := congrArg List.length happend
    rw [List.length_append] at hcount
    omega
  have hput : ∀ xs offset n, xs.length = (alignContent content).length →
      offset ≤ fieldsOffset + 8 → (putWord xs offset n).length =
        (alignContent content).length := by
    intro xs offset n hxs hoffset
    rw [putWord_length (by omega), hxs]
  exact hput _ _ _ (hput _ _ _ (hput _ _ _ rfl (by omega)) (by omega)) (by omega)

theorem signMain_sample {n : Nat} (hword : n % 4 = 0) (hn : 440 + n ≤ signLimit .app) :
    ∃ out, signMain (signLimit .app) (sampleInput n) sampleArgs = .ok out ∧
      out.length = 440 + n := by
  have hfields : ∀ content, sampleArgs.foldlM appendField content =
      .ok (content ++ (strings (argumentFields sampleArgs)).flatMap (· ++ [0])) := by
    intro content
    change Except.ok _ = Except.ok _
    rw [List.append_assoc]
    rfl
  have hpattern := sampleInput_pattern n []
  rw [List.append_nil] at hpattern
  have hcontent := hfields (alignContent (sampleInput n))
  have hflat : ((strings (argumentFields sampleArgs)).flatMap (· ++ [0])).length = 19 := rfl
  have hpadded := alignContent_length (sampleInput n)
  rw [sampleInput_length] at hpadded
  have hlen : (alignContent (sampleInput n) ++
      (strings (argumentFields sampleArgs)).flatMap (· ++ [0])).length = 439 + n := by
    rw [List.length_append, hpadded, hflat]
    omega
  have halign := alignContent_length (alignContent (sampleInput n) ++
    (strings (argumentFields sampleArgs)).flatMap (· ++ [0]))
  rw [hlen] at halign
  have hlimit : signLimit .app = 393216 := rfl
  obtain ⟨out, hout, houtlen⟩ := @signMain_succeeds (signLimit .app) _ _ _ hpattern hcontent
    (by omega) (by omega)
  exact ⟨out, hout, by omega⟩

/-- A short image is accepted. -/
theorem signMain_accepted_sample :
    ∃ out, signMain (signLimit .app) (sampleInput 0) sampleArgs = .ok out ∧
      Accepted (flashOf appStart out) { addr := appStart } sampleArgs := by
  obtain ⟨out, hsign, hlen⟩ := @signMain_sample 0 (by decide) (by decide)
  have hpattern := sampleInput_pattern 0 []
  rw [List.append_nil] at hpattern
  refine ⟨out, hsign, ?_⟩
  refine (@signMain_accepted_iff _ { addr := appStart } .app _ _ _ rfl hpattern hsign ?_
    (flashOf_flashed appStart out) (by decide) (by decide)).mpr ?_
  · rw [hlen]
    decide
  · rw [sampleInput_length]
    decide

/-- An image that fills the application's partition to the last 400 bytes passes the
signer and is refused by the device. -/
theorem not_accepted_large :
    ¬ ∀ (t : FwType) (input : List UInt8) (args : List Argument) (out : List UInt8) (m : Mem),
      (input.drop fieldsOffset).take 16 = pattern →
      signMain (signLimit t) input args = .ok out → out.length ≤ signLimit t →
      Flashed m t.start out →
      ((argumentFields args).lookup (literal "prod")).isSome →
      ((argumentFields args).lookup (literal "prod_name")).isSome →
      Accepted m { addr := t.start } args := by
  intro hall
  obtain ⟨out, hsign, hlen⟩ := @signMain_sample 392400 (by decide) (by decide)
  have hpattern := sampleInput_pattern 392400 []
  rw [List.append_nil] at hpattern
  have hlimit : out.length ≤ signLimit .app := by
    rw [hlen]
    decide
  have hflash := flashOf_flashed appStart out
  have haccepted := hall .app _ _ out _ hpattern hsign hlimit hflash (by decide) (by decide)
  have hregion := (@signMain_accepted_iff _ { addr := appStart } .app _ _ _ rfl hpattern hsign
    hlimit hflash (by decide) (by decide)).mp haccepted
  have htable : tableLength sampleArgs = 20 := rfl
  rw [sampleInput_length, htable] at hregion
  exact absurd hregion (by decide)

end ShGateway.SignedImage
