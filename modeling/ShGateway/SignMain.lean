import ShGateway.SignedImage

/-!
`main` of `sign.c` with the block that holds the content, on a host whose files and memory may
fail.
-/

namespace ShGateway.SignMain

open ShGateway.Crc
open ShGateway.Lib.ByteWords
open ShGateway.Sign
open ShGateway.SignedImage

/-! ## The host -/

/-- The files that can be opened, the numbers that `atoi` reads, the largest block that can be had,
what is found in a new block, how many bytes `fread` and `fwrite` take, and how many of those
written have reached the file once `fclose` has flushed them. Each block that the program asks
for is larger than the one before. -/
structure Host where
  inputFile : Argument → Option (List UInt8)
  outputFile : Argument → Bool
  atoi : Argument → Int
  room : Nat
  heap : Nat → UInt8
  read : Nat
  written : Nat
  flushed : Nat

/-- The program leaves the block, or it exits with a code and has written some bytes. -/
inductive Stop
  | outside
  | exit (code : Nat) (out : List UInt8)

def int32 (x : Int) : Int := Int.bmod x (2 ^ 32)

def realloc (host : Host) (block : List UInt8) (n : Nat) : Option (List UInt8) :=
  if n ≤ host.room then
    some (block.take n ++ (List.range' block.length (n - block.length)).map host.heap)
  else none

/-- An access to `n` bytes of the block. -/
def inside (block : List UInt8) (offset n : Nat) : Except Stop Unit :=
  if offset + n ≤ block.length then .ok () else .error .outside

def memcpy (block : List UInt8) (offset : Nat) (bytes : List UInt8) :
    Except Stop (List UInt8) := do
  inside block offset bytes.length
  pure (block.take offset ++ bytes ++ block.drop (offset + bytes.length))

def store (block : List UInt8) (i : Nat) (b : UInt8) : Except Stop (List UInt8) := do
  inside block i 1
  pure (block.set i b)

def storeWord (block : List UInt8) (offset n : Nat) : Except Stop (List UInt8) := do
  inside block offset 4
  pure (putWord block offset n)

/-! ## The program -/

/-- The null pointer, which `malloc` may return unchecked, is the block of no bytes. -/
def readContent (host : Host) (input : List UInt8) : Except Stop (List UInt8) := do
  let content := (realloc host [] input.length).getD []
  let content ← memcpy content 0 (input.take host.read)
  if int32 (input.take host.read).length ≠ int32 input.length then .error (.exit 2 [])
  else pure content

/-- The loops that append at least one zero byte, up to a word boundary. -/
def alignLoop (host : Host) (content : List UInt8) (contentLength : Nat) :
    Except Stop (List UInt8 × Nat) :=
  match realloc host content (contentLength + 1) with
  | none => .error (.exit 6 [])
  | some content =>
      match store content contentLength 0 with
      | .error stop => .error stop
      | .ok content =>
          if (contentLength + 1) % 4 = 0 then .ok (content, contentLength + 1)
          else alignLoop host content (contentLength + 1)
termination_by 3 - contentLength % 4
decreasing_by omega

/-- The argument is appended with `size` bytes, and its first `=` is overwritten. -/
def appendSized (host : Host) (content : List UInt8 × Nat) (arg : Argument) (delim size : Nat) :
    Except Stop (List UInt8 × Nat) :=
  match realloc host content.1 (content.2 + size) with
  | none => .error (.exit 5 [])
  | some block => do
      let block ← memcpy block content.2 ((arg.chars ++ [0]).take size)
      let block ← store block (content.2 + delim) 0
      pure (block, content.2 + size)

/-- The `size` of an argument in `main`. -/
def argSize (arg : Argument) : Int := int32 (int32 arg.chars.length + 1)

/-- The body of the loop over the fields. -/
def appendArg (host : Host) (content : List UInt8 × Nat) (arg : Argument) :
    Except Stop (List UInt8 × Nat) :=
  match arg.chars.findIdx? (· = 61) with
  | none => .error (.exit 3 [])
  | some delim =>
      if int32 delim ≤ 0 ∨ int32 arg.chars.length ≤ int32 (int32 delim + 1) then
        .error (.exit 3 [])
      else if argSize arg ≤ 0 then .error (.exit 4 [])
      else appendSized host content arg delim (argSize arg).toNat

/-- The stores into the header; the loops of the checksum read whole words. -/
def storeHeader (content : List UInt8) (contentLength fieldsAddrOffset : Nat) :
    Except Stop (List UInt8) := do
  let content ← storeWord content fieldsOffset contentLength
  let content ← storeWord content (fieldsOffset + 8) fieldsAddrOffset
  inside content 0 fieldsOffset
  inside content (fieldsOffset + 16) ((contentLength - (fieldsOffset + 16)) % 2 ^ 32 / 4 * 4)
  storeWord content (fieldsOffset + 4) (contentCrc content).toNat

/-- Whether `fclose` succeeds is not looked at. -/
def writeOutput (host : Host) (lengthLimit : Int) (content : List UInt8) (contentLength : Nat) :
    Except Stop (List UInt8) :=
  if lengthLimit < int32 contentLength then .error (.exit 8 [])
  else do
    inside content 0 contentLength
    if min contentLength host.written ≠ contentLength then
      .error (.exit 9 ((content.take host.written).take host.flushed))
    else pure ((content.take contentLength).take host.flushed)

/-- The rest of `main` once the content is complete. -/
def signBlock (host : Host) (lengthLimit : Int) (fieldsAddrOffset : Nat) (content : List UInt8)
    (contentLength : Nat) : Except Stop (List UInt8) := do
  inside content fieldsOffset 16
  if (content.drop fieldsOffset).take 16 ≠ pattern then .error (.exit 7 [])
  else
    let content ← storeHeader content contentLength fieldsAddrOffset
    writeOutput host lengthLimit content contentLength

/-- The loop over the fields and the rest, for an input that has been aligned. -/
def signFields (host : Host) (lengthLimit : Int) (fields : List Argument)
    (content : List UInt8 × Nat) : Except Stop (List UInt8) :=
  if content.2 < fieldsOffset + 4 then .error (.exit 7 [])
  else do
    let fieldsAddrOffset := content.2
    let content ← fields.foldlM (appendArg host) content
    let content ← alignLoop host content.1 content.2
    signBlock host lengthLimit fieldsAddrOffset content.1 content.2

/-- `main` once the files are open. -/
def signFile (host : Host) (lengthLimit : Int) (input : List UInt8) (fields : List Argument) :
    Except Stop (List UInt8) := do
  let content ← readContent host input
  let content ← alignLoop host content input.length
  signFields host lengthLimit fields content

/-- The content of the output file if the program exits with 0. -/
def main (host : Host) : List Argument → Except Stop (List UInt8)
  | _ :: inputFile :: outputFile :: limit :: fields =>
      match host.inputFile inputFile with
      | none => .error (.exit 2 [])
      | some input =>
          if host.outputFile outputFile then signFile host (host.atoi limit) input fields
          else .error (.exit 2 [])
  | _ => .error (.exit 1 [])

/-! ## What the program is to do -/

/-- One to four zero bytes, up to a word boundary. -/
def padded (bytes : List UInt8) : List UInt8 := bytes ++ List.replicate (4 - bytes.length % 4) 0

/-- The first `=` becomes a zero byte, and another one follows. -/
def fieldBytes (arg : Argument) : List UInt8 :=
  (argumentField arg).1 ++ 0 :: ((argumentField arg).2 ++ [0])

/-- The output but for its header. -/
def expected (input : List UInt8) (fields : List Argument) : List UInt8 :=
  padded (padded input ++ fields.flatMap fieldBytes)

structure Faithful (input : List UInt8) (fields : List Argument) (out : List UInt8) : Prop where
  length : out.length = (expected input fields).length
  before : out.take fieldsOffset = (expected input fields).take fieldsOffset
  after : out.drop (fieldsOffset + 16) = (expected input fields).drop (fieldsOffset + 16)
  fwSize : ofLe ((out.drop fieldsOffset).take 4) = out.length
  fwCrc32 : ofLe ((out.drop (fieldsOffset + 4)).take 4) =
    (crc32 ethUnit (out.take fieldsOffset ++ out.drop (fieldsOffset + 16))).toNat
  fieldsAddrOffset : ofLe ((out.drop (fieldsOffset + 8)).take 4) = (padded input).length

/-- The program has kept to the block, and what it has written is faithful, or nothing unless the
final write failed. -/
def Sound (result : Except Stop (List UInt8)) (input : List UInt8) (fields : List Argument) :
    Prop :=
  match result with
  | .error .outside => False
  | .error (.exit code out) => code ≠ 0 ∧ (code ≠ 9 → out = [])
  | .ok out => Faithful input fields out

/-- An argument has a key and a value. -/
def Valid (arg : Argument) : Prop :=
  ∃ delim, arg.chars.findIdx? (· = 61) = some delim ∧ 0 < delim ∧ delim + 1 < arg.chars.length

/-- The content of the input file as far as it has been read. -/
def contentRead (host : Host) (input : List UInt8) : List UInt8 :=
  input.take host.read ++
    ((List.range' 0 input.length).map host.heap).drop (input.take host.read).length

/-- The program comes to the comparison of the header with the pattern. -/
structure Reaches (host : Host) (input : List UInt8) (fields : List Argument) : Prop where
  read : int32 (input.take host.read).length = int32 input.length
  large : fieldsOffset + 4 ≤ (padded input).length
  valid : ∀ arg ∈ fields, Valid arg
  room : (expected input fields).length ≤ host.room

/-- There is memory for the input, there is room for a header behind the offset, and if there is
a pattern and all has been written, the file is not too long for the word that holds its length
and all of it is flushed. -/
structure Fits (host : Host) (lengthLimit : Int) (input : List UInt8) (fields : List Argument) :
    Prop where
  memory : input.length ≤ host.room ∨ input.take host.read = []
  header : Reaches host input fields → fieldsOffset + 16 ≤ (expected input fields).length
  output : Reaches host input fields →
    ((expected (contentRead host input) fields).drop fieldsOffset).take 16 = pattern →
    int32 (expected input fields).length ≤ lengthLimit →
    (expected input fields).length ≤ host.written →
      (expected input fields).length < 2 ^ 32 ∧ (expected input fields).length ≤ host.flushed

/-! ## The loops -/

/-- The program exits with an error before it writes anything. -/
def Quiet {α : Type} (result : Except Stop α) : Prop :=
  ∃ code, result = .error (.exit code []) ∧ code ≠ 0 ∧ code ≠ 9

section

variable {host : Host} {content : List UInt8} {n : Nat} {arg : Argument} {fields : List Argument}

theorem padded_length (bytes : List UInt8) : (padded bytes).length = bytes.length / 4 * 4 + 4 := by
  rw [padded, ← alignContent_eq, alignContent_length]

theorem alignLoop_step (hn : content.length = n) (hroom : n + 1 ≤ host.room) :
    alignLoop host content n =
      if (n + 1) % 4 = 0 then .ok (content ++ [0], n + 1)
      else alignLoop host (content ++ [0]) (n + 1) := by
  subst hn
  have hstore : store (content ++ [host.heap content.length]) content.length 0 =
      .ok (content ++ [0]) := by
    rw [store, inside, if_pos (by simp)]
    change Except.ok _ = _
    simp
  rw [alignLoop, realloc, if_pos hroom, List.take_of_length_le (by omega), Nat.add_sub_cancel_left]
  change (match store (content ++ [host.heap content.length]) content.length 0 with
    | .error stop => _
    | .ok content => _) = _
  rw [hstore]

theorem alignLoop_full (hroom : host.room < n + 1) : Quiet (alignLoop host content n) := by
  rw [alignLoop, realloc, if_neg (by omega)]
  exact ⟨6, rfl, by decide, by decide⟩

theorem alignLoop_cases (host : Host) (content : List UInt8) (hn : content.length = n) :
    (padded content).length ≤ host.room ∧
        alignLoop host content n = .ok (padded content, (padded content).length) ∨
      ¬ (padded content).length ≤ host.room ∧ Quiet (alignLoop host content n) := by
  have hpadded : padded content = alignContent content := (alignContent_eq content).symm
  rw [hpadded]
  clear hpadded
  induction content using alignContent.induct generalizing n with
  | case1 content h =>
      rw [alignContent, if_pos h, List.length_append, List.length_singleton, hn]
      rcases Nat.lt_or_ge host.room (n + 1) with hfull | hroom
      · exact .inr ⟨by omega, alignLoop_full hfull⟩
      · rw [List.length_append, List.length_singleton, hn] at h
        refine .inl ⟨hroom, ?_⟩
        rw [alignLoop_step hn hroom, if_pos h]
  | case2 content h ih =>
      rw [alignContent, if_neg h]
      rcases Nat.lt_or_ge host.room (n + 1) with hfull | hroom
      · refine .inr ⟨?_, alignLoop_full hfull⟩
        rw [alignContent_length, List.length_append, List.length_singleton, hn]
        omega
      · rw [List.length_append, List.length_singleton, hn] at h
        rw [alignLoop_step hn hroom, if_neg h]
        exact ih (by rw [List.length_append, List.length_singleton, hn])

theorem int32_eq {x : Int} (hlo : 0 ≤ x) (hhi : x < 2 ^ 31) : int32 x = x :=
  Int.bmod_eq_of_le (by omega) (by omega)

theorem memcpy_realloc {bytes : List UInt8} (hn : content.length = n)
    (hroom : n + bytes.length ≤ host.room) :
    ∃ block, realloc host content (n + bytes.length) = some block ∧
      memcpy block n bytes = .ok (content ++ bytes) := by
  subst hn
  refine ⟨_, if_pos hroom, ?_⟩
  rw [List.take_of_length_le (by omega), Nat.add_sub_cancel_left, memcpy, inside, if_pos (by simp)]
  change Except.ok _ = _
  rw [List.take_left, List.drop_of_length_le (by simp), List.append_nil]

theorem set_delim {delim : Nat} (hdelim : arg.chars.findIdx? (· = 61) = some delim)
    (hpos : 0 < delim) (hlt : delim + 1 < arg.chars.length) :
    (arg.chars ++ [0]).set delim 0 = fieldBytes arg := by
  have hfield : appendField [] arg = .ok ([] ++ (arg.chars ++ [0]).set delim 0) := by
    rw [appendField, hdelim]
    exact if_neg (by omega)
  exact (appendField_ok hfield).1

theorem appendSized_cases {delim : Nat} (hn : content.length = n)
    (hdelim : arg.chars.findIdx? (· = 61) = some delim) (hpos : 0 < delim)
    (hlt : delim + 1 < arg.chars.length) :
    n + (arg.chars.length + 1) ≤ host.room ∧
        appendSized host (content, n) arg delim (arg.chars.length + 1) =
          .ok (content ++ fieldBytes arg, n + (arg.chars.length + 1)) ∨
      ¬ n + (arg.chars.length + 1) ≤ host.room ∧
        Quiet (appendSized host (content, n) arg delim (arg.chars.length + 1)) := by
  have hbytes : (arg.chars ++ [0]).length = arg.chars.length + 1 := by simp
  rw [← hbytes]
  rcases Nat.lt_or_ge host.room (n + (arg.chars ++ [0]).length) with hfull | hroom
  · rw [appendSized, realloc, if_neg (by omega)]
    exact .inr ⟨by omega, 5, rfl, by decide, by decide⟩
  · obtain ⟨block, hblock, hcopy⟩ := memcpy_realloc hn hroom
    refine .inl ⟨hroom, ?_⟩
    rw [appendSized, hblock]
    change (do
      let block ← memcpy block n ((arg.chars ++ [0]).take (arg.chars ++ [0]).length)
      let block ← store block (n + delim) 0
      pure (block, n + (arg.chars ++ [0]).length)) = _
    rw [List.take_length, hcopy]
    change (do
      let block ← store (content ++ (arg.chars ++ [0])) (n + delim) 0
      pure (block, n + (arg.chars ++ [0]).length)) = _
    rw [store, inside, if_pos (by rw [List.length_append, hn]; omega), ← hn]
    change Except.ok _ = _
    rw [List.set_append_right _ _ (by omega), Nat.add_sub_cancel_left,
      set_delim hdelim hpos hlt]

theorem appendArg_none (hdelim : arg.chars.findIdx? (· = 61) = none) :
    appendArg host (content, n) arg = .error (.exit 3 []) := by
  rw [appendArg, hdelim]

theorem appendArg_some {delim : Nat} (hdelim : arg.chars.findIdx? (· = 61) = some delim) :
    appendArg host (content, n) arg =
      if int32 delim ≤ 0 ∨ int32 arg.chars.length ≤ int32 (int32 delim + 1) then
        .error (.exit 3 [])
      else if argSize arg ≤ 0 then .error (.exit 4 [])
      else appendSized host (content, n) arg delim (argSize arg).toNat := by
  rw [appendArg, hdelim]

theorem appendArg_cases (host : Host) (hn : content.length = n)
    (harg : arg.chars.length + 1 < 2 ^ 31) :
    (Valid arg ∧ n + (arg.chars.length + 1) ≤ host.room) ∧
        appendArg host (content, n) arg =
          .ok (content ++ fieldBytes arg, n + (arg.chars.length + 1)) ∨
      ¬ (Valid arg ∧ n + (arg.chars.length + 1) ≤ host.room) ∧
        Quiet (appendArg host (content, n) arg) := by
  cases hdelim : arg.chars.findIdx? (· = 61) with
  | none =>
      rw [appendArg_none hdelim]
      refine .inr ⟨?_, 3, rfl, by decide, by decide⟩
      rintro ⟨⟨delim, hsome, -⟩, -⟩
      rw [hdelim] at hsome
      cases hsome
  | some delim =>
      obtain ⟨hlt, -⟩ := List.findIdx?_eq_some_iff_findIdx_eq.mp hdelim
      have hidx : int32 delim = delim := int32_eq (by omega) (by omega)
      have hlen : int32 arg.chars.length = arg.chars.length := int32_eq (by omega) (by omega)
      have hsucc : int32 (int32 delim + 1) = delim + 1 := by
        rw [hidx, int32_eq (by omega) (by omega)]
      have hsize : argSize arg = arg.chars.length + 1 := by
        rw [argSize, hlen, int32_eq (by omega) (by omega)]
      have hnat : (argSize arg).toNat = arg.chars.length + 1 := by omega
      rw [appendArg_some hdelim]
      split_ifs with hformat hzero
      · refine .inr ⟨?_, 3, rfl, by decide, by decide⟩
        rintro ⟨⟨delim', hsome, hpos, hle⟩, -⟩
        obtain rfl := Option.some.inj (hdelim.symm.trans hsome)
        omega
      · omega
      · have hpos : 0 < delim := by omega
        have hle : delim + 1 < arg.chars.length := by omega
        rw [hnat, and_iff_right (show Valid arg from ⟨delim, hdelim, hpos, hle⟩)]
        exact appendSized_cases hn hdelim hpos hle

theorem fieldBytes_length (hvalid : Valid arg) :
    (fieldBytes arg).length = arg.chars.length + 1 := by
  obtain ⟨delim, hdelim, hpos, hlt⟩ := hvalid
  rw [← set_delim hdelim hpos hlt, List.length_set, List.length_append, List.length_singleton]

theorem appendArgs_cases (host : Host) (hn : content.length = n) (hroom : n ≤ host.room)
    (hfields : ∀ arg ∈ fields, arg.chars.length + 1 < 2 ^ 31) :
    ((∀ arg ∈ fields, Valid arg) ∧ (content ++ fields.flatMap fieldBytes).length ≤ host.room) ∧
        fields.foldlM (appendArg host) (content, n) =
          .ok (content ++ fields.flatMap fieldBytes,
            (content ++ fields.flatMap fieldBytes).length) ∨
      ¬ ((∀ arg ∈ fields, Valid arg) ∧
          (content ++ fields.flatMap fieldBytes).length ≤ host.room) ∧
        Quiet (fields.foldlM (appendArg host) (content, n)) := by
  induction fields generalizing content n with
  | nil =>
      rw [List.flatMap_nil, List.append_nil, hn]
      exact .inl ⟨⟨nofun, hroom⟩, rfl⟩
  | cons arg fields ih =>
      rw [List.foldlM_cons, List.flatMap_cons, ← List.append_assoc]
      rcases appendArg_cases host hn (hfields arg (by simp)) with
        ⟨⟨hvalid, hfits⟩, hok⟩ | ⟨hnot, code, herror, hcode⟩
      · have hlen : (content ++ fieldBytes arg).length = n + (arg.chars.length + 1) := by
          rw [List.length_append, hn, fieldBytes_length hvalid]
        rw [hok]
        rcases ih hlen hfits fun arg' h => hfields arg' (by simp [h]) with
          ⟨⟨hall, hrest⟩, hok⟩ | ⟨hnot, hquiet⟩
        · refine .inl ⟨⟨?_, hrest⟩, hok⟩
          intro arg' hmem
          rcases List.mem_cons.mp hmem with rfl | hmem
          · exact hvalid
          · exact hall arg' hmem
        · refine .inr ⟨?_, hquiet⟩
          rintro ⟨hall, hrest⟩
          exact hnot ⟨fun arg' hmem => hall arg' (by simp [hmem]), hrest⟩
      · refine .inr ⟨?_, code, by rw [herror]; rfl, hcode⟩
        rintro ⟨hall, hrest⟩
        have hvalid := hall arg (by simp)
        rw [List.length_append, List.length_append, hn, fieldBytes_length hvalid] at hrest
        exact hnot ⟨hvalid, by omega⟩

end

/-! ## The stages -/

section

variable {host : Host} {input content : List UInt8} {n : Nat} {fields : List Argument}
  {lengthLimit : Int}

theorem Quiet.bind {α β : Type} {result : Except Stop α} (h : Quiet result)
    (f : α → Except Stop β) : Quiet (result >>= f) := by
  obtain ⟨code, rfl, hcode⟩ := h
  exact ⟨code, rfl, hcode⟩

theorem contentRead_length (host : Host) (input : List UInt8) :
    (contentRead host input).length = input.length := by
  rw [contentRead, List.length_append, List.length_drop, List.length_map, List.length_range',
    List.length_take]
  omega

theorem expected_length {content : List UInt8} (h : content.length = input.length)
    (fields : List Argument) :
    (expected content fields).length = (expected input fields).length := by
  rw [expected, expected, padded_length, padded_length, List.length_append, List.length_append,
    padded_length, padded_length, h]

theorem contentRead_eq (hlt : input.length < 2 ^ 32)
    (hread : int32 (input.take host.read).length = int32 input.length) :
    contentRead host input = input := by
  have hmod := congrArg (· % 2 ^ 32) hread
  change Int.bmod _ (2 ^ 32) % (2 ^ 32 : Nat) = Int.bmod _ (2 ^ 32) % (2 ^ 32 : Nat) at hmod
  rw [Int.bmod_emod, Int.bmod_emod, List.length_take] at hmod
  have hle : input.length ≤ host.read := by omega
  rw [contentRead, List.take_of_length_le hle, List.drop_of_length_le (by simp), List.append_nil]

theorem readContent_cases (host : Host) (input : List UInt8) :
    (¬ (input.length ≤ host.room ∨ input.take host.read = []) ∧
        readContent host input = .error .outside) ∨
      (input.length ≤ host.room ∨ input.take host.read = []) ∧
        (int32 (input.take host.read).length ≠ int32 input.length ∧
            Quiet (readContent host input) ∨
          int32 (input.take host.read).length = int32 input.length ∧
            ∃ content, readContent host input = .ok content ∧
              (input.length ≤ host.room → content = contentRead host input)) := by
  have hrest : ∀ content, memcpy ((realloc host [] input.length).getD []) 0
      (input.take host.read) = .ok content → readContent host input =
        if int32 (input.take host.read).length ≠ int32 input.length then .error (.exit 2 [])
        else pure content := by
    intro content hcopy
    rw [readContent, hcopy]
    exact pure_bind content _
  have hcases : ∀ content, readContent host input =
      (if int32 (input.take host.read).length ≠ int32 input.length then .error (.exit 2 [])
        else pure content) → (input.length ≤ host.room → content = contentRead host input) →
      int32 (input.take host.read).length ≠ int32 input.length ∧ Quiet (readContent host input) ∨
        int32 (input.take host.read).length = int32 input.length ∧
          ∃ content, readContent host input = .ok content ∧
            (input.length ≤ host.room → content = contentRead host input) := by
    intro content hread hcontent
    rw [hread]
    split_ifs with hne
    · exact .inl ⟨hne, 2, rfl, by decide, by decide⟩
    · exact .inr ⟨not_not.mp hne, content, rfl, hcontent⟩
  rcases Nat.lt_or_ge host.room input.length with hfull | hroom
  · have hnull : (realloc host [] input.length).getD [] = [] := by
      rw [realloc, if_neg (by omega), Option.getD_none]
    rcases eq_or_ne (input.take host.read) [] with hnone | hsome
    · refine .inr ⟨.inr hnone, hcases [] (hrest [] ?_) fun h => absurd h (by omega)⟩
      rw [hnull, hnone]
      rfl
    · refine .inl ⟨fun h => h.elim (by omega) hsome, ?_⟩
      have hpos := List.length_pos_of_ne_nil hsome
      rw [readContent, hnull, memcpy, inside, if_neg (by rw [List.length_nil]; omega)]
      rfl
  · refine .inr ⟨.inl hroom, hcases (contentRead host input) (hrest _ ?_) fun _ => rfl⟩
    have hle : (input.take host.read).length ≤ input.length := by
      rw [List.length_take]
      omega
    rw [realloc, if_pos hroom, Option.getD_some, memcpy, inside, if_pos (by simp)]
    simp [contentRead]

end

/-! ## The header -/

section

variable {host : Host} {content : List UInt8} {n addr : Nat} {lengthLimit : Int}

/-- The content with its header. -/
def withHeader (content : List UInt8) (fieldsAddrOffset : Nat) : List UInt8 :=
  let content' := putWord (putWord content fieldsOffset content.length) (fieldsOffset + 8)
    fieldsAddrOffset
  putWord content' (fieldsOffset + 4) (contentCrc content').toNat

theorem storeWord_ok {offset : Nat} (h : offset + 4 ≤ content.length) (n : Nat) :
    storeWord content offset n = .ok (putWord content offset n) := by
  rw [storeWord, inside, if_pos h]
  rfl

theorem withHeader_length (h : fieldsOffset + 16 ≤ content.length) (addr : Nat) :
    (withHeader content addr).length = content.length := by
  have hfirst : ∀ n, (putWord content fieldsOffset n).length = content.length :=
    fun n => putWord_length (by omega)
  have hsecond : ∀ n, (putWord (putWord content fieldsOffset n) (fieldsOffset + 8) addr).length =
      content.length := fun n => (putWord_length (by rw [hfirst]; omega)).trans (hfirst n)
  rw [withHeader, putWord_length (by rw [hsecond]; omega), hsecond]

/-- The program stops with an error, and has written nothing unless that was the final write. -/
def Stopped (result : Except Stop (List UInt8)) : Prop :=
  ∃ code out, result = .error (.exit code out) ∧ code ≠ 0 ∧ (code ≠ 9 → out = [])

theorem Quiet.stopped {result : Except Stop (List UInt8)} (h : Quiet result) : Stopped result := by
  obtain ⟨code, rfl, hzero, -⟩ := h
  exact ⟨code, [], rfl, hzero, fun _ => rfl⟩

theorem inside_ok {offset : Nat} (h : offset + n ≤ content.length) :
    inside content offset n = pure () := if_pos h

theorem storeHeader_ok (h : fieldsOffset + 16 ≤ content.length) (addr : Nat) :
    storeHeader content content.length addr = .ok (withHeader content addr) := by
  have hfirst : (putWord content fieldsOffset content.length).length = content.length :=
    putWord_length (by omega)
  have hsecond : (putWord (putWord content fieldsOffset content.length) (fieldsOffset + 8)
      addr).length = content.length := (putWord_length (by omega)).trans hfirst
  rw [storeHeader, storeWord_ok (by omega)]
  refine (pure_bind (m := Except Stop) _ _).trans ?_
  rw [storeWord_ok (by omega)]
  refine (pure_bind (m := Except Stop) _ _).trans ?_
  rw [inside_ok (by omega), pure_bind, inside_ok (by omega), pure_bind, storeWord_ok (by omega)]
  rfl

theorem writeOutput_eq (h : content.length = n) :
    writeOutput host lengthLimit content n =
      if lengthLimit < int32 n then .error (.exit 8 [])
      else if min n host.written ≠ n then
        .error (.exit 9 ((content.take host.written).take host.flushed))
      else pure (content.take host.flushed) := by
  rw [writeOutput, inside_ok (by omega), pure_bind, List.take_of_length_le h.le]

theorem signBlock_short (h : content.length < fieldsOffset + 16) :
    signBlock host lengthLimit addr content content.length = .error .outside := by
  rw [signBlock, inside, if_neg (by omega)]
  rfl

theorem signBlock_cases (host : Host) (lengthLimit : Int)
    (h : fieldsOffset + 16 ≤ content.length) (addr : Nat) :
    ((content.drop fieldsOffset).take 16 = pattern ∧ int32 content.length ≤ lengthLimit ∧
          content.length ≤ host.written) ∧
        signBlock host lengthLimit addr content content.length =
          .ok ((withHeader content addr).take host.flushed) ∨
      ¬ ((content.drop fieldsOffset).take 16 = pattern ∧ int32 content.length ≤ lengthLimit ∧
          content.length ≤ host.written) ∧
        Stopped (signBlock host lengthLimit addr content content.length) := by
  rw [signBlock, inside_ok h, pure_bind]
  split_ifs with hpattern
  · exact .inr ⟨fun hok => hpattern hok.1, 7, [], rfl, by decide, fun _ => rfl⟩
  · have hwrite : (do
        let content' ← storeHeader content content.length addr
        writeOutput host lengthLimit content' content.length) =
          writeOutput host lengthLimit (withHeader content addr) content.length := by
      rw [storeHeader_ok h]
      exact pure_bind (m := Except Stop) _ _
    rw [hwrite, writeOutput_eq (withHeader_length h addr), and_iff_right (not_not.mp hpattern)]
    split_ifs with hlimit hwritten
    · exact .inr ⟨fun hok => absurd hok.1 (not_le.mpr hlimit), 8, [], rfl, by decide, fun _ => rfl⟩
    · exact .inr ⟨fun hok => by omega, 9, _, rfl, by decide, fun hne => absurd rfl hne⟩
    · exact .inl ⟨⟨not_lt.mp hlimit, by omega⟩, rfl⟩

theorem header_parts {before a b c d : List UInt8} (after : List UInt8)
    (hbefore : before.length = fieldsOffset) (ha : a.length = 4) (hb : b.length = 4)
    (hc : c.length = 4) (hd : d.length = 4) :
    let out := before ++ (a ++ (b ++ (c ++ (d ++ after))))
    out.take fieldsOffset = before ∧ (out.drop fieldsOffset).take 4 = a ∧
      (out.drop (fieldsOffset + 4)).take 4 = b ∧ (out.drop (fieldsOffset + 8)).take 4 = c ∧
      out.drop (fieldsOffset + 16) = after := by
  intro out
  have hdrop : ∀ n, out.drop (fieldsOffset + n) = (a ++ (b ++ (c ++ (d ++ after)))).drop n := by
    intro n
    rw [← List.drop_drop, List.drop_left' hbefore]
  refine ⟨List.take_left' hbefore, ?_, ?_, ?_, ?_⟩
  · rw [List.drop_left' hbefore, List.take_left' ha]
  · rw [hdrop, List.drop_left' ha, List.take_left' hb]
  · rw [hdrop, ← List.append_assoc a b, List.drop_left' (by simp [ha, hb]), List.take_left' hc]
  · rw [hdrop, ← List.append_assoc a b, ← List.append_assoc (a ++ b) c,
      ← List.append_assoc (a ++ b ++ c) d, List.drop_left' (by simp [ha, hb, hc, hd])]

theorem withHeader_eq (h : fieldsOffset + 16 ≤ content.length) (addr : Nat) :
    ∃ d : List UInt8, d.length = 4 ∧ withHeader content addr = content.take fieldsOffset ++
      (le32 content.length ++ (le32 (crc32End ethUnit
        (crc32Start ethUnit (content.take fieldsOffset))
        ((content.drop (fieldsOffset + 16)).take
          ((content.drop (fieldsOffset + 16)).length % 2 ^ 32))).toNat ++
        (le32 addr ++ (d ++ content.drop (fieldsOffset + 16))))) := by
  have hbefore : (content.take fieldsOffset).length = fieldsOffset := by
    rw [List.length_take]
    omega
  have hword : ∀ n, n + 4 ≤ 16 → ((content.drop (fieldsOffset + n)).take 4).length = 4 := by
    intro n hn
    rw [List.length_take, List.length_drop]
    omega
  have hsplit : ∀ n, content.drop (fieldsOffset + n) =
      (content.drop (fieldsOffset + n)).take 4 ++ content.drop (fieldsOffset + (n + 4)) := by
    intro n
    rw [← Nat.add_assoc, ← List.drop_drop (i := 4) (j := fieldsOffset + n), List.take_append_drop]
  have hcontent : content = content.take fieldsOffset ++
      ((content.drop (fieldsOffset + 0)).take 4 ++ ((content.drop (fieldsOffset + 4)).take 4 ++
        ((content.drop (fieldsOffset + 8)).take 4 ++ ((content.drop (fieldsOffset + 12)).take 4 ++
          content.drop (fieldsOffset + 16))))) := by
    rw [← hsplit 12, ← hsplit 8, ← hsplit 4, ← hsplit 0, Nat.add_zero, List.take_append_drop]
  have h₀ := hword 0 (by omega)
  have h₁ := hword 4 (by omega)
  have h₂ := hword 8 (by omega)
  have h₃ := hword 12 (by omega)
  generalize (content.drop (fieldsOffset + 0)).take 4 = a at hcontent h₀
  generalize (content.drop (fieldsOffset + 4)).take 4 = b at hcontent h₁
  generalize (content.drop (fieldsOffset + 8)).take 4 = c at hcontent h₂
  generalize (content.drop (fieldsOffset + 12)).take 4 = d at hcontent h₃
  refine ⟨d, h₃, ?_⟩
  have hput := fun crc => putHeader_eq d (content.drop (fieldsOffset + 16)) hbefore
    h₀ h₁ h₂ content.length crc addr
  rw [← hcontent] at hput
  rw [withHeader, (hput 0).1, (hput 0).2.1,
    contentCrc_eq hbefore (le32_length _) h₁ (le32_length _) h₃, (hput _).2.2]

theorem lt_of_fwSize (h : fieldsOffset + 16 ≤ content.length)
    (hsize : ofLe (((withHeader content addr).drop fieldsOffset).take 4) =
      (withHeader content addr).length) : content.length < 2 ^ 32 := by
  obtain ⟨d, hd, hout⟩ := withHeader_eq h addr
  have hbefore : (content.take fieldsOffset).length = fieldsOffset := by
    rw [List.length_take]
    omega
  obtain ⟨-, hword, -⟩ := header_parts (content.drop (fieldsOffset + 16)) hbefore
    (le32_length content.length) (le32_length _) (le32_length addr) hd
  rw [withHeader_length h, hout, hword] at hsize
  have hlt := ofLe_lt (le32 content.length)
  rw [le32_length] at hlt
  omega

theorem withHeader_faithful {input : List UInt8} {fields : List Argument}
    (h : fieldsOffset + 16 ≤ (expected input fields).length)
    (hsmall : (expected input fields).length < 2 ^ 32) :
    Faithful input fields (withHeader (expected input fields) (padded input).length) := by
  have hlen := withHeader_length h (padded input).length
  have hpadded : (padded input).length ≤ (expected input fields).length := by
    rw [expected, padded_length (_ ++ _), List.length_append]
    omega
  obtain ⟨d, hd, hout⟩ := withHeader_eq h (padded input).length
  have hbefore : ((expected input fields).take fieldsOffset).length = fieldsOffset := by
    rw [List.length_take]
    omega
  obtain ⟨htake, hsize, hcrc, haddr, hdrop⟩ :=
    header_parts ((expected input fields).drop (fieldsOffset + 16)) hbefore
      (le32_length (expected input fields).length) (le32_length _)
      (le32_length (padded input).length) hd
  rw [← hout] at htake hsize hcrc haddr hdrop
  refine ⟨hlen, htake, hdrop, ?_, ?_, ?_⟩
  · rw [hsize, hlen, ofLe_le32 hsmall]
  · have hall : ((expected input fields).drop (fieldsOffset + 16)).take
        (((expected input fields).drop (fieldsOffset + 16)).length % 2 ^ 32) =
        (expected input fields).drop (fieldsOffset + 16) := by
      refine List.take_of_length_le ?_
      rw [List.length_drop, Nat.mod_eq_of_lt (by omega)]
    rw [hcrc, htake, hdrop, hall, ofLe_le32 (UInt32.toNat_lt _), crc32,
      crc32End_append ethUnit _ (by rw [hbefore]; decide), crc32Start]
  · rw [haddr, ofLe_le32 (by omega)]

end

/-! ## The whole program -/

section

variable {host : Host} {input : List UInt8} {fields : List Argument} {lengthLimit : Int}

theorem signFields_cases (lengthLimit : Int) {content : List UInt8}
    (hroom : (padded content).length ≤ host.room)
    (hfields : ∀ arg ∈ fields, arg.chars.length + 1 < 2 ^ 31) :
    (fieldsOffset + 4 ≤ (padded content).length ∧ (∀ arg ∈ fields, Valid arg) ∧
          (expected content fields).length ≤ host.room) ∧
        signFields host lengthLimit fields (padded content, (padded content).length) =
          signBlock host lengthLimit (padded content).length (expected content fields)
            (expected content fields).length ∨
      ¬ (fieldsOffset + 4 ≤ (padded content).length ∧ (∀ arg ∈ fields, Valid arg) ∧
          (expected content fields).length ≤ host.room) ∧
        Quiet (signFields host lengthLimit fields (padded content, (padded content).length)) := by
  rw [signFields]
  split_ifs with hsmall
  · exact .inr ⟨fun hok => absurd hok.1 (not_le.mpr hsmall), 7, rfl, by decide, by decide⟩
  have hbelow : (padded content ++ fields.flatMap fieldBytes).length ≤
      (expected content fields).length := by
    rw [expected, padded_length (_ ++ _)]
    omega
  rcases appendArgs_cases host rfl hroom hfields with ⟨⟨hvalid, -⟩, hok⟩ | ⟨hnot, hquiet⟩
  · rw [hok]
    rcases alignLoop_cases host (padded content ++ fields.flatMap fieldBytes) rfl with
      ⟨hfits, halign⟩ | ⟨hnot, hquiet⟩
    · refine .inl ⟨⟨not_lt.mp hsmall, hvalid, hfits⟩, ?_⟩
      refine (pure_bind (m := Except Stop) _ _).trans ?_
      rw [halign]
      exact pure_bind (m := Except Stop) _ _
    · obtain ⟨code, herror, hcode⟩ := hquiet
      refine .inr ⟨fun hok => hnot hok.2.2, code, ?_, hcode⟩
      refine (pure_bind (m := Except Stop) _ _).trans ?_
      rw [herror]
      rfl
  · exact .inr ⟨fun hok => hnot ⟨hok.2.1, hbelow.trans hok.2.2⟩, hquiet.bind _⟩

theorem signFile_cases (lengthLimit : Int) (hmemory : input.length ≤ host.room ∨
    input.take host.read = []) (hfields : ∀ arg ∈ fields, arg.chars.length + 1 < 2 ^ 31) :
    Reaches host input fields ∧
        signFile host lengthLimit input fields = signBlock host lengthLimit (padded input).length
          (expected (contentRead host input) fields)
          (expected (contentRead host input) fields).length ∨
      ¬ Reaches host input fields ∧ Quiet (signFile host lengthLimit input fields) := by
  rcases readContent_cases host input with ⟨hnot, -⟩ | ⟨-, ⟨hne, hquiet⟩ |
    ⟨hread, content, hok, hcontent⟩⟩
  · exact absurd hmemory hnot
  · exact .inr ⟨fun hreaches => hne hreaches.read, hquiet.bind _⟩
  have hsign : signFile host lengthLimit input fields =
      alignLoop host content input.length >>= signFields host lengthLimit fields := by
    rw [signFile, hok]
    exact pure_bind (m := Except Stop) _ _
  rw [hsign]
  have hroom_of : Reaches host input fields → (padded input).length ≤ host.room := by
    intro hreaches
    have hroom := hreaches.room
    rw [expected, padded_length, List.length_append] at hroom
    omega
  rcases Nat.lt_or_ge host.room input.length with hfull | hroom
  · refine .inr ⟨fun hreaches => ?_, (alignLoop_full (by omega)).bind _⟩
    have hroom := hroom_of hreaches
    rw [padded_length] at hroom
    omega
  obtain rfl := hcontent hroom
  have hlen := contentRead_length host input
  have hpadded : (padded (contentRead host input)).length = (padded input).length := by
    rw [padded_length, padded_length, hlen]
  rcases alignLoop_cases host _ hlen with ⟨hfits, halign⟩ | ⟨hnot, hquiet⟩
  · have hfields' : alignLoop host (contentRead host input) input.length >>=
        signFields host lengthLimit fields = signFields host lengthLimit fields
          (padded (contentRead host input), (padded (contentRead host input)).length) := by
      rw [halign]
      exact pure_bind (m := Except Stop) _ _
    rw [hfields']
    have hexpected := expected_length hlen fields
    rcases signFields_cases lengthLimit hfits hfields with
      ⟨⟨hlarge, hvalid, hroom⟩, heq⟩ | ⟨hnot, hquiet⟩
    · refine .inl ⟨⟨hread, hpadded ▸ hlarge, hvalid, hexpected ▸ hroom⟩, ?_⟩
      rw [heq, hpadded]
    · refine .inr ⟨fun hreaches => hnot ⟨?_, hreaches.valid, ?_⟩, hquiet⟩
      · exact hpadded ▸ hreaches.large
      · exact hexpected ▸ hreaches.room
  · exact .inr ⟨fun hreaches => hnot (hpadded ▸ hroom_of hreaches), hquiet.bind _⟩

theorem Stopped.sound {result : Except Stop (List UInt8)} (h : Stopped result) :
    Sound result input fields := by
  obtain ⟨code, out, rfl, hcode⟩ := h
  exact hcode

/-- The program keeps to the block and writes a faithful output exactly if the input fits. -/
theorem signFile_sound_iff (lengthLimit : Int)
    (hfields : ∀ arg ∈ fields, arg.chars.length + 1 < 2 ^ 31) :
    Sound (signFile host lengthLimit input fields) input fields ↔
      Fits host lengthLimit input fields := by
  rcases readContent_cases host input with ⟨hnot, houtside⟩ | ⟨hmemory, -⟩
  · refine iff_of_false ?_ fun hfits => hnot hfits.memory
    rw [signFile, houtside]
    exact id
  rcases signFile_cases lengthLimit hmemory hfields with ⟨hreaches, heq⟩ | ⟨hnot, hquiet⟩
  · have hexpected := expected_length (contentRead_length host input) fields
    rw [heq]
    rcases Nat.lt_or_ge (expected input fields).length (fieldsOffset + 16) with hshort | hwhole
    · rw [signBlock_short (hexpected ▸ hshort)]
      exact iff_of_false id fun hfits => absurd (hfits.header hreaches) (not_le.mpr hshort)
    · rcases signBlock_cases host lengthLimit (hexpected ▸ hwhole)
        (padded input).length with ⟨⟨hpattern, hlimit, hwritten⟩, hok⟩ | ⟨hnot, hstopped⟩
      · rw [hok]
        rw [hexpected] at hlimit hwritten
        have hlength := withHeader_length (hexpected ▸ hwhole) (padded input).length
        rw [hexpected] at hlength
        constructor
        · intro hfaithful
          have hflushed : (expected input fields).length ≤ host.flushed := by
            have htake := hfaithful.length
            rw [List.length_take, hlength] at htake
            omega
          rw [List.take_of_length_le (hlength.trans_le hflushed)] at hfaithful
          refine ⟨hmemory, fun _ => hwhole, fun _ _ _ _ => ⟨?_, hflushed⟩⟩
          exact hexpected ▸ lt_of_fwSize (hexpected ▸ hwhole) hfaithful.fwSize
        · intro hfits
          obtain ⟨hsmall, hflushed⟩ := hfits.output hreaches hpattern hlimit hwritten
          rw [List.take_of_length_le (hlength.trans_le hflushed)]
          have hinput : input.length < 2 ^ 32 := by
            rw [expected, padded_length, List.length_append, padded_length] at hsmall
            omega
          rw [contentRead_eq hinput hreaches.read]
          exact withHeader_faithful hwhole hsmall
      · refine iff_of_true hstopped.sound ⟨hmemory, fun _ => hwhole, ?_⟩
        intro _ hpattern hlimit hwritten
        rw [hexpected] at hnot
        exact absurd ⟨hpattern, hlimit, hwritten⟩ hnot
  · exact iff_of_true hquiet.stopped.sound
      ⟨hmemory, fun h => absurd h hnot, fun h => absurd h hnot⟩

end

/-- Once the program has its arguments and its files, the output is that for the input and the
fields. -/
def MainSound (host : Host) (argv : List Argument) : Prop :=
  match argv with
  | _ :: inputFile :: _ :: _ :: fields =>
      Sound (main host argv) ((host.inputFile inputFile).getD []) fields
  | _ => Stopped (main host argv)

def MainFits (host : Host) (argv : List Argument) : Prop :=
  match argv with
  | _ :: inputFile :: outputFile :: limit :: fields => ∀ input,
      host.inputFile inputFile = some input → host.outputFile outputFile = true →
        Fits host (host.atoi limit) input fields
  | _ => True

/-- `main` keeps to the content it has allocated and is faithful exactly if its input fits. An
argument is not longer than an `int` can count. -/
theorem main_sound_iff (host : Host) (argv : List Argument)
    (hargv : ∀ arg ∈ argv, arg.chars.length + 1 < 2 ^ 31) :
    MainSound host argv ↔ MainFits host argv := by
  rcases argv with _ | ⟨program, _ | ⟨inputFile, _ | ⟨outputFile, _ | ⟨limit, fields⟩⟩⟩⟩
  · exact iff_of_true ⟨1, [], rfl, by decide, fun _ => rfl⟩ trivial
  · exact iff_of_true ⟨1, [], rfl, by decide, fun _ => rfl⟩ trivial
  · exact iff_of_true ⟨1, [], rfl, by decide, fun _ => rfl⟩ trivial
  · exact iff_of_true ⟨1, [], rfl, by decide, fun _ => rfl⟩ trivial
  have hclosed : Stopped (.error (.exit 2 [])) := ⟨2, [], rfl, by decide, fun _ => rfl⟩
  rw [MainSound, main, MainFits]
  cases hinput : host.inputFile inputFile with
  | none => exact iff_of_true hclosed.sound nofun
  | some input =>
      cases houtput : host.outputFile outputFile with
      | false => exact iff_of_true hclosed.sound fun _ _ h => absurd h (by decide)
      | true =>
          have hfields : ∀ arg ∈ fields, arg.chars.length + 1 < 2 ^ 31 :=
            fun arg hmem => hargv arg (by simp [hmem])
          refine (signFile_sound_iff (host.atoi limit) hfields).trans ?_
          constructor
          · rintro hfits input' ⟨⟩ -
            exact hfits
          · intro hfits
            exact hfits input rfl rfl

/-- A host on which every file holds the given bytes. -/
def sampleHost (input : List UInt8) : Host where
  inputFile := fun _ => some input
  outputFile := fun _ => true
  atoi := fun _ => 393216
  room := 4096
  heap := fun _ => 0
  read := 4096
  written := 4096
  flushed := 4096

/-- A command; the sample host does not look at the names and the limit. -/
def sampleCommand (fields : List Argument) : List Argument := sampleArgs ++ sampleArgs ++ fields

theorem mainFits_sample {input : List UInt8} {fields : List Argument} :
    MainFits (sampleHost input) (sampleCommand fields) ↔
      Fits (sampleHost input) 393216 input fields := by
  constructor
  · intro hfits
    exact hfits input rfl rfl
  · intro hfits input' hinput _
    obtain rfl := Option.some.inj hinput
    exact hfits

theorem mainSound_sample {input : List UInt8} {fields : List Argument} :
    MainSound (sampleHost input) (sampleCommand fields) ↔
      Sound (signFile (sampleHost input) 393216 input fields) input fields := Iff.rfl

theorem fits_sample : Fits (sampleHost (sampleInput 0)) 393216 (sampleInput 0) sampleArgs := by
  have hfields : (sampleArgs.flatMap fieldBytes).length = 19 := rfl
  have hlen : (expected (sampleInput 0) sampleArgs).length = 440 := by
    rw [expected, padded_length, List.length_append, padded_length, sampleInput_length, hfields]
  refine ⟨.inl ?_, fun _ => ?_, fun _ _ _ _ => ⟨?_, ?_⟩⟩
  · rw [sampleInput_length]
    decide
  all_goals
    rw [hlen]
    decide

theorem sampleArgs_length : ∀ arg ∈ sampleArgs, arg.chars.length ≤ 11 := by decide +kernel

theorem sampleCommand_length : ∀ arg ∈ sampleCommand sampleArgs, arg.chars.length + 1 < 2 ^ 31 := by
  intro arg hmem
  have hlen : arg.chars.length ≤ 11 := by
    rcases List.mem_append.mp hmem with hmem | hmem
    · rcases List.mem_append.mp hmem with hmem | hmem
      · exact sampleArgs_length arg hmem
      · exact sampleArgs_length arg hmem
    · exact sampleArgs_length arg hmem
  omega

theorem main_sound_sample :
    MainSound (sampleHost (sampleInput 0)) (sampleCommand sampleArgs) := by
  rw [main_sound_iff _ _ sampleCommand_length, mainFits_sample]
  exact fits_sample

/-- The header of 400 zero bytes would begin right behind them, and only four more are added. -/
theorem not_main_sound_short :
    ¬ MainSound (sampleHost (List.replicate 400 0)) (sampleCommand []) := by
  rw [mainSound_sample, signFile_sound_iff _ (by simp)]
  intro hfits
  have hpadded : (padded (List.replicate 400 0)).length = 404 := by
    rw [padded_length, List.length_replicate]
  have hexpected : (expected (List.replicate 400 0) []).length = 408 := by
    rw [expected, padded_length, List.flatMap_nil, List.append_nil, hpadded]
  have htake : ∀ host : Host, host.read = 4096 →
      (List.replicate 400 (0 : UInt8)).take host.read = List.replicate 400 0 := by
    intro host hread
    rw [hread, List.take_of_length_le (by rw [List.length_replicate]; decide)]
  have hheader := hfits.header ⟨by rw [htake _ rfl], by rw [hpadded]; decide, nofun, by
    rw [hexpected]
    decide⟩
  rw [hexpected] at hheader
  exact absurd hheader (by decide)

end ShGateway.SignMain
