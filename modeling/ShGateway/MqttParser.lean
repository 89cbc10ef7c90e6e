import ShGateway.MqttOutput

/-!
The parser of lwIP's `mqtt.c`: it finds the messages in what TCP delivers, wherever the segments
end. A message that does not fit the buffer is handed on in pieces.
-/

namespace ShGateway.MqttParser

open ShGateway.Lib
open ShGateway.MqttOutput (Packet)

/-! ## Received data -/

/-- A chain of buffers. -/
structure Pbuf where
  buffers : List (List UInt8)
  totLen_lt : buffers.flatten.length < 65536

def Pbuf.bytes (p : Pbuf) : List UInt8 := p.buffers.flatten

/-- `len`, the length of the first buffer. -/
def Pbuf.len (p : Pbuf) : Nat := (p.buffers.headD []).length

/-- Whether `len` bytes from an offset on lie in more than one buffer. -/
def spans : List (List UInt8) → Nat → Nat → Bool
  | [], _, _ => false
  | q :: rest, offset, len =>
      if offset < q.length then decide (q.length < offset + len)
      else spans rest (offset - q.length) len

/-- What `pbuf_get_contiguous` returns a pointer to. -/
def pbufGetContiguous (p : Pbuf) (bufsize len offset : Nat) : Option (List UInt8) :=
  if bufsize < len then none
  else if p.bytes.length ≤ offset then none
  else if offset + len ≤ p.bytes.length then some ((p.bytes.drop offset).take len)
  else none

/-- What it copies into the buffer that it is given. -/
def copiedBytes (p : Pbuf) (bufsize len offset : Nat) : List UInt8 :=
  if bufsize < len ∨ p.bytes.length ≤ offset then []
  else if spans p.buffers offset len then (p.bytes.drop offset).take len
  else []

def storeAt (rx : Nat → UInt8) (start : Nat) (bytes : List UInt8) : Nat → UInt8 := fun i =>
  if start ≤ i ∧ i < start + bytes.length then bytes.getD (i - start) 0 else rx i

/-! ## The parser -/

/-- `MQTT_VAR_HEADER_BUFFER_LEN`, the size of `rx_buffer`. -/
def varHeaderBufferLen : Nat := 128

/-- A call of `mqtt_message_received`, with the first byte of `rx_buffer` and `msg_idx`. -/
structure Call where
  control : UInt8
  msgIdx : Nat
  fixedHdrLen : Nat
  length : Nat
  remaining : Nat
  payload : Option (List UInt8)

/-- What stays of the client between two segments, and the calls so far. -/
structure Receiver where
  msgIdx : Nat := 0
  rx : Nat → UInt8 := fun _ => 0
  calls : List Call := []

/-- The variables of `mqtt_parse_incoming`. -/
structure Parse extends Receiver where
  inOffset : Nat := 0
  msgRemLen : Nat := 0
  fixedHdrLen : Nat := 0
  b : UInt8 := 0

/-- The end of `mqtt_parse_incoming`, or of the program when it leaves `rx_buffer`. -/
inductive Status
  | accepted
  | refused
  | overrun
deriving DecidableEq, Repr

/-- The calls may answer as they like, by what they were called with so far. -/
abbrev Answers := List Call → Bool

inductive Next
  | goOn (s : Parse)
  | stop (sts : Status) (s : Parse)

/-- The turn of the loop after the next byte of the fixed header is known. -/
def headerByte (s : Parse) (b : UInt8) : Parse :=
  let s := { s with b, fixedHdrLen := (s.fixedHdrLen + 1) % 2 ^ 8 }
  if s.fixedHdrLen ≥ 2 then
    let s := { s with
      msgRemLen := (s.msgRemLen ||| ((b &&& 0x7F).toNat <<< ((s.fixedHdrLen - 2) * 7))) % 2 ^ 32 }
    if b &&& 0x80 = 0 then
      if s.msgRemLen = 0 then
        { s with
          calls := s.calls ++ [⟨s.rx 0, s.msgIdx, s.fixedHdrLen, 0, 0, none⟩]
          msgIdx := 0
          fixedHdrLen := 0 }
      else
        { s with
          msgRemLen := (s.msgRemLen + s.fixedHdrLen + 2 ^ 32 - s.msgIdx) % 2 ^ 32 }
    else s
  else s

/-- A byte of the fixed header, from `rx_buffer` if it came earlier. -/
def headerTurn (p : Pbuf) (s : Parse) : Next :=
  if s.fixedHdrLen < s.msgIdx then
    if varHeaderBufferLen ≤ s.fixedHdrLen then .stop .overrun s
    else .goOn (headerByte s (s.rx s.fixedHdrLen))
  else if varHeaderBufferLen ≤ s.msgIdx then .stop .overrun s
  else
    let b := p.bytes.getD s.inOffset 0
    .goOn (headerByte { s with
      inOffset := (s.inOffset + 1) % 2 ^ 16
      rx := Function.update s.rx s.msgIdx b
      msgIdx := s.msgIdx + 1 } b)

/-- The number of bytes that are handed on. -/
def copyLen (p : Pbuf) (s : Parse) : Nat :=
  let cpyLen := min ((p.bytes.length + 2 ^ 16 - s.inOffset) % 2 ^ 16) s.msgRemLen % 2 ^ 16
  let bufferSpace := varHeaderBufferLen - s.fixedHdrLen
  let cpyLen := if cpyLen > bufferSpace then bufferSpace else cpyLen
  if s.msgIdx ≥ varHeaderBufferLen ∧ (cpyLen : Int) > (p.len : Int) - s.inOffset then
    (((p.len : Int) - s.inOffset) % 2 ^ 16).toNat
  else cpyLen

/-- The variable header and the payload, or a piece of them. -/
def bodyTurn (answers : Answers) (p : Pbuf) (s : Parse) : Next :=
  let cpyLen := copyLen p s
  let bufferSpace := varHeaderBufferLen - s.fixedHdrLen
  let s := { s with
    rx := storeAt s.rx s.fixedHdrLen (copiedBytes p bufferSpace cpyLen s.inOffset)
    msgIdx := (s.msgIdx + cpyLen) % 2 ^ 32
    msgRemLen := (s.msgRemLen + 2 ^ 32 - cpyLen) % 2 ^ 32
    inOffset := (s.inOffset + cpyLen) % 2 ^ 16
    calls := s.calls ++ [⟨s.rx 0, (s.msgIdx + cpyLen) % 2 ^ 32, s.fixedHdrLen, cpyLen,
      (s.msgRemLen + 2 ^ 32 - cpyLen) % 2 ^ 32,
      pbufGetContiguous p bufferSpace cpyLen s.inOffset⟩] }
  if answers s.calls = false then .stop .refused s
  else if s.msgRemLen = 0 then .goOn { s with msgIdx := 0, fixedHdrLen := 0 }
  else .goOn s

def turn (answers : Answers) (p : Pbuf) (s : Parse) : Next :=
  if s.fixedHdrLen < 2 ∨ s.b &&& 0x80 ≠ 0 then headerTurn p s else bodyTurn answers p s

def parseLoop (answers : Answers) (p : Pbuf) : Nat → Parse → Option (Status × Receiver)
  | 0, _ => none
  | fuel + 1, s =>
      if p.bytes.length > s.inOffset then
        match turn answers p s with
        | .goOn s => parseLoop answers p fuel s
        | .stop sts s => some (sts, s.toReceiver)
      else some (.accepted, s.toReceiver)

def mqttParseIncoming (answers : Answers) (fuel : Nat) (p : Pbuf) (r : Receiver) :
    Option (Status × Receiver) :=
  parseLoop answers p fuel { r with }

/-- `mqtt_tcp_recv_cb` for one segment after the other. A refusal closes the connection. -/
def receive (answers : Answers) (fuel : Nat) : List Pbuf → Receiver → Option (Status × Receiver)
  | [], r => some (.accepted, r)
  | p :: ps, r =>
      match mqttParseIncoming answers fuel p r with
      | some (.accepted, r) => receive answers fuel ps r
      | res => res

/-! ## Messages in calls -/

def fixedHeader (p : Packet) : List UInt8 := p.control :: Varint.encode p.body.length

theorem encode_eq (p : Packet) : p.encode = fixedHeader p ++ p.body := rfl

/-- The call for the bytes of a message from `o` on. -/
def pieceCall (p : Packet) (o n : Nat) : Call where
  control := p.control
  msgIdx := (fixedHeader p).length + o + n
  fixedHdrLen := (fixedHeader p).length
  length := n
  remaining := p.body.length - (o + n)
  payload := some ((p.body.drop o).take n)

def encodedLength (ps : List Packet) : Nat := (ps.flatMap Packet.encode).length

/-- A piece from `o` on of a message that begins at `start` is as long as it can be: it fills
`rx_buffer`, or ends the message or a segment. -/
structure Piece (ends : List Nat) (start : Nat) (p : Packet) (o n : Nat) : Prop where
  pos : 0 < n
  le : o + n ≤ p.body.length
  fits : (fixedHeader p).length + n ≤ varHeaderBufferLen
  full : (fixedHeader p).length + n = varHeaderBufferLen ∨ o + n = p.body.length ∨
    start + (fixedHeader p).length + o + n ∈ ends

/-- Calls that hand on the first `o` bytes of a message, in order. -/
inductive Pieces (ends : List Nat) (start : Nat) (p : Packet) : Nat → List Call → Prop
  | nil : Pieces ends start p 0 []
  | snoc {o n : Nat} {cs : List Call} : Pieces ends start p o cs → Piece ends start p o n →
      Pieces ends start p (o + n) (cs ++ [pieceCall p o n])

/-- The calls for a whole message. -/
inductive Whole (ends : List Nat) (start : Nat) (p : Packet) : List Call → Prop
  | header : p.body = [] →
      Whole ends start p [⟨p.control, (fixedHeader p).length, (fixedHeader p).length, 0, 0, none⟩]
  | pieces {cs : List Call} : p.body ≠ [] → Pieces ends start p p.body.length cs →
      Whole ends start p cs

/-- The calls for some messages, one after the other. -/
inductive Framed (ends : List Nat) : List Packet → List Call → Prop
  | nil : Framed ends [] []
  | snoc {ps : List Packet} {p : Packet} {cs group : List Call} :
      Framed ends ps cs → Whole ends (encodedLength ps) p group →
      Framed ends (ps ++ [p]) (cs ++ group)

/-- What was handed on of a message of which `k` bytes were read. -/
def Opened (ends : List Nat) (start : Nat) : List Packet → Nat → List Call → Prop
  | [], k, group => k = 0 ∧ group = []
  | p :: _, k, group =>
      k < p.encode.length ∧ Pieces ends start p (k - (fixedHeader p).length) group

/-- Of the messages `ps`, `done` were handed on, and of the next one the pieces that `k` bytes of
it allow. The segments end after the numbers of bytes in `ends`. -/
def HandedOn (ends : List Nat) (ps done : List Packet) (k : Nat) (calls : List Call) : Prop :=
  ∃ rest before group, ps = done ++ rest ∧ calls = before ++ group ∧ Framed ends done before ∧
    Opened ends (encodedLength done) rest k group

/-! ## Bytes -/

/-- The remaining length of a message of MQTT has at most four bytes. -/
def Sized (p : Packet) : Prop := p.body.length < 128 ^ 4

section

variable {p : Packet} {k j : Nat}

theorem fixedHeader_length (p : Packet) :
    (fixedHeader p).length = (Varint.encode p.body.length).length + 1 := rfl

theorem two_le_header (p : Packet) : 2 ≤ (fixedHeader p).length := by
  have hpos := List.length_pos_iff.mpr (Varint.encode_ne_nil p.body.length)
  rw [fixedHeader_length]
  omega

theorem Sized.header_le (h : Sized p) : (fixedHeader p).length ≤ 5 :=
  Nat.succ_le_succ (Varint.encode_length_le h)

theorem encode_length (p : Packet) :
    p.encode.length = (fixedHeader p).length + p.body.length := by
  rw [encode_eq, List.length_append]

/-- The byte of the fixed header before the `j`-th says whether there is one. -/
theorem reads_on_iff (hj : j ≤ (fixedHeader p).length) {b : UInt8}
    (hb : 0 < j → b = (fixedHeader p).getD (j - 1) 0) :
    (j < 2 ∨ b &&& 0x80 ≠ 0) ↔ j < (fixedHeader p).length := by
  have htwo := two_le_header p
  rw [Varint.and_high]
  rcases Nat.lt_or_ge j 2 with hlt | hge
  · exact iff_of_true (.inl hlt) (by omega)
  · obtain ⟨i, rfl⟩ : ∃ i, j = i + 2 := ⟨j - 2, by omega⟩
    rw [fixedHeader_length] at *
    have hi : i < (Varint.encode p.body.length).length := by omega
    have hbyte : b = (Varint.encode p.body.length)[i] := by
      rw [hb (by omega), show i + 2 - 1 = i + 1 from rfl, fixedHeader, List.getD_cons_succ,
        List.getD_eq_getElem _ _ hi]
    rw [hbyte, (Varint.encode_isNumber _).continues_iff hi]
    omega

theorem same_bytes {xs ys post rest : List UInt8} (h : xs ++ post = ys ++ rest) {n : Nat}
    (hx : n ≤ xs.length) (hy : n ≤ ys.length) : xs.take n = ys.take n := by
  have htake := congrArg (List.take n) h
  rwa [List.take_append_of_le_length hx, List.take_append_of_le_length hy] at htake

theorem same_byte {xs ys post rest : List UInt8} {o : Nat}
    (h : xs.drop o ++ post = ys.drop k ++ rest) (hx : o < xs.length) (hy : k < ys.length) :
    xs.getD o 0 = ys.getD k 0 := by
  rw [List.drop_eq_getElem_cons hx, List.drop_eq_getElem_cons hy, List.cons_append,
    List.cons_append, List.cons_eq_cons] at h
  rw [List.getD_eq_getElem _ _ hx, List.getD_eq_getElem _ _ hy, h.1]

end

/-! ## Within a segment -/

/-- Between two messages. -/
structure Between (ends : List Nat) (done : List Packet) (s : Parse) : Prop where
  msgIdx : s.msgIdx = 0
  fixedHdrLen : s.fixedHdrLen = 0
  msgRemLen : s.msgRemLen = 0
  calls : Framed ends done s.calls

/-- In a message of which `k` bytes were read, and `j` bytes of the header were seen in this
segment. -/
structure Reading (ends : List Nat) (done : List Packet) (p : Packet) (k j : Nat) (s : Parse) :
    Prop where
  sized : Sized p
  msgIdx : s.msgIdx = k
  inside : k < p.encode.length
  stored : ∀ i < k, i < (fixedHeader p).length → s.rx i = (fixedHeader p).getD i 0
  fixedHdrLen : s.fixedHdrLen = j
  read_le : j ≤ k
  header_le : j ≤ (fixedHeader p).length
  b : 0 < j → s.b = (fixedHeader p).getD (j - 1) 0
  msgRemLen : s.msgRemLen = if j < (fixedHeader p).length then
      Varint.value ((Varint.encode p.body.length).take (j - 1))
    else p.encode.length - k
  calls : ∃ before group, s.calls = before ++ group ∧ Framed ends done before ∧
    Pieces ends (encodedLength done) p (k - (fixedHeader p).length) group

section

variable {ends : List Nat} {done : List Packet} {p : Packet} {k j : Nat} {s : Parse}

theorem encode_pos (p : Packet) : 0 < p.encode.length := Nat.succ_pos _

theorem Between.reading (h : Between ends done s) (hp : Sized p) : Reading ends done p 0 0 s := by
  refine ⟨hp, h.msgIdx, encode_pos p, by simp, h.fixedHdrLen, Nat.le_refl 0, Nat.zero_le _,
    by simp, ?_, s.calls, [], (List.append_nil _).symm, h.calls, ?_⟩
  · rw [if_pos (show 0 < (fixedHeader p).length from Nat.succ_pos _), h.msgRemLen]
    rfl
  · rw [Nat.zero_sub]
    exact .nil

theorem value_next (hp : Sized p) (hone : 1 ≤ j) (hj : j < (fixedHeader p).length) :
    (Varint.value ((Varint.encode p.body.length).take (j - 1)) |||
      ((((fixedHeader p).getD j 0) &&& 0x7F).toNat <<< ((j + 1 - 2) * 7))) % 2 ^ 32 =
      Varint.value ((Varint.encode p.body.length).take j) := by
  obtain ⟨i, rfl⟩ : ∃ i, j = i + 1 := ⟨j - 1, by omega⟩
  have hi : i < (Varint.encode p.body.length).length := by
    rw [fixedHeader_length] at hj
    omega
  have hle := hp.header_le
  have htake : (Varint.encode p.body.length).take (i + 1) =
      (Varint.encode p.body.length).take i ++ [(Varint.encode p.body.length)[i]] :=
    List.take_succ_eq_append_getElem hi
  have hlen : ((Varint.encode p.body.length).take i).length = i := by
    rw [List.length_take]
    omega
  have hbound := Varint.value_lt ((Varint.encode p.body.length).take (i + 1))
  have hlen' : ((Varint.encode p.body.length).take (i + 1)).length = i + 1 := by
    rw [List.length_take]
    omega
  have hpow : 128 ^ (i + 1) ≤ 128 ^ 4 := Nat.pow_le_pow_right (by decide) (by omega)
  rw [hlen'] at hbound
  have hvalue := Varint.value_snoc ((Varint.encode p.body.length).take i)
    (Varint.encode p.body.length)[i]
  rw [hlen, ← htake] at hvalue
  have hget : (fixedHeader p).getD (i + 1) 0 = (Varint.encode p.body.length)[i] := by
    rw [fixedHeader, List.getD_cons_succ, List.getD_eq_getElem _ _ hi]
  rw [hget, Varint.and_low, Nat.add_sub_cancel, show i + 1 + 1 - 2 = i by omega, ← hvalue]
  exact Nat.mod_eq_of_lt (by omega)

theorem value_whole (hall : (fixedHeader p).length ≤ j + 1) :
    Varint.value ((Varint.encode p.body.length).take j) = p.body.length := by
  rw [List.take_of_length_le (Nat.le_of_succ_le_succ hall), Varint.value_encode]

/-- The next byte of the header has been fetched, from `rx_buffer` or from the segment. -/
structure Fetched (ends : List Nat) (done : List Packet) (p : Packet) (k j k' : Nat)
    (s s' : Parse) : Prop where
  read_lt : j < k'
  within : k' < p.encode.length ∨ k' = (fixedHeader p).length ∧ j + 1 = k' ∧ p.body = []
  msgIdx : s'.msgIdx = k'
  calls : s'.calls = s.calls
  stored : ∀ i < k', i < (fixedHeader p).length → s'.rx i = (fixedHeader p).getD i 0
  fixedHdrLen : s'.fixedHdrLen = s.fixedHdrLen
  msgRemLen : s'.msgRemLen = s.msgRemLen
  pieces : ∀ group, Pieces ends (encodedLength done) p (k - (fixedHeader p).length) group →
    Pieces ends (encodedLength done) p (k' - (fixedHeader p).length) group

theorem Fetched.reading {k' : Nat} {s' s'' : Parse} (hf : Fetched ends done p k j k' s s')
    (h : Reading ends done p k j s) (hj : j < (fixedHeader p).length)
    (hlt : k' < p.encode.length) (hmsgIdx : s''.msgIdx = s'.msgIdx) (hrx : s''.rx = s'.rx)
    (hcalls : s''.calls = s'.calls) (hhdr : s''.fixedHdrLen = j + 1)
    (hb : s''.b = (fixedHeader p).getD j 0)
    (hrem : s''.msgRemLen = if j + 1 < (fixedHeader p).length then
      Varint.value ((Varint.encode p.body.length).take j) else p.encode.length - k') :
    Reading ends done p k' (j + 1) s'' := by
  obtain ⟨before, group, hsplit, hframed, hgroup⟩ := h.calls
  refine ⟨h.sized, hmsgIdx.trans hf.msgIdx, hlt, ?_, hhdr, hf.read_lt, hj, fun _ => hb, hrem,
    before, group, ?_, hframed, hf.pieces group hgroup⟩
  · rw [hrx]
    exact hf.stored
  · rw [hcalls, hf.calls, hsplit]

theorem Fetched.hdr_next {k' : Nat} {s' : Parse} (hf : Fetched ends done p k j k' s s')
    (h : Reading ends done p k j s) (hj : j < (fixedHeader p).length) :
    (s'.fixedHdrLen + 1) % 2 ^ 8 = j + 1 := by
  have hle := h.sized.header_le
  rw [hf.fixedHdrLen, h.fixedHdrLen]
  omega

theorem Fetched.headerByte_eq {k' : Nat} {s' : Parse} (hf : Fetched ends done p k j k' s s')
    (h : Reading ends done p k j s) (hj : j < (fixedHeader p).length) (hpos : 1 ≤ j) :
    headerByte s' ((fixedHeader p).getD j 0) =
      let s' := { s' with
        b := (fixedHeader p).getD j 0
        fixedHdrLen := j + 1
        msgRemLen := Varint.value ((Varint.encode p.body.length).take j) }
      if j + 1 < (fixedHeader p).length then s'
      else if p.body = [] then
        { s' with
          calls := s'.calls ++ [⟨s'.rx 0, s'.msgIdx, s'.fixedHdrLen, 0, 0, none⟩]
          msgIdx := 0
          fixedHdrLen := 0 }
      else { s' with msgRemLen := (p.body.length + (j + 1) + 2 ^ 32 - s'.msgIdx) % 2 ^ 32 } := by
  have hreads := @reads_on_iff p (j + 1) hj ((fixedHeader p).getD j 0) fun _ => rfl
  rw [or_iff_right (by omega : ¬ j + 1 < 2)] at hreads
  have hold := h.msgRemLen
  rw [if_pos hj] at hold
  rw [headerByte]
  dsimp only
  rw [hf.hdr_next h hj, if_pos (by omega), hf.msgRemLen, hold, value_next h.sized hpos hj]
  by_cases hlast : j + 1 < (fixedHeader p).length
  · rw [if_neg (hreads.mpr hlast), if_pos hlast]
  · rw [if_pos (not_not.mp (mt hreads.mp hlast)), if_neg hlast,
      value_whole (Nat.le_of_not_lt hlast)]
    simp only [List.length_eq_zero_iff]

theorem Fetched.between {k' : Nat} {s' : Parse} (hf : Fetched ends done p k j k' s s')
    (h : Reading ends done p k j s) (hlast : j + 1 = (fixedHeader p).length) (hbody : p.body = []) :
    k' = p.encode.length ∧ Framed ends (done ++ [p])
      (s'.calls ++ [⟨s'.rx 0, s'.msgIdx, j + 1, 0, 0, none⟩]) := by
  have hlength := encode_length p
  rw [hbody, List.length_nil] at hlength
  have hk' : k' = (fixedHeader p).length := by
    rcases hf.within with hlt | ⟨heq, -, -⟩
    · have hread := hf.read_lt
      omega
    · exact heq
  obtain ⟨before, group, hsplit, hframed, hgroup⟩ := h.calls
  have hnone : group = [] := by
    have hinside := h.inside
    rw [show k - (fixedHeader p).length = 0 by omega] at hgroup
    generalize hz : 0 = z at hgroup
    cases hgroup with
    | nil => rfl
    | snoc _ hn =>
        have hpos := hn.pos
        omega
  have hcontrol : s'.rx 0 = p.control := hf.stored 0 (by omega) (by omega)
  refine ⟨by omega, ?_⟩
  rw [hf.calls, hsplit, hnone, List.append_nil, hcontrol, hf.msgIdx, hk', hlast]
  exact .snoc hframed (.header hbody)

theorem headerByte_reading {k' : Nat} {s' : Parse} (hf : Fetched ends done p k j k' s s')
    (h : Reading ends done p k j s) (hj : j < (fixedHeader p).length) :
    (k' < p.encode.length ∧
        Reading ends done p k' (j + 1) (headerByte s' ((fixedHeader p).getD j 0))) ∨
      k' = p.encode.length ∧
        Between ends (done ++ [p]) (headerByte s' ((fixedHeader p).getD j 0)) := by
  have htwo := two_le_header p
  have hlength := encode_length p
  have hlt_of_body : p.body ≠ [] → k' < p.encode.length := fun hbody =>
    hf.within.resolve_right fun hend => hbody hend.2.2
  rcases Nat.eq_zero_or_pos j with rfl | hpos
  · -- the control byte
    have hlt : k' < p.encode.length := hf.within.resolve_right fun ⟨heq, hone, _⟩ => by omega
    have hnext := hf.hdr_next h hj
    refine .inl ⟨hlt, hf.reading h hj hlt ?_ ?_ ?_ ?_ ?_ ?_⟩
    all_goals
      rw [headerByte]
      dsimp only
      rw [hnext, if_neg (by omega)]
    rw [hf.msgRemLen, h.msgRemLen, if_pos hj, if_pos (by omega)]
  rw [hf.headerByte_eq h hj hpos]
  dsimp only
  split_ifs with hmore hbody
  · have hlt : k' < p.encode.length := hf.within.resolve_right fun ⟨heq, hone, _⟩ => by omega
    exact .inl ⟨hlt, hf.reading h hj hlt rfl rfl rfl rfl rfl (by rw [if_pos hmore])⟩
  · obtain ⟨hall, hframed⟩ := hf.between h (by omega) hbody
    refine .inr ⟨hall, rfl, rfl, ?_, hframed⟩
    exact (value_whole (Nat.le_of_not_lt hmore)).trans (by rw [hbody]; rfl)
  · have hlt := hlt_of_body hbody
    have hsize : p.body.length < 128 ^ 4 := h.sized
    have hle := h.sized.header_le
    refine .inl ⟨hlt, hf.reading h hj hlt rfl rfl rfl rfl rfl ?_⟩
    rw [if_neg hmore, hf.msgIdx]
    dsimp only
    omega

/-- The turns that are left at most, by the bytes of the segment and of the header. -/
def measure (seg : Pbuf) (s : Parse) : Nat :=
  7 * (seg.bytes.length - s.inOffset) + (6 - s.fixedHdrLen)

/-- A turn that has read the message up to byte `k'`. -/
structure Advanced (ends : List Nat) (done : List Packet) (p : Packet) (k k' : Nat) (seg : Pbuf)
    (s s' : Parse) : Prop where
  le : k ≤ k'
  offset : s'.inOffset = s.inOffset + (k' - k)
  within : s'.inOffset ≤ seg.bytes.length
  fewer : measure seg s' < measure seg s
  reached : (k' < p.encode.length ∧ ∃ j, Reading ends done p k' j s') ∨
    k' = p.encode.length ∧ Between ends (done ++ [p]) s'

variable {seg : Pbuf} {post rest : List UInt8} {base : Nat}

theorem headerByte_inOffset (s : Parse) (b : UInt8) :
    (headerByte s b).inOffset = s.inOffset := by
  rw [headerByte]
  dsimp only
  split_ifs <;> rfl

theorem headerTurn_advanced (h : Reading ends done p k j s) (hj : j < (fixedHeader p).length)
    (hmore : s.inOffset < seg.bytes.length)
    (hsame : seg.bytes.drop s.inOffset ++ post = p.encode.drop k ++ rest) :
    ∃ k' s', headerTurn seg s = .goOn s' ∧ Advanced ends done p k k' seg s s' := by
  have hle := h.sized.header_le
  have hread := h.read_le
  have hlength := encode_length p
  have hseg := seg.totLen_lt
  have hinside := h.inside
  change seg.bytes.length < 65536 at hseg
  have hmeasure : ∀ s' : Parse, s'.fixedHdrLen = j + 1 ∨ s'.fixedHdrLen = 0 →
      s'.inOffset = s.inOffset + 1 → measure seg s' < measure seg s := by
    intro s' hhdr hoff
    rw [measure, measure, hoff, h.fixedHdrLen]
    omega
  rw [headerTurn, h.fixedHdrLen, h.msgIdx]
  by_cases hold : j < k
  · -- a byte that came with an earlier segment
    rw [if_pos hold, if_neg (by rw [varHeaderBufferLen]; omega), h.stored j hold hj]
    refine ⟨k, _, rfl, ?_⟩
    have hfetched : Fetched ends done p k j k s s :=
      ⟨hold, .inl h.inside, h.msgIdx, rfl, h.stored, rfl, rfl, fun _ => id⟩
    have hnext := headerByte_reading hfetched h hj
    have hstay := headerByte_inOffset s ((fixedHeader p).getD j 0)
    rcases hnext with ⟨-, hreading⟩ | ⟨hall, -⟩
    · refine ⟨Nat.le_refl k, by rw [hstay]; omega, by omega, ?_, .inl ⟨h.inside, j + 1, hreading⟩⟩
      rw [measure, measure, hstay, hreading.fixedHdrLen, h.fixedHdrLen]
      omega
    · omega
  · obtain rfl : j = k := by omega
    rw [if_neg hold, if_neg (by rw [varHeaderBufferLen]; omega)]
    have hbyte : seg.bytes.getD s.inOffset 0 = (fixedHeader p).getD j 0 := by
      rw [same_byte hsame hmore h.inside, encode_eq, List.getD_append _ _ _ _ hj]
    have hoff : (s.inOffset + 1) % 2 ^ 16 = s.inOffset + 1 := Nat.mod_eq_of_lt (by omega)
    dsimp only
    rw [hbyte, hoff]
    refine ⟨j + 1, _, rfl, ?_⟩
    have hend : j + 1 < p.encode.length ∨
        j + 1 = (fixedHeader p).length ∧ j + 1 = j + 1 ∧ p.body = [] := by
      rcases Nat.lt_or_ge (j + 1) p.encode.length with hlt | hge
      · exact .inl hlt
      · exact .inr ⟨by omega, rfl, List.length_eq_zero_iff.mp (by omega)⟩
    have hstored : ∀ i < j + 1, i < (fixedHeader p).length →
        Function.update s.rx j ((fixedHeader p).getD j 0) i = (fixedHeader p).getD i 0 := by
      intro i hi hih
      rcases Nat.lt_or_ge i j with hlt | hge
      · rw [Function.update_of_ne (by omega), h.stored i hlt hih]
      · obtain rfl : i = j := by omega
        rw [Function.update_self]
    have hpieces : ∀ group, Pieces ends (encodedLength done) p (j - (fixedHeader p).length) group →
        Pieces ends (encodedLength done) p (j + 1 - (fixedHeader p).length) group := by
      intro group hgroup
      rwa [show j + 1 - (fixedHeader p).length = j - (fixedHeader p).length by omega]
    have hfetched : Fetched ends done p j j (j + 1) s { s with
        inOffset := s.inOffset + 1
        rx := Function.update s.rx j ((fixedHeader p).getD j 0)
        msgIdx := j + 1
        fixedHdrLen := j } :=
      ⟨Nat.lt_succ_self j, hend, rfl, rfl, hstored, h.fixedHdrLen.symm, rfl, hpieces⟩
    have hnext := headerByte_reading hfetched h hj
    generalize hstate : headerByte _ _ = s' at hnext ⊢
    have hstay : s'.inOffset = s.inOffset + 1 := by
      rw [← hstate, headerByte_inOffset]
    refine ⟨Nat.le_succ j, by rw [hstay]; omega, by rw [hstay]; exact hmore, ?_, ?_⟩
    · apply hmeasure s' _ hstay
      rcases hnext with ⟨-, hreading⟩ | ⟨-, hbetween⟩
      · exact .inl hreading.fixedHdrLen
      · exact .inr hbetween.fixedHdrLen
    · exact hnext.imp (fun hr => ⟨hr.1, j + 1, hr.2⟩) id

/-- A message does not need more than one call, or lies in one buffer where it does. -/
def Fits (seg : Pbuf) (p : Packet) : Prop :=
  seg.len = seg.bytes.length ∨ p.encode.length ≤ varHeaderBufferLen

theorem copyLen_eq (h : Reading ends done p k j s) (hj : j = (fixedHeader p).length)
    (hmore : s.inOffset < seg.bytes.length) (hfits : Fits seg p) :
    copyLen seg s = min (min (seg.bytes.length - s.inOffset) (p.encode.length - k))
      (varHeaderBufferLen - j) := by
  have hseg := seg.totLen_lt
  change seg.bytes.length < 65536 at hseg
  have hinside := h.inside
  have hrem := h.msgRemLen
  rw [if_neg (by omega)] at hrem
  have hleft : (seg.bytes.length + 2 ^ 16 - s.inOffset) % 2 ^ 16 =
      seg.bytes.length - s.inOffset := by
    omega
  have hmin : min (seg.bytes.length - s.inOffset) (p.encode.length - k) % 2 ^ 16 =
      min (seg.bytes.length - s.inOffset) (p.encode.length - k) := Nat.mod_eq_of_lt (by omega)
  rw [copyLen, hrem, hleft, hmin, h.fixedHdrLen, h.msgIdx]
  have hwhole : ∀ c, c ≤ seg.bytes.length - s.inOffset →
      ¬ (k ≥ varHeaderBufferLen ∧ (c : Int) > (seg.len : Int) - s.inOffset) := by
    intro c hc hzero
    rcases hfits with hlen | hsmall
    · rw [hlen] at hzero
      omega
    · omega
  split_ifs with hspace hzero hzero
  · exact absurd hzero (hwhole _ (by omega))
  · omega
  · exact absurd hzero (hwhole _ (by omega))
  · omega

theorem pbufGetContiguous_eq (c space : Nat) (hhdr : (fixedHeader p).length ≤ k)
    (hspace : c ≤ space) (hmore : s.inOffset < seg.bytes.length)
    (hseg : c ≤ seg.bytes.length - s.inOffset) (hmsg : c ≤ p.encode.length - k)
    (hsame : seg.bytes.drop s.inOffset ++ post = p.encode.drop k ++ rest) :
    pbufGetContiguous seg space c s.inOffset =
      some ((p.body.drop (k - (fixedHeader p).length)).take c) := by
  have htake := same_bytes hsame (n := c) (by rwa [List.length_drop]) (by rwa [List.length_drop])
  have hbody : p.encode.drop k = p.body.drop (k - (fixedHeader p).length) := by
    rw [encode_eq, List.drop_append, List.drop_of_length_le hhdr, List.nil_append]
  rw [pbufGetContiguous, if_neg (by omega), if_neg (by omega), if_pos (by omega), htake, hbody]

theorem storeAt_below {rx : Nat → UInt8} {start i : Nat} (bytes : List UInt8) (hi : i < start) :
    storeAt rx start bytes i = rx i := if_neg (by omega)

/-- The state with `c` more bytes of the message handed on. -/
def handed (seg : Pbuf) (p : Packet) (k j c : Nat) (s : Parse) : Parse :=
  { s with
    rx := storeAt s.rx j (copiedBytes seg (varHeaderBufferLen - j) c s.inOffset)
    msgIdx := k + c
    fixedHdrLen := j
    msgRemLen := p.encode.length - (k + c)
    inOffset := s.inOffset + c
    calls := s.calls ++ [pieceCall p (k - (fixedHeader p).length) c] }

theorem bodyTurn_eq (answers : Answers) (h : Reading ends done p k j s)
    (hj : j = (fixedHeader p).length) (hmore : s.inOffset < seg.bytes.length) {c : Nat}
    (hcopy : copyLen seg s = c) (hbuffer : c ≤ varHeaderBufferLen - j)
    (hleft : c ≤ seg.bytes.length - s.inOffset) (hmsg : c ≤ p.encode.length - k)
    (hsame : seg.bytes.drop s.inOffset ++ post = p.encode.drop k ++ rest) :
    bodyTurn answers seg s =
      if answers (handed seg p k j c s).calls = false then .stop .refused (handed seg p k j c s)
      else if p.encode.length - (k + c) = 0 then
        .goOn { handed seg p k j c s with msgIdx := 0, fixedHdrLen := 0 }
      else .goOn (handed seg p k j c s) := by
  have hseg := seg.totLen_lt
  change seg.bytes.length < 65536 at hseg
  have hle := h.sized.header_le
  have hread := h.read_le
  have hinside := h.inside
  have hlength := encode_length p
  have hsize : p.body.length < 128 ^ 4 := h.sized
  have htwo := two_le_header p
  have hrem := h.msgRemLen
  rw [if_neg (by omega)] at hrem
  have hpiece := pbufGetContiguous_eq c (varHeaderBufferLen - j) (by omega) hbuffer hmore hleft
    hmsg hsame
  have hmsgIdx : (k + c) % 2 ^ 32 = k + c := Nat.mod_eq_of_lt (by omega)
  have hremain : (p.encode.length - k + 2 ^ 32 - c) % 2 ^ 32 = p.encode.length - (k + c) := by
    omega
  have hoffset : (s.inOffset + c) % 2 ^ 16 = s.inOffset + c := Nat.mod_eq_of_lt (by omega)
  have hcall : (⟨(fixedHeader p).getD 0 0, k + c, j, c, p.encode.length - (k + c),
      some ((p.body.drop (k - (fixedHeader p).length)).take c)⟩ : Call) =
      pieceCall p (k - (fixedHeader p).length) c := by
    rw [pieceCall, show (fixedHeader p).length + (k - (fixedHeader p).length) + c = k + c by omega,
      show p.encode.length - (k + c) =
        p.body.length - (k - (fixedHeader p).length + c) by omega, hj]
    rfl
  rw [bodyTurn, hcopy]
  dsimp only
  rw [hrem, h.fixedHdrLen, h.msgIdx, hpiece, hmsgIdx, hremain, hoffset,
    h.stored 0 (by omega) (by omega), hcall]
  rfl

theorem Reading.next_piece (h : Reading ends done p k j s) (hj : j = (fixedHeader p).length)
    {c : Nat} (hpiece : Piece ends (encodedLength done) p (k - (fixedHeader p).length) c) :
    ∃ before group, (handed seg p k j c s).calls = before ++ group ∧ Framed ends done before ∧
      Pieces ends (encodedLength done) p (k + c - (fixedHeader p).length) group := by
  have hread := h.read_le
  obtain ⟨before, group, hsplit, hframed, hgroup⟩ := h.calls
  refine ⟨before, group ++ [pieceCall p (k - (fixedHeader p).length) c], ?_, hframed, ?_⟩
  · rw [handed, hsplit, List.append_assoc]
  · rw [show k + c - (fixedHeader p).length = k - (fixedHeader p).length + c by omega]
    exact .snoc hgroup hpiece

theorem handed_reading (h : Reading ends done p k j s) (hj : j = (fixedHeader p).length) {c : Nat}
    (hpiece : Piece ends (encodedLength done) p (k - (fixedHeader p).length) c)
    (hlt : k + c < p.encode.length) : Reading ends done p (k + c) j (handed seg p k j c s) := by
  have hread := h.read_le
  refine ⟨h.sized, rfl, hlt, ?_, rfl, Nat.le_add_right_of_le hread, h.header_le, h.b, ?_,
    h.next_piece hj hpiece⟩
  · intro i _ hi
    exact (storeAt_below _ (by omega)).trans (h.stored i (by omega) hi)
  · rw [if_neg (by omega)]
    rfl

theorem handed_between (h : Reading ends done p k j s) (hj : j = (fixedHeader p).length) {c : Nat}
    (hpiece : Piece ends (encodedLength done) p (k - (fixedHeader p).length) c)
    (hall : k + c = p.encode.length) :
    Between ends (done ++ [p]) { handed seg p k j c s with msgIdx := 0, fixedHdrLen := 0 } := by
  have hlength := encode_length p
  obtain ⟨before, group, hcalls, hframed, hgroup⟩ :
      ∃ before group, (handed seg p k j c s).calls = before ++ group ∧ Framed ends done before ∧
        Pieces ends (encodedLength done) p (k + c - (fixedHeader p).length) group :=
    h.next_piece hj hpiece
  refine ⟨rfl, rfl, ?_, ?_⟩
  · change p.encode.length - (k + c) = 0
    omega
  · rw [hcalls]
    refine .snoc hframed (.pieces ?_ ?_)
    · rintro hnil
      have hpos := hpiece.pos
      have hle := hpiece.le
      rw [hnil, List.length_nil] at hle
      omega
    · rwa [show p.body.length = k + c - (fixedHeader p).length by omega]

theorem bodyTurn_advanced (answers : Answers) (h : Reading ends done p k j s)
    (hj : j = (fixedHeader p).length) (hmore : s.inOffset < seg.bytes.length)
    (hfits : Fits seg p) (hbase : encodedLength done + k = base + s.inOffset)
    (hend : base + seg.bytes.length ∈ ends)
    (hsame : seg.bytes.drop s.inOffset ++ post = p.encode.drop k ++ rest) :
    ∃ k' s', Advanced ends done p k k' seg s s' ∧ (bodyTurn answers seg s = .goOn s' ∨
      ∃ s'', bodyTurn answers seg s = .stop .refused s'' ∧ s''.calls = s'.calls ∧
        answers s'.calls = false) := by
  have hcopy := copyLen_eq h hj hmore hfits
  have hle := h.sized.header_le
  have hread := h.read_le
  have hinside := h.inside
  have hlength := encode_length p
  have hbuffer : varHeaderBufferLen = 128 := rfl
  generalize hc : copyLen seg s = c at hcopy
  have hpiece : Piece ends (encodedLength done) p (k - (fixedHeader p).length) c := by
    refine ⟨by omega, by omega, by omega, ?_⟩
    by_cases hbuffer : (fixedHeader p).length + c = varHeaderBufferLen
    · exact .inl hbuffer
    by_cases hmessage : k - (fixedHeader p).length + c = p.body.length
    · exact .inr (.inl hmessage)
    · rw [show base + seg.bytes.length = encodedLength done + (fixedHeader p).length +
        (k - (fixedHeader p).length) + c by omega] at hend
      exact .inr (.inr hend)
  rw [bodyTurn_eq answers h hj hmore hc (by omega) (by omega) (by omega) hsame]
  by_cases hall : p.encode.length - (k + c) = 0
  · rw [if_pos hall]
    refine ⟨k + c, { handed seg p k j c s with msgIdx := 0, fixedHdrLen := 0 },
      ⟨by omega, ?_, ?_, ?_, .inr ⟨by omega, handed_between h hj hpiece (by omega)⟩⟩, ?_⟩
    · change s.inOffset + c = _
      omega
    · change s.inOffset + c ≤ _
      omega
    · rw [measure, measure, h.fixedHdrLen]
      change 7 * (_ - (s.inOffset + c)) + 6 < _
      omega
    · split_ifs with hno
      · exact .inr ⟨_, rfl, rfl, hno⟩
      · exact .inl rfl
  · rw [if_neg hall]
    refine ⟨k + c, handed seg p k j c s,
      ⟨by omega, ?_, ?_, ?_, .inl ⟨by omega, j, handed_reading h hj hpiece (by omega)⟩⟩, ?_⟩
    · change s.inOffset + c = _
      omega
    · change s.inOffset + c ≤ _
      omega
    · rw [measure, measure, h.fixedHdrLen]
      change 7 * (_ - (s.inOffset + c)) + (6 - j) < _
      omega
    · split_ifs with hno
      · exact .inr ⟨_, rfl, rfl, hno⟩
      · exact .inl rfl

theorem turn_advanced (answers : Answers) (h : Reading ends done p k j s)
    (hmore : s.inOffset < seg.bytes.length) (hfits : Fits seg p)
    (hbase : encodedLength done + k = base + s.inOffset) (hend : base + seg.bytes.length ∈ ends)
    (hsame : seg.bytes.drop s.inOffset ++ post = p.encode.drop k ++ rest) :
    ∃ k' s', Advanced ends done p k k' seg s s' ∧ (turn answers seg s = .goOn s' ∨
      ∃ s'', turn answers seg s = .stop .refused s'' ∧ s''.calls = s'.calls ∧
        answers s'.calls = false) := by
  have hreads := reads_on_iff h.header_le h.b
  rw [turn, h.fixedHdrLen]
  split_ifs with hheader
  · obtain ⟨k', s', hturn, hadvanced⟩ := headerTurn_advanced h (hreads.mp hheader) hmore hsame
    exact ⟨k', s', hadvanced, .inl hturn⟩
  · have hle := h.header_le
    exact bodyTurn_advanced answers h (by rw [hreads] at hheader; omega) hmore hfits hbase hend
      hsame

/-! ## Whole segments -/

/-- Where the parser is, with the messages that are not yet handed on. -/
inductive At (ends : List Nat) (done : List Packet) : List Packet → Nat → Parse → Prop
  | between {ps : List Packet} {s : Parse} : Between ends done s → At ends done ps 0 s
  | reading {p : Packet} {ps : List Packet} {k j : Nat} {s : Parse} :
      Reading ends done p k j s → At ends done (p :: ps) k s

variable {ps todo : List Packet}

theorem At.handedOn (h : At ends done todo k s) : HandedOn ends (done ++ todo) done k s.calls := by
  cases h with
  | between h =>
      refine ⟨todo, s.calls, [], rfl, (List.append_nil _).symm, h.calls, ?_⟩
      cases todo with
      | nil => exact ⟨rfl, rfl⟩
      | cons p ps =>
          refine ⟨encode_pos p, ?_⟩
          rw [Nat.zero_sub]
          exact .nil
  | reading h =>
      obtain ⟨before, group, hsplit, hframed, hgroup⟩ := h.calls
      exact ⟨_, before, group, rfl, hsplit, hframed, h.inside, hgroup⟩

theorem At.again (h : At ends done todo k s) : At ends done todo k { s.toReceiver with } := by
  cases h with
  | between h => exact .between ⟨h.msgIdx, rfl, rfl, h.calls⟩
  | reading h =>
      rename_i p ps j
      refine .reading ⟨h.sized, h.msgIdx, h.inside, h.stored, rfl, Nat.zero_le _, Nat.zero_le _,
        fun hpos => absurd hpos (Nat.lt_irrefl 0), ?_, h.calls⟩
      rw [if_pos (show 0 < (fixedHeader p).length from Nat.succ_pos _)]
      rfl

theorem At.le (h : At ends done todo k s) : k ≤ (todo.flatMap Packet.encode).length := by
  cases h with
  | between h => exact Nat.zero_le _
  | reading h =>
      rw [List.flatMap_cons, List.length_append]
      exact Nat.le_of_lt (Nat.lt_add_right _ h.inside)

theorem At.finished (h : At ends done todo k s) (hall : (todo.flatMap Packet.encode).length ≤ k) :
    todo = [] ∧ Framed ends done s.calls := by
  cases h with
  | between h =>
      refine ⟨?_, h.calls⟩
      cases todo with
      | nil => rfl
      | cons p ps =>
          rw [List.flatMap_cons, List.length_append] at hall
          have hpos := encode_pos p
          omega
  | reading h =>
      rw [List.flatMap_cons, List.length_append] at hall
      have hinside := h.inside
      omega

theorem At.inside (h : At ends done todo k s) (hsized : ∀ p ∈ todo, Sized p)
    (hmore : s.inOffset < seg.bytes.length)
    (hsame : seg.bytes.drop s.inOffset ++ post = (todo.flatMap Packet.encode).drop k) :
    ∃ p ps j, todo = p :: ps ∧ Reading ends done p k j s := by
  cases h with
  | reading h => exact ⟨_, _, _, rfl, h⟩
  | between h =>
      cases todo with
      | nil =>
          have hlength := congrArg List.length hsame
          rw [List.length_append, List.length_drop, List.flatMap_nil, List.drop_nil,
            List.length_nil] at hlength
          omega
      | cons p ps => exact ⟨p, ps, 0, rfl, h.reading (hsized p List.mem_cons_self)⟩

/-- The bytes of a segment, from the parser's place on, and the bytes that come after it are those
of the messages that are left. -/
def Follows (todo : List Packet) (k : Nat) (bytes : List UInt8) (post : List UInt8) : Prop :=
  bytes ++ post = (todo.flatMap Packet.encode).drop k

/-- How a segment ends that goes up to `base`. -/
def SegmentEnd (ends : List Nat) (answers : Answers) (ps : List Packet) (base : Nat)
    (post : List UInt8) : Status × Receiver → Prop
  | (.overrun, _) => False
  | (.refused, r) => answers r.calls = false ∧ ∃ done k, HandedOn ends ps done k r.calls
  | (.accepted, r) => ∃ done todo k, ps = done ++ todo ∧ At ends done todo k { r with } ∧
      encodedLength done + k = base ∧ Follows todo k [] post

theorem encodedLength_snoc (ps : List Packet) (p : Packet) :
    encodedLength (ps ++ [p]) = encodedLength ps + p.encode.length := by
  rw [encodedLength, List.flatMap_append, List.length_append, List.flatMap_singleton]
  rfl

theorem Advanced.at {s' : Parse} {k' : Nat} (h : Advanced ends done p k k' seg s s')
    (hbase : encodedLength done + k = base + s.inOffset)
    (hsame : Follows (p :: ps) k (seg.bytes.drop s.inOffset) post) :
    ∃ done' todo' k'', done' ++ todo' = done ++ p :: ps ∧ At ends done' todo' k'' s' ∧
      encodedLength done' + k'' = base + s'.inOffset ∧
      Follows todo' k'' (seg.bytes.drop s'.inOffset) post := by
  have hle := h.le
  have hoff := h.offset
  have hwithin := h.within
  have hdrop : seg.bytes.drop s'.inOffset ++ post =
      ((p :: ps).flatMap Packet.encode).drop k' := by
    have hmore := congrArg (List.drop (k' - k)) hsame
    rwa [List.drop_append_of_le_length (by rw [List.length_drop]; omega), List.drop_drop,
      List.drop_drop, ← hoff, show k + (k' - k) = k' by omega] at hmore
  rcases h.reached with ⟨hinside, j, hreading⟩ | ⟨rfl, hbetween⟩
  · exact ⟨done, p :: ps, k', rfl, .reading hreading, by omega, hdrop⟩
  · refine ⟨done ++ [p], ps, 0, by rw [List.append_assoc]; rfl, .between hbetween, ?_, ?_⟩
    · rw [encodedLength_snoc]
      omega
    · rw [Follows, hdrop, List.flatMap_cons, List.drop_left, List.drop_zero]

/-- Every message fits that has bytes in common with a segment from `base` on. -/
def FitsAt (ps : List Packet) (base : Nat) (seg : Pbuf) : Prop :=
  ∀ before p after, ps = before ++ p :: after → encodedLength before < base + seg.bytes.length →
    base < encodedLength before + p.encode.length → Fits seg p

def AllFit (ps : List Packet) : Nat → List Pbuf → Prop
  | _, [] => True
  | base, seg :: segs => FitsAt ps base seg ∧ AllFit ps (base + seg.bytes.length) segs

theorem allFit_of_small {ps : List Packet} {segs : List Pbuf}
    (hsmall : ∀ p ∈ ps, p.encode.length ≤ varHeaderBufferLen) {base : Nat} :
    AllFit ps base segs := by
  induction segs generalizing base with
  | nil => trivial
  | cons seg segs ih =>
      refine ⟨fun before p after hsplit _ _ => .inr (hsmall p ?_), ih⟩
      rw [hsplit]
      exact List.mem_append_right _ List.mem_cons_self

/-- The loop comes to an end, and to a good one. -/
theorem parseLoop_segmentEnd (answers : Answers) (hsized : ∀ p ∈ ps, Sized p)
    (hfits : FitsAt ps base seg) {fuel : Nat} (hfuel : measure seg s < fuel)
    (hend : base + seg.bytes.length ∈ ends) (hps : ps = done ++ todo)
    (hat : At ends done todo k s) (hwithin : s.inOffset ≤ seg.bytes.length)
    (hbase : encodedLength done + k = base + s.inOffset)
    (hsame : Follows todo k (seg.bytes.drop s.inOffset) post) :
    ∃ res, parseLoop answers seg fuel s = some res ∧
      SegmentEnd ends answers ps (base + seg.bytes.length) post res := by
  induction fuel generalizing done todo k s with
  | zero => exact absurd hfuel (Nat.not_lt_zero _)
  | succ fuel ih =>
      rw [parseLoop]
      split_ifs with hmore
      · have hin : ∀ p ∈ todo, p ∈ ps := fun p hp => by rw [hps]; exact List.mem_append_right _ hp
        obtain ⟨p, ps', j, rfl, hreading⟩ :=
          hat.inside (fun p hp => hsized p (hin p hp)) hmore hsame
        have hsplit := hsame
        rw [Follows, List.flatMap_cons,
          List.drop_append_of_le_length (Nat.le_of_lt hreading.inside)] at hsplit
        have hinside := hreading.inside
        have hfit : Fits seg p := hfits done p ps' hps (by omega) (by omega)
        obtain ⟨k', s', hadvanced, hturn⟩ := turn_advanced answers hreading hmore hfit hbase hend
          hsplit
        obtain ⟨done', todo', k'', hsum, hat', hbase', hsame'⟩ := hadvanced.at hbase hsame
        have hfewer := hadvanced.fewer
        rcases hturn with hturn | ⟨s'', hturn, hcalls, hno⟩
        · rw [hturn]
          exact ih (by omega) (hps.trans hsum.symm) hat' hadvanced.within hbase' hsame'
        · rw [hturn]
          refine ⟨_, rfl, ?_⟩
          have hhanded := hat'.handedOn
          rw [hsum, ← hps, ← hcalls] at hhanded
          rw [← hcalls] at hno
          exact ⟨hno, done', k'', hhanded⟩
      · refine ⟨_, rfl, done, todo, k, hps, hat.again, by omega, ?_⟩
        rwa [List.drop_of_length_le (Nat.le_of_not_lt hmore)] at hsame

/-- The numbers of bytes after which segments end. -/
def segmentEnds : Nat → List Pbuf → List Nat
  | _, [] => []
  | base, seg :: segs => (base + seg.bytes.length) :: segmentEnds (base + seg.bytes.length) segs

theorem receive_segmentEnd (answers : Answers) (hsized : ∀ p ∈ ps, Sized p) {segs : List Pbuf}
    (hfits : AllFit ps base segs) {fuel : Nat}
    (hfuel : ∀ seg ∈ segs, 7 * seg.bytes.length + 6 < fuel) {r : Receiver}
    (hends : ∀ e ∈ segmentEnds base segs, e ∈ ends)
    (hps : ps = done ++ todo) (hat : At ends done todo k { r with })
    (hbase : encodedLength done + k = base)
    (hsame : Follows todo k (segs.flatMap Pbuf.bytes) post) :
    ∃ res, receive answers fuel segs r = some res ∧
      SegmentEnd ends answers ps (base + (segs.flatMap Pbuf.bytes).length) post res := by
  induction segs generalizing done todo k r base with
  | nil => exact ⟨_, rfl, done, todo, k, hps, hat, hbase, hsame⟩
  | cons seg segs ih =>
      rw [Follows, List.flatMap_cons, List.append_assoc] at hsame
      have hone := hfuel seg List.mem_cons_self
      have hsegment : ∃ res, parseLoop answers seg fuel { r with } = some res ∧
          SegmentEnd ends answers ps (base + seg.bytes.length)
            (segs.flatMap Pbuf.bytes ++ post) res :=
        parseLoop_segmentEnd answers hsized hfits.1 (by rw [measure]; exact hone)
          (hends _ List.mem_cons_self) hps hat (Nat.zero_le _) hbase hsame
      obtain ⟨⟨sts, r'⟩, hloop, hend⟩ := hsegment
      rw [receive, mqttParseIncoming, hloop, List.flatMap_cons, List.length_append,
        ← Nat.add_assoc]
      cases sts with
      | accepted =>
          obtain ⟨done', todo', k', hps', hat', hbase', hsame'⟩ := hend
          rw [Follows, List.nil_append] at hsame'
          exact ih hfits.2 (fun q hq => hfuel q (List.mem_cons_of_mem _ hq))
            (fun e he => hends e (List.mem_cons_of_mem _ he)) hps' hat' hbase' hsame'
      | refused => exact ⟨_, rfl, hend⟩
      | overrun => exact absurd hend id

theorem receive_end (answers : Answers) {segs : List Pbuf} {fuel : Nat}
    (hsized : ∀ p ∈ ps, Sized p)
    (hstream : segs.flatMap Pbuf.bytes ++ post = ps.flatMap Packet.encode)
    (hfits : AllFit ps 0 segs) (hfuel : ∀ seg ∈ segs, 7 * seg.bytes.length + 6 < fuel) :
    ∃ res, receive answers fuel segs {} = some res ∧
      SegmentEnd (segmentEnds 0 segs) answers ps (segs.flatMap Pbuf.bytes).length post res := by
  have hstart : At (segmentEnds 0 segs) [] ps 0 { ({} : Receiver) with } :=
    .between ⟨rfl, rfl, rfl, .nil⟩
  obtain ⟨res, hrun, hend⟩ := receive_segmentEnd answers hsized hfits hfuel (fun _ => id)
    (List.nil_append ps).symm hstart rfl (hstream.trans List.drop_zero.symm)
  rw [Nat.zero_add] at hend
  exact ⟨res, hrun, hend⟩

end

/-- Wherever the segments end, the calls are for the messages that came, in order, and for the
pieces of the last one that came in part: nothing is lost, nothing is handed on twice, and
`rx_buffer` is not overrun. A message of more than `rx_buffer` has to lie in segments of one
buffer each; the others may be chains. -/
theorem parse_frames (answers : Answers) (ps : List Packet) (segs : List Pbuf)
    (post : List UInt8) (fuel : Nat) (hsized : ∀ p ∈ ps, Sized p)
    (hstream : segs.flatMap Pbuf.bytes ++ post = ps.flatMap Packet.encode)
    (hfits : AllFit ps 0 segs) (hfuel : ∀ seg ∈ segs, 7 * seg.bytes.length + 6 < fuel) :
    ∃ sts r done k, receive answers fuel segs {} = some (sts, r) ∧
      HandedOn (segmentEnds 0 segs) ps done k r.calls ∧
      (sts = .refused ∧ answers r.calls = false ∨
        sts = .accepted ∧ encodedLength done + k = (segs.flatMap Pbuf.bytes).length ∧
          (post = [] → Framed (segmentEnds 0 segs) ps r.calls)) := by
  obtain ⟨⟨sts, r⟩, hrun, hend⟩ := receive_end answers hsized hstream hfits hfuel
  cases sts with
  | refused =>
      obtain ⟨hno, done, k, hhanded⟩ := hend
      exact ⟨_, r, done, k, hrun, hhanded, .inl ⟨rfl, hno⟩⟩
  | accepted =>
      obtain ⟨done, todo, k, rfl, hat, hbase, hsame⟩ := hend
      have hleft := congrArg List.length hsame
      rw [List.nil_append, List.length_drop] at hleft
      refine ⟨_, r, done, k, hrun, hat.handedOn, .inr ⟨rfl, hbase, fun hpost => ?_⟩⟩
      rw [hpost, List.length_nil] at hleft
      obtain ⟨rfl, hframed⟩ := hat.finished (by omega)
      rwa [List.append_nil]
  | overrun => exact absurd hend id

/-- A `CONNACK`, and a `PUBLISH` that is larger than `rx_buffer`. -/
def samplePackets : List Packet := [⟨0x20, [0, 0]⟩, ⟨0x30, [0, 1, 97] ++ List.replicate 200 33⟩]

/-- The first one in two buffers, and a part of the second one in a single buffer. -/
def sampleSegments : List Pbuf :=
  [⟨[[0x20, 2], [0, 0]], by decide⟩,
    ⟨[[0x30, 0xCB, 1] ++ ([0, 1, 97] ++ List.replicate 100 33)], by decide⟩]

theorem sampleHeader : Varint.encode 203 = [0xCB, 1] := by
  simp [Varint.encode]

theorem sampleSegments_fit : AllFit samplePackets 0 sampleSegments := by
  refine ⟨?_, fun _ _ _ _ _ _ => .inl rfl, trivial⟩
  rintro (_ | ⟨first, before⟩) p after hsplit hbelow -
  · obtain ⟨rfl, -⟩ := List.cons_eq_cons.mp hsplit
    have hlength : (Packet.encode ⟨0x20, [0, 0]⟩).length ≤ varHeaderBufferLen := by
      rw [Packet.encode, Varint.encode_small (by decide)]
      decide
    exact .inr hlength
  · obtain ⟨rfl, -⟩ := List.cons_eq_cons.mp hsplit
    rw [encodedLength, List.flatMap_cons, List.length_append, Packet.encode,
      Varint.encode_small (by decide)] at hbelow
    change 4 + _ < 0 + 4 at hbelow
    omega

theorem parse_frames_sample :
    ∃ sts r done k, receive (fun _ => true) 1024 sampleSegments {} = some (sts, r) ∧
      HandedOn [4, 110] samplePackets done k r.calls ∧
      (sts = .refused ∧ true = false ∨
        sts = .accepted ∧ encodedLength done + k = 110 ∧
          (List.replicate 100 (33 : UInt8) = [] → Framed [4, 110] samplePackets r.calls)) := by
  apply parse_frames (fun _ => true) samplePackets sampleSegments (List.replicate 100 33) 1024
  · intro p hp
    rcases List.mem_pair.mp hp with rfl | rfl
    · exact (by decide : 2 < 128 ^ 4)
    · rw [Sized, List.length_append, List.length_replicate]
      decide
  · have hbody : List.replicate (100 + 100) (33 : UInt8) =
        List.replicate 100 33 ++ List.replicate 100 33 := List.replicate_append_replicate.symm
    have hlength : ([0, 1, 97] ++ List.replicate 200 (33 : UInt8)).length = 203 := rfl
    simp only [samplePackets, sampleSegments, Pbuf.bytes, List.flatMap_cons, List.flatMap_nil,
      List.flatten_cons, List.flatten_nil, List.append_nil, Packet.encode, hlength, sampleHeader]
    rw [Varint.encode_small (by decide), hbody]
    simp only [List.cons_append, List.nil_append]
    rfl
  · exact sampleSegments_fit
  · decide

end ShGateway.MqttParser
