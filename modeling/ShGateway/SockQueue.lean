import ShGateway.Lib.BufChain
import ShGateway.SockSrv

/-!
The data that a connection of `sock_srv.c` has yet to send, as a chain of pbufs.
-/

namespace ShGateway.SockQueue

open ShGateway.Lib.BufChain
open ShGateway.Lib.Runs
open ShGateway.SockSrv (EsState Segment)

variable {n : Nat}

/-! ## Pbufs -/

/-- The pbufs in use of a pool of `n`, without those of other connections. -/
abbrev Pbufs (n : Nat) := Pool (Fin n) UInt8

/-- The loop of `pbuf_alloc`: `slots` are the pbufs that the pool has left, with the room
in each. No result stands for a pool that is empty too soon. -/
def segments : List (Fin n × Nat) → Nat → Option (List (Fin n × Nat))
  | [], _ => none
  | (q, room) :: slots, remLen =>
      if remLen ≤ room then some [(q, remLen)]
      else (segments slots (remLen - room)).map ((q, room) :: ·)

/-- `pbuf_alloc`, which gives back what it has taken if that is not enough. -/
def pbufAlloc (pool : Pbufs n) (slots : List (Fin n × Nat)) (length : Nat) :
    Option (Fin n) × Pbufs n :=
  match segments slots length with
  | none => (none, pool)
  | some segs =>
      (segs.head?.map Prod.fst, build pool (segs.map fun e => (e.1, List.replicate e.2 0)))

def pbufTake (pool : Pbufs n) (buf : Fin n) (data : List UInt8) : Option (Pbufs n) :=
  fill (n + 1) pool (some buf) data

def pbufChain (pool : Pbufs n) (h t : Fin n) : Option (Pbufs n) := chain (n + 1) pool h t

/-! ## A connection -/

/-- What `tcp_write` returns. -/
inductive WrErr
  | ok
  | mem
  | other
deriving DecidableEq, Repr

/-- `struct tcp_echoserver_struct`. -/
structure Es (n : Nat) where
  state : EsState
  p : Option (Fin n)

/-- A connection, without its structure once it is closed. After an error the structure is freed,
but `callback_arg` of the pcb, which is freed as well, still points to it. `accepted` are the data
of the calls of `sock_srv_send` that returned 0, `written` those that `tcp_write` took. -/
structure Conn (n : Nat) where
  pool : Pbufs n := fun _ => none
  es : Option (Es n) := some ⟨.accepted, none⟩
  failed : Bool := false
  accepted : List UInt8 := []
  written : List UInt8 := []

/-- `es->p`, null without the structure. -/
def Conn.head (c : Conn n) : Option (Fin n) := c.es.bind Es.p

/-- The loop of `tcp_echoserver_send` with the room in the send buffer and the result of
`tcp_write` for each turn: the pbufs, `es->p` and the data written. The last three
statements for a pbuf that was written, `es->p = ptr->next`, `pbuf_ref` and `pbuf_free`,
are `advance`. -/
def tcpEchoserverSend : List (Nat × WrErr) → Pbufs n → Option (Fin n) →
    Option (Pbufs n × Option (Fin n) × List UInt8)
  | (sndbuf, wrErr) :: env, pool, some ptr =>
      (pool ptr).bind fun b =>
        if b.data.length ≤ sndbuf ∧ wrErr = .ok then
          (advance (n + 1) pool ptr).bind fun next =>
            (tcpEchoserverSend env next.2 next.1).map fun out =>
              (out.1, out.2.1, b.data ++ out.2.2)
        else some (pool, some ptr, [])
  | _, pool, p => some (pool, p, [])

def Conn.send (c : Conn n) (es : Es n) (env : List (Nat × WrErr)) : Option (Conn n) :=
  (tcpEchoserverSend env c.pool es.p).map fun out =>
    { c with
      pool := out.1
      es := some { es with p := out.2.1 }
      written := c.written ++ out.2.2 }

def tcpEchoserverError (c : Conn n) : Conn n := { c with failed := true }

def tcpEchoserverConnectionClose (c : Conn n) : Conn n := { c with es := none }

def tcpEchoserverSent (c : Conn n) (es : Es n) (env : List (Nat × WrErr)) : Option (Conn n) :=
  if es.p ≠ none then c.send es env
  else if es.state = .closing then some (tcpEchoserverConnectionClose c)
  else some c

/-- Without its structure the connection is aborted. -/
def tcpEchoserverPoll (c : Conn n) (env : List (Nat × WrErr)) : Option (Conn n) :=
  match c.es with
  | some es =>
      if es.p ≠ none then c.send es env
      else if es.state = .closing then some (tcpEchoserverConnectionClose c)
      else some c
  | none => some c

def tcpEchoserverRecv (c : Conn n) (es : Es n) (p : Segment) (env : List (Nat × WrErr)) :
    Option (Conn n) :=
  match p with
  | .fin =>
      if es.p = none then some (tcpEchoserverConnectionClose c)
      else c.send { es with state := .closing } env
  | .error => some { c with es := some { es with p := none } }
  | .data _ =>
      match es.state with
      | .accepted => some { c with es := some { es with state := .received } }
      | .received => some c
      | .closing => some { c with es := some { es with p := none } }

/-- `pbuf_alloc` and `pbuf_take` take the length modulo 2^16. After an error it goes on with what
is left of the structure. -/
def sockSrvSend (c : Conn n) (data : List UInt8) (slots : List (Fin n × Nat))
    (env : List (Nat × WrErr)) : Option (Int × Conn n) :=
  match c.es with
  | none => some (-2, c)
  | some es =>
      match pbufAlloc c.pool slots (data.length % 65536) with
      | (none, _) => some (-3, c)
      | (some p, pool) =>
          (pbufTake pool p (data.take (data.length % 65536))).bind fun pool =>
            match es.p with
            | none =>
                (Conn.send { c with pool := pool } { es with p := some p } env).map ((0, ·))
            | some h => (pbufChain pool h p).map fun pool => (0, { c with pool := pool })

/-! ## Runs -/

inductive Event (n : Nat)
  | send (data : List UInt8) (slots : List (Fin n × Nat)) (env : List (Nat × WrErr))
  | sent (env : List (Nat × WrErr))
  | poll (env : List (Nat × WrErr))
  | recv (p : Segment) (env : List (Nat × WrErr))
  | error

/-- Messages have 1 to 65535 bytes, pbufs of the pool are not in use, and lwIP calls back
only for a connection that is open, never with an error beside data and with nothing after
the end of the client's data. -/
def Possible (c : Conn n) : Event n → Prop
  | .send data slots _ => 1 ≤ data.length ∧ data.length ≤ 65535 ∧ (slots.map Prod.fst).Nodup ∧
      ∀ e ∈ slots, (c.pool e.1).isNone ∧ 0 < e.2
  | .sent _ => c.failed = false ∧ c.es.isSome
  | .poll _ => c.failed = false
  | .recv p _ => c.failed = false ∧ p ≠ .error ∧ c.es.any fun es => es.state ≠ .closing
  | .error => c.failed = false ∧ c.es.isSome

instance (c : Conn n) : (ev : Event n) → Decidable (Possible c ev)
  | .send data slots _ => inferInstanceAs (Decidable (1 ≤ data.length ∧ data.length ≤ 65535 ∧
      (slots.map Prod.fst).Nodup ∧ ∀ e ∈ slots, (c.pool e.1).isNone ∧ 0 < e.2))
  | .sent _ => inferInstanceAs (Decidable (c.failed = false ∧ c.es.isSome = true))
  | .poll _ => inferInstanceAs (Decidable (c.failed = false))
  | .recv p _ => inferInstanceAs (Decidable (c.failed = false ∧ p ≠ .error ∧
      (c.es.any fun es => es.state ≠ .closing) = true))
  | .error => inferInstanceAs (Decidable (c.failed = false ∧ c.es.isSome = true))

def handle (c : Conn n) : Event n → Option (Conn n)
  | .send data slots env =>
      (sockSrvSend c data slots env).map fun out =>
        if out.1 = 0 then { out.2 with accepted := out.2.accepted ++ data } else out.2
  | .sent env => c.es.bind fun es => tcpEchoserverSent c es env
  | .poll env => tcpEchoserverPoll c env
  | .recv p env => c.es.bind fun es => tcpEchoserverRecv c es p env
  | .error => some (tcpEchoserverError c)

/-- What cannot happen changes nothing. No result stands for the use of a pbuf that is not
in use. -/
def step (c : Conn n) (ev : Event n) : Option (Conn n) :=
  if Possible c ev then handle c ev else some c

/-! ## The queue -/

/-- The pbufs of `l` wait to be written, each in use, and none is referred to more than
three times. -/
structure Queued (pool : Pbufs n) (p : Option (Fin n)) (l : List (Fin n × List UInt8)) :
    Prop where
  holds : Holds pool p l
  nodup : (keys l).Nodup
  ref_pos : ∀ q b, pool q = some b → 0 < b.ref
  ref_le : ∀ q b, pool q = some b → b.ref ≤ 3
  ref_tail : ∀ q b, pool q = some b → q ∈ keys l.tail → b.ref ≤ 2

/-- A pbuf cannot be given back any more: it has left the queue, or writing it will not
take the last reference. -/
def Lost (pool : Pbufs n) (l : List (Fin n × List UInt8)) : Prop :=
  ∃ q b, pool q = some b ∧ (q ∈ keys l → 2 ≤ b.ref)

section

variable {pool : Pbufs n} {p : Fin n} {p₀ : Option (Fin n)} {l : List (Fin n × List UInt8)}
  {d : List UInt8}

theorem mem_keys_of_tail {q : Fin n} (hq : q ∈ keys l.tail) : q ∈ keys l :=
  List.map_subset _ (List.tail_subset l) hq

theorem Queued.next_mem (h : Queued pool (some p) ((p, d) :: l)) {b : Buf (Fin n) UInt8}
    (hb : pool p = some b) {q : Fin n} (hq : b.next = some q) :
    q ∈ keys l ∧ ∃ c, pool q = some c ∧ 0 < c.ref := by
  obtain ⟨-, b', hb', -, hl⟩ := holds_cons.mp h.holds
  obtain rfl := Option.some.inj (hb.symm.trans hb')
  rw [hq] at hl
  obtain ⟨c, l', hc, rfl, -⟩ := hl.cons_of_some
  exact ⟨List.mem_cons_self, c, hc, h.ref_pos q c hc⟩

theorem Queued.giveBack (h : Queued pool (some p) ((p, d) :: l)) {b : Buf (Fin n) UInt8}
    (hb : pool p = some b) (hone : b.ref = 1) :
    Queued (pool.set p none) b.next l ∧
      (Lost (pool.set p none) l ↔ Lost pool ((p, d) :: l)) := by
  obtain ⟨-, b', hb', -, hl⟩ := holds_cons.mp h.holds
  obtain rfl := Option.some.inj (hb.symm.trans hb')
  obtain ⟨hp, hnodup⟩ := List.nodup_cons.mp h.nodup
  have hold : ∀ q c, (pool.set p none) q = some c → q ≠ p ∧ pool q = some c := by
    intro q c hc
    rcases eq_or_ne q p with rfl | hqp
    · rw [set_self] at hc
      exact absurd hc nofun
    · exact ⟨hqp, (set_of_ne hqp _).symm.trans hc⟩
  refine ⟨⟨hl.set_of_notMem hp _, hnodup, ?_, ?_, ?_⟩, ?_⟩
  · exact fun q c hc => h.ref_pos q c (hold q c hc).2
  · exact fun q c hc => h.ref_le q c (hold q c hc).2
  · exact fun q c hc hq => h.ref_tail q c (hold q c hc).2 (mem_keys_of_tail hq)
  · constructor
    · rintro ⟨q, c, hc, hq⟩
      obtain ⟨hqp, hc⟩ := hold q c hc
      exact ⟨q, c, hc, fun hmem => hq ((List.mem_cons.mp hmem).resolve_left hqp)⟩
    · rintro ⟨q, c, hc, hq⟩
      have hqp : q ≠ p := by
        rintro rfl
        obtain rfl := Option.some.inj (hb.symm.trans hc)
        have := hq List.mem_cons_self
        omega
      exact ⟨q, c, (set_of_ne hqp _).trans hc, fun hmem => hq (List.mem_cons_of_mem _ hmem)⟩

theorem Queued.leaveBehind (h : Queued pool (some p) ((p, d) :: l)) {b : Buf (Fin n) UInt8}
    (hb : pool p = some b) {k : Nat} (hk : b.ref = k + 2) {pool' : Pbufs n}
    (hself : pool' p = some { b with ref := k + 1 })
    (hother : ∀ q, q ≠ p → pool' q =
      if b.next = some q then (pool q).map fun c => { c with ref := c.ref + 1 } else pool q) :
    Queued pool' b.next l := by
  obtain ⟨-, b', hb', -, hl⟩ := holds_cons.mp h.holds
  obtain rfl := Option.some.inj (hb.symm.trans hb')
  obtain ⟨hp, hnodup⟩ := List.nodup_cons.mp h.nodup
  have hold : ∀ q c, q ≠ p → pool' q = some c → ∃ c', pool q = some c' ∧
      c.ref = if b.next = some q then c'.ref + 1 else c'.ref := by
    intro q c hqp hc
    rw [hother q hqp] at hc
    split_ifs at hc with hq
    · obtain ⟨c', hc', rfl⟩ := Option.map_eq_some_iff.mp hc
      exact ⟨c', hc', by rw [if_pos hq]⟩
    · exact ⟨c, hc, by rw [if_neg hq]⟩
  refine ⟨?_, hnodup, ?_, ?_, ?_⟩
  · apply hl.congr
    intro q hq c hc
    rw [hother q (ne_of_mem_of_not_mem hq hp), hc]
    split_ifs
    · exact ⟨_, rfl, rfl, rfl⟩
    · exact ⟨c, rfl, rfl, rfl⟩
  · intro q c hc
    rcases eq_or_ne q p with rfl | hqp
    · obtain rfl := Option.some.inj (hself.symm.trans hc)
      exact Nat.succ_pos k
    · obtain ⟨c', hc', href⟩ := hold q c hqp hc
      have := h.ref_pos q c' hc'
      split_ifs at href <;> omega
  · intro q c hc
    rcases eq_or_ne q p with rfl | hqp
    · obtain rfl := Option.some.inj (hself.symm.trans hc)
      have := h.ref_le q b hb
      dsimp only
      omega
    · obtain ⟨c', hc', href⟩ := hold q c hqp hc
      have hle := h.ref_le q c' hc'
      split_ifs at href with hq
      · have := h.ref_tail q c' hc' (h.next_mem hb hq).1
        omega
      · omega
  · intro q c hc hq
    have hqp : q ≠ p := ne_of_mem_of_not_mem (mem_keys_of_tail hq) hp
    obtain ⟨c', hc', href⟩ := hold q c hqp hc
    have hle := h.ref_tail q c' hc' (mem_keys_of_tail hq)
    split_ifs at href with hhead
    · rw [hhead] at hl
      obtain ⟨e, l', -, rfl, -⟩ := hl.cons_of_some
      exact absurd hq (List.nodup_cons.mp hnodup).1
    · omega

/-- One turn of the loop of `tcp_echoserver_send`. -/
theorem Queued.advance (h : Queued pool (some p) ((p, d) :: l)) :
    ∃ next pool', Lib.BufChain.advance (n + 1) pool p = some (next, pool') ∧
      Queued pool' next l ∧ (Lost pool' l ↔ Lost pool ((p, d) :: l)) := by
  obtain ⟨-, b, hb, -, -⟩ := holds_cons.mp h.holds
  obtain ⟨hp, -⟩ := List.nodup_cons.mp h.nodup
  have hn : 1 ≤ n := Nat.lt_of_le_of_lt (Nat.zero_le _) p.isLt
  have hne : b.next ≠ some p := fun hself => hp (h.next_mem hb hself).1
  obtain ⟨k, hk⟩ := Nat.exists_eq_succ_of_ne_zero (h.ref_pos p b hb).ne'
  rcases k with _ | k
  · exact ⟨b.next, pool.set p none,
      advance_last hb hk hne (fun q hq => (h.next_mem hb hq).2) (by omega), h.giveBack hb hk⟩
  · obtain ⟨pool', hrun, hself, hother⟩ :=
      advance_shared hb hk hne (fun q hq => (h.next_mem hb hq).2.imp fun c hc => hc.1)
        (Nat.le_add_left 1 n)
    refine ⟨b.next, pool', hrun, h.leaveBehind hb hk hself hother, ?_⟩
    constructor
    · exact fun _ => ⟨p, b, hb, fun _ => by omega⟩
    · exact fun _ => ⟨p, _, hself, fun hmem => absurd hmem hp⟩

/-- The send buffer has room for each of these pbufs, and `tcp_write` takes them. -/
def Taken : List Nat → List (Nat × WrErr) → Prop
  | [], _ => True
  | _ :: _, [] => False
  | len :: lens, (sndbuf, wrErr) :: env => (len ≤ sndbuf ∧ wrErr = .ok) ∧ Taken lens env

/-- The loop writes the first pbufs of the queue, and leaves none if all are taken. -/
theorem Queued.send (h : Queued pool p₀ l) (env : List (Nat × WrErr)) :
    ∃ pool' p' l₁ l₂, tcpEchoserverSend env pool p₀ = some (pool', p', contents l₁) ∧
      l = l₁ ++ l₂ ∧ Queued pool' p' l₂ ∧ (Lost pool' l₂ ↔ Lost pool l) ∧
        (l₂ = [] ↔ Taken (l.map fun e => e.2.length) env) := by
  induction env generalizing pool p₀ l with
  | nil =>
      refine ⟨pool, p₀, [], l, rfl, rfl, h, Iff.rfl, ?_⟩
      rcases l with _ | ⟨e, l⟩
      · exact iff_of_true rfl trivial
      · exact iff_of_false nofun id
  | cons turn env ih =>
      obtain ⟨sndbuf, wrErr⟩ := turn
      rcases p₀ with _ | ptr
      · obtain rfl := h.holds.nil_of_none
        exact ⟨pool, none, [], [], rfl, rfl, h, Iff.rfl, iff_of_true rfl trivial⟩
      · obtain ⟨b, l, hb, rfl, -⟩ := h.holds.cons_of_some
        rw [tcpEchoserverSend, hb, Option.bind_some]
        split_ifs with htaken
        · obtain ⟨next, pool', hadvance, hnext, hlost⟩ := h.advance
          obtain ⟨pool'', p', l₁, l₂, hrun, rfl, hqueued, hlost', hrest⟩ := ih hnext
          refine ⟨pool'', p', (ptr, b.data) :: l₁, l₂, ?_, rfl, hqueued, hlost'.trans hlost, ?_⟩
          · rw [hadvance, Option.bind_some, hrun, Option.map_some, contents_cons]
          · exact hrest.trans (and_iff_right htaken).symm
        · exact ⟨pool, some ptr, [], _, rfl, rfl, h, Iff.rfl,
            iff_of_false nofun fun hall => htaken hall.1⟩

end

/-! ## New pbufs -/

section

variable {pool : Pbufs n} {slots segs : List (Fin n × Nat)} {length : Nat}

theorem segments_spec (h : segments slots length = some segs) :
    segs ≠ [] ∧ (segs.map Prod.fst).Sublist (slots.map Prod.fst) ∧
      (segs.map Prod.snd).sum = length ∧
        ((∀ e ∈ slots, 0 < e.2) → 0 < length → ∀ e ∈ segs, 0 < e.2) := by
  induction slots generalizing segs length with
  | nil => exact absurd h nofun
  | cons slot slots ih =>
      obtain ⟨q, room⟩ := slot
      rw [segments] at h
      split_ifs at h with hroom
      · obtain rfl := Option.some.inj h
        refine ⟨nofun, ?_, ?_, ?_⟩
        · simp
        · simp
        · intro _ hpos e he
          obtain rfl := List.mem_singleton.mp he
          exact hpos
      · obtain ⟨rest, hrest, rfl⟩ := Option.map_eq_some_iff.mp h
        obtain ⟨-, hsub, hsum, hsizes⟩ := ih hrest
        refine ⟨nofun, ?_, ?_, ?_⟩
        · exact hsub.cons_cons q
        · rw [List.map_cons, List.sum_cons, hsum]
          omega
        · intro hslots hpos e he
          rcases List.mem_cons.mp he with rfl | he
          · exact hslots _ List.mem_cons_self
          · exact hsizes (fun e he => hslots e (List.mem_cons_of_mem _ he)) (by omega) e he

/-- A chain of new pbufs, which are referred to once. -/
structure Fresh (pool pool' : Pbufs n) (p : Fin n) (l : List (Fin n × List UInt8)) : Prop where
  holds : Holds pool' (some p) l
  nodup : (keys l).Nodup
  free : ∀ q ∈ keys l, pool q = none
  rest : ∀ q ∉ keys l, pool' q = pool q
  ref : ∀ q ∈ keys l, ∀ b, pool' q = some b → b.ref = 1

theorem pbufAlloc_take {data : List UInt8} (hsegs : segments slots data.length = some segs)
    (hdata : data ≠ []) (hslots : (slots.map Prod.fst).Nodup)
    (hfree : ∀ e ∈ slots, (pool e.1).isNone ∧ 0 < e.2) :
    ∃ p pool₁ pool₂ l, pbufAlloc pool slots data.length = (some p, pool₁) ∧
      pbufTake pool₁ p data = some pool₂ ∧ Fresh pool pool₂ p l ∧ contents l = data ∧
        (∀ e ∈ l, e.2 ≠ []) ∧ l.map (fun e => e.2.length) = segs.map Prod.snd := by
  obtain ⟨hne, hsub, hsum, hsizes⟩ := segments_spec hsegs
  obtain ⟨zeros, hzeros⟩ : ∃ zeros, zeros =
    segs.map fun e => (e.1, List.replicate e.2 (0 : UInt8)) := ⟨_, rfl⟩
  have hkeys : keys zeros = segs.map Prod.fst := by
    rw [hzeros, keys, List.map_map]
    rfl
  have hnodup : (keys zeros).Nodup := hkeys ▸ hsub.nodup hslots
  have hlen : (contents zeros).length = data.length := by
    rw [contents, List.length_flatMap, hzeros, List.map_map, ← hsum]
    simp [Function.comp_def]
  have hcount : zeros.length ≤ n + 1 := by
    have := hnodup.length_le_card
    rw [keys, List.length_map, Fintype.card_fin] at this
    omega
  obtain ⟨e, segs, rfl⟩ := List.exists_cons_of_ne_nil hne
  have hhead : zeros.head?.map Prod.fst = some e.1 := by
    rw [hzeros]
    rfl
  have hbuilt := @holds_build _ _ _ pool zeros hnodup
  rw [hhead] at hbuilt
  obtain ⟨pool₂, l, hfill, hl, hkeys', hcontents, hrest, href, hlengths⟩ :=
    fill_eq hbuilt hnodup hlen hcount
  refine ⟨e.1, build pool zeros, pool₂, l, ?_, hfill, ⟨hl, ?_, ?_, ?_, ?_⟩, hcontents, ?_, ?_⟩
  · rw [pbufAlloc, hsegs, hzeros]
    rfl
  · rw [hkeys']
    exact hnodup
  · intro q hq
    rw [hkeys', hkeys] at hq
    obtain ⟨slot, hslot, rfl⟩ := List.mem_map.mp (hsub.subset hq)
    exact Option.isNone_iff_eq_none.mp (hfree slot hslot).1
  · intro q hq
    rw [hkeys'] at hq
    rw [hrest q hq, build_of_notMem hq]
  · intro q hq b hb
    rw [hkeys'] at hq
    obtain ⟨b', hb', heq⟩ := href q b hb
    obtain ⟨c, hc, hone⟩ := @build_ref _ _ _ pool q zeros hq
    obtain rfl := Option.some.inj (hb'.symm.trans hc)
    exact heq.symm.trans hone
  · intro x hx hnil
    have hmem : x.2.length ∈ l.map fun e => e.2.length := List.mem_map_of_mem hx
    rw [hlengths, hzeros, List.map_map, List.mem_map] at hmem
    obtain ⟨y, hy, hsize⟩ := hmem
    have hpos := hsizes (fun e he => (hfree e he).2) (List.length_pos_iff.mpr hdata) y hy
    rw [hnil, Function.comp_apply, List.length_replicate] at hsize
    exact absurd hsize hpos.ne'
  · rw [hlengths, hzeros, List.map_map]
    simp [Function.comp_def]

variable {pool' : Pbufs n} {p h₀ : Fin n} {l l' : List (Fin n × List UInt8)}

theorem Queued.first (h : Queued pool none []) (hnew : Fresh pool pool' p l) :
    Queued pool' (some p) l ∧ (Lost pool' l ↔ Lost pool []) := by
  have hold : ∀ q b, pool' q = some b → q ∈ keys l ∧ b.ref = 1 ∨ q ∉ keys l ∧ pool q = some b := by
    intro q b hb
    rcases Classical.em (q ∈ keys l) with hq | hq
    · exact .inl ⟨hq, hnew.ref q hq b hb⟩
    · exact .inr ⟨hq, (hnew.rest q hq).symm.trans hb⟩
  refine ⟨⟨hnew.holds, hnew.nodup, ?_, ?_, ?_⟩, ?_⟩
  · intro q b hb
    rcases hold q b hb with ⟨-, hone⟩ | ⟨-, hb⟩
    · omega
    · exact h.ref_pos q b hb
  · intro q b hb
    rcases hold q b hb with ⟨-, hone⟩ | ⟨-, hb⟩
    · omega
    · exact h.ref_le q b hb
  · intro q b hb hq
    rcases hold q b hb with ⟨-, hone⟩ | ⟨hout, -⟩
    · omega
    · exact absurd (List.map_subset _ (List.tail_subset l) hq) hout
  · constructor
    · rintro ⟨q, b, hb, htwo⟩
      rcases hold q b hb with ⟨hq, hone⟩ | ⟨-, hb⟩
      · have := htwo hq
        omega
      · exact ⟨q, b, hb, nofun⟩
    · rintro ⟨q, b, hb, -⟩
      have hq : q ∉ keys l := by
        intro hq
        rw [hnew.free q hq] at hb
        exact absurd hb nofun
      exact ⟨q, b, (hnew.rest q hq).trans hb, fun hmem => absurd hmem hq⟩

theorem Queued.notMem_fresh (h : Queued pool (some h₀) l) (hnew : Fresh pool pool' p l')
    {q : Fin n} (hq : q ∈ keys l) : q ∉ keys l' := by
  intro hq'
  obtain ⟨b, hb⟩ := h.holds.mem hq
  rw [hnew.free q hq'] at hb
  exact Option.some_ne_none b hb.symm

theorem Fresh.chained (hnew : Fresh pool pool' p l') {b c : Buf (Fin n) UInt8} {q : Fin n}
    (hq : q ∉ keys l') (hb : pool' q = some b) (hp : p ∈ keys l') (hc : pool' p = some c)
    {x : Fin n} {e : Buf (Fin n) UInt8}
    (he : ((pool'.set q (some { b with next := some p })).set p
      (some { c with ref := c.ref + 1 })) x = some e) :
    x ∈ keys l' ∧ (e.ref = 1 ∨ e.ref = 2) ∨
      x ∉ keys l' ∧ ∃ e', pool x = some e' ∧ e'.ref = e.ref := by
  rcases eq_or_ne x p with rfl | hxp
  · rw [set_self] at he
    obtain rfl := Option.some.inj he
    exact .inl ⟨hp, .inr (congrArg (· + 1) (hnew.ref x hp c hc))⟩
  rw [set_of_ne hxp] at he
  rcases eq_or_ne x q with rfl | hxq
  · rw [set_self] at he
    obtain rfl := Option.some.inj he
    exact .inr ⟨hq, b, (hnew.rest x hq).symm.trans hb, rfl⟩
  · rw [set_of_ne hxq] at he
    rcases Classical.em (x ∈ keys l') with hx | hx
    · exact .inl ⟨hx, .inl (hnew.ref x hx e he)⟩
    · exact .inr ⟨hx, e, (hnew.rest x hx).symm.trans he, rfl⟩

/-- A message behind others keeps the reference of `pbuf_alloc` beside that of the
chain. -/
theorem Queued.append (h : Queued pool (some h₀) l) (hnew : Fresh pool pool' p l') :
    ∃ pool'', pbufChain pool' h₀ p = some pool'' ∧ Queued pool'' (some h₀) (l ++ l') ∧
      Lost pool'' (l ++ l') := by
  have hl : Holds pool' (some h₀) l := by
    apply h.holds.congr
    intro q hq b hb
    exact ⟨b, (hnew.rest q (h.notMem_fresh hnew hq)).trans hb, rfl, rfl⟩
  have hnodup : (keys (l ++ l')).Nodup := by
    rw [keys, List.map_append, List.nodup_append]
    refine ⟨h.nodup, hnew.nodup, ?_⟩
    rintro q hq q' hq' rfl
    exact h.notMem_fresh hnew hq hq'
  have hne : l ≠ [] := by
    rintro rfl
    exact Option.some_ne_none h₀ (holds_nil.mp hl)
  obtain ⟨init, ⟨q, d⟩, rfl⟩ := (List.eq_nil_or_concat' l).resolve_left hne
  have hcount : init.length < n + 1 := by
    have := h.nodup.length_le_card
    rw [keys, List.length_map, Fintype.card_fin, List.length_append] at this
    omega
  have hq : q ∈ keys (init ++ [(q, d)]) := by simp [keys]
  have hq' := h.notMem_fresh hnew hq
  obtain ⟨b, hb⟩ := hl.mem hq
  obtain ⟨c, l₂, hc, hcons, -⟩ := hnew.holds.cons_of_some
  have hp : p ∈ keys l' := by
    rw [hcons]
    exact List.mem_cons_self
  have hqp : q ≠ p := by
    rintro rfl
    exact hq' hp
  refine ⟨_, chain_eq hl hb hc hqp hcount,
    ⟨hl.chain hnew.holds hnodup hb hc, hnodup, ?_, ?_, ?_⟩, ?_⟩
  · intro x e he
    rcases hnew.chained hq' hb hp hc he with ⟨-, href⟩ | ⟨-, e', he', href⟩
    · omega
    · rw [← href]
      exact h.ref_pos x e' he'
  · intro x e he
    rcases hnew.chained hq' hb hp hc he with ⟨-, href⟩ | ⟨-, e', he', href⟩
    · omega
    · rw [← href]
      exact h.ref_le x e' he'
  · intro x e he hx
    rcases hnew.chained hq' hb hp hc he with ⟨-, href⟩ | ⟨hout, e', he', href⟩
    · omega
    · rw [← href]
      refine h.ref_tail x e' he' ?_
      rw [List.tail_append_of_ne_nil hne, keys, List.map_append, List.mem_append] at hx
      exact hx.resolve_right hout
  · refine ⟨p, _, set_self _, fun _ => ?_⟩
    have hone := hnew.ref p hp c hc
    dsimp only
    omega

end

end ShGateway.SockQueue
