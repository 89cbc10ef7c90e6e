import ShGateway.SockQueue

/-!
What a connection of the command server sends, and which pbufs it gives back.
-/

namespace ShGateway.SockRuns

open ShGateway.Lib.BufChain
open ShGateway.Lib.Runs
open ShGateway.SockQueue
open ShGateway.SockSrv (EsState Segment)

variable {n : Nat}

/-! ## Steps -/

/-- The queue of a connection holds what was accepted and has not been written. -/
structure Inv (c : Conn n) (l : List (Fin n × List UInt8)) : Prop where
  queued : Queued c.pool c.head l
  data : ∀ e ∈ l, e.2 ≠ []
  intact : c.es.isSome → c.written ++ contents l = c.accepted
  sub : c.written <+: c.accepted
  open_of_failed : c.failed → c.es.isSome

/-- A message is sent only while nothing waits to be written, and the connection is only lost
then. What is sent after that is written at once. -/
def Clean (c : Conn n) (ev : Event n) : Prop :=
  Possible c ev →
    match ev with
    | .send data slots env => ∀ segs ∈ segments slots data.length,
        c.head = none ∧ (c.failed → Taken (segs.map Prod.snd) env)
    | .error => c.head = none
    | _ => True

/-- A pbuf is lost; nothing gives back those of a connection that has failed. -/
def Leaks (c : Conn n) (l : List (Fin n × List UInt8)) : Prop :=
  Lost c.pool (if c.failed then [] else l)

section

variable {c : Conn n} {es : Es n} {l : List (Fin n × List UInt8)} {ev : Event n}

theorem inv_init : Inv ({} : Conn n) [] where
  queued := ⟨rfl, List.nodup_nil, nofun, nofun, nofun⟩
  data := nofun
  intact := fun _ => rfl
  sub := List.prefix_refl _
  open_of_failed := fun _ => rfl

theorem lost_nil_iff {pool : Pbufs n} {p : Option (Fin n)} (h : Queued pool p l) :
    Lost pool [] ↔ Lost pool l ∨ l ≠ [] := by
  constructor
  · rintro ⟨q, b, hb, -⟩
    rcases l with _ | ⟨e, l⟩
    · exact .inl ⟨q, b, hb, nofun⟩
    · exact .inr nofun
  · rintro (⟨q, b, hb, -⟩ | hne)
    · exact ⟨q, b, hb, nofun⟩
    · obtain ⟨e, l, rfl⟩ := List.exists_cons_of_ne_nil hne
      obtain ⟨b, hb⟩ := h.holds.mem (q := e.1) List.mem_cons_self
      exact ⟨e.1, b, hb, nofun⟩

theorem Inv.send {pool : Pbufs n} {accepted : List UInt8} {p : Option (Fin n)}
    (hqueued : Queued pool p l) (hdata : ∀ e ∈ l, e.2 ≠ [])
    (hintact : c.written ++ contents l = accepted) (state : EsState) (env : List (Nat × WrErr)) :
    ∃ c' l', Conn.send { c with pool := pool } ⟨state, p⟩ env = some c' ∧
      Inv { c' with accepted := accepted } l' ∧ c'.accepted = c.accepted ∧
        c'.failed = c.failed ∧ (Lost c'.pool l' ↔ Lost pool l) ∧
          (l' = [] ↔ Taken (l.map fun e => e.2.length) env) := by
  obtain ⟨pool', p', l₁, l₂, hrun, rfl, hqueued', hlost, hall⟩ := hqueued.send env
  have hsplit : contents (l₁ ++ l₂) = contents l₁ ++ contents l₂ := List.flatMap_append
  refine ⟨{ c with
      pool := pool'
      es := some ⟨state, p'⟩
      written := c.written ++ contents l₁ }, l₂, ?_, ⟨hqueued', ?_, ?_, ?_, fun _ => rfl⟩, rfl, rfl,
    hlost, hall⟩
  · rw [Conn.send, hrun, Option.map_some]
  · exact fun e he => hdata e (List.mem_append_right l₁ he)
  · intro _
    rw [← hintact, hsplit, List.append_assoc]
  · rw [← hintact, hsplit, ← List.append_assoc]
    exact List.prefix_append _ _

theorem Inv.close (h : Inv c l) (hfailed : c.failed = false) :
    Inv { c with es := none } [] := by
  obtain ⟨-, -, hpos, hle, -⟩ := h.queued
  exact ⟨⟨rfl, List.nodup_nil, hpos, hle, nofun⟩, nofun, nofun, h.sub,
    fun htrue => absurd (hfailed.symm.trans htrue) (by decide)⟩

theorem Inv.state (h : Inv c l) (hes : c.es = some es) (state : EsState) :
    Inv { c with es := some { es with state := state } } l := by
  have hqueued := h.queued
  rw [Conn.head, hes] at hqueued
  exact ⟨hqueued, h.data, fun _ => h.intact (by rw [hes]; rfl), h.sub, fun _ => rfl⟩

theorem Inv.flush (h : Inv c l) (hes : c.es = some es) (state : EsState)
    (env : List (Nat × WrErr)) :
    ∃ c' l', c.send { es with state := state } env = some c' ∧ Inv c' l' ∧
      c'.failed = c.failed ∧ (Lost c'.pool l' ↔ Lost c.pool l) := by
  have hqueued := h.queued
  rw [Conn.head, hes] at hqueued
  obtain ⟨c', l', hrun, hinv, haccepted, hfailed, hlost, -⟩ :=
    Inv.send hqueued h.data (h.intact (by rw [hes]; rfl)) state env
  rw [← haccepted] at hinv
  exact ⟨c', l', hrun, hinv, hfailed, hlost⟩

theorem Inv.sent (h : Inv c l) (hopen : c.failed = false) (hes : c.es = some es)
    (env : List (Nat × WrErr)) :
    ∃ c' l', tcpEchoserverSent c es env = some c' ∧ Inv c' l' ∧
      c'.failed = c.failed ∧ (Lost c'.pool l' ↔ Lost c.pool l) := by
  rw [tcpEchoserverSent]
  split_ifs with hp hclosing
  · exact h.flush hes es.state env
  · have hnil : l = [] := by
      have hqueued := h.queued
      rw [Conn.head, hes, Option.bind_some, not_not.mp hp] at hqueued
      exact hqueued.holds.nil_of_none
    exact ⟨_, [], rfl, h.close hopen, rfl, by rw [hnil]; exact Iff.rfl⟩
  · exact ⟨c, l, rfl, h, rfl, Iff.rfl⟩

theorem Inv.recv (h : Inv c l) (hopen : c.failed = false) (hes : c.es = some es) {p : Segment}
    (hp : p ≠ .error) (hclosing : es.state ≠ .closing) (env : List (Nat × WrErr)) :
    ∃ c' l', tcpEchoserverRecv c es p env = some c' ∧ Inv c' l' ∧
      c'.failed = c.failed ∧ (Lost c'.pool l' ↔ Lost c.pool l) := by
  rw [tcpEchoserverRecv.eq_def]
  cases p with
  | fin =>
      dsimp only
      split_ifs with hnone
      · have hnil : l = [] := by
          have hqueued := h.queued
          rw [Conn.head, hes, Option.bind_some, hnone] at hqueued
          exact hqueued.holds.nil_of_none
        exact ⟨_, [], rfl, h.close hopen, rfl, by rw [hnil]; exact Iff.rfl⟩
      · exact h.flush hes .closing env
  | error => exact absurd rfl hp
  | data commands =>
      dsimp only
      split
      · exact ⟨_, l, rfl, h.state hes .received, rfl, Iff.rfl⟩
      · exact ⟨c, l, rfl, h, rfl, Iff.rfl⟩
      · next hstate => exact absurd hstate hclosing

theorem Inv.sendFirst (h : Inv c l) {data : List UInt8} {p : Fin n} {pool : Pbufs n}
    {l' : List (Fin n × List UInt8)} (hfresh : Fresh c.pool pool p l')
    (hcontents : contents l' = data) (hdata : ∀ e ∈ l', e.2 ≠ []) (hes : c.es = some es)
    (hp : es.p = none) (env : List (Nat × WrErr)) :
    ∃ c' l'', Conn.send { c with pool := pool } { es with p := some p } env = some c' ∧
      Inv { c' with accepted := c'.accepted ++ data } l'' ∧ c'.failed = c.failed ∧
        (Leaks c' l'' ↔ Leaks c l ∨
          (c.failed ∧ ¬ Taken (l'.map fun e => e.2.length) env)) := by
  have hqueued := h.queued
  have hintact := h.intact (by rw [hes]; rfl)
  rw [Conn.head, hes, Option.bind_some, hp] at hqueued
  obtain rfl := hqueued.holds.nil_of_none
  obtain ⟨hfirst, hlost⟩ := hqueued.first hfresh
  have hdone : c.written ++ contents l' = c.accepted ++ data := by
    rw [hcontents, ← hintact]
    simp [contents]
  obtain ⟨c', l'', hrun, hinv, haccepted, hfailed, hlost', hall⟩ :=
    Inv.send hfirst hdata hdone es.state env
  refine ⟨c', l'', hrun, haccepted ▸ hinv, hfailed, ?_⟩
  rw [Leaks, Leaks, hfailed]
  cases hfail : c.failed with
  | false => simpa using hlost'.trans hlost
  | true =>
      rw [if_pos rfl, lost_nil_iff hinv.queued, ← hall]
      simpa using or_congr_left (hlost'.trans hlost)

theorem Inv.sendBehind (h : Inv c l) {data : List UInt8} {p h₀ : Fin n} {pool : Pbufs n}
    {l' : List (Fin n × List UInt8)} (hfresh : Fresh c.pool pool p l')
    (hcontents : contents l' = data) (hdata : ∀ e ∈ l', e.2 ≠ []) (hes : c.es = some es)
    (hp : es.p = some h₀) :
    ∃ pool', pbufChain pool h₀ p = some pool' ∧
      Inv { c with pool := pool', accepted := c.accepted ++ data } (l ++ l') ∧
        Leaks { c with pool := pool' } (l ++ l') := by
  have hqueued := h.queued
  have hintact := h.intact (by rw [hes]; rfl)
  rw [Conn.head, hes, Option.bind_some, hp] at hqueued
  obtain ⟨pool', hchain, hqueued', hlost⟩ := hqueued.append hfresh
  have hdone : c.written ++ contents (l ++ l') = c.accepted ++ data := by
    have hsplit : contents (l ++ l') = contents l ++ contents l' := List.flatMap_append
    rw [hsplit, hcontents, ← List.append_assoc, hintact]
  refine ⟨pool', hchain, ⟨?_, ?_, fun _ => hdone, ⟨_, hdone⟩, fun _ => by rw [hes]; rfl⟩, ?_⟩
  · rw [Conn.head, hes, Option.bind_some, hp]
    exact hqueued'
  · intro e he
    rcases List.mem_append.mp he with he | he
    · exact h.data e he
    · exact hdata e he
  · rw [Leaks]
    split_ifs
    · exact (lost_nil_iff hqueued').mpr (.inl hlost)
    · exact hlost

/-- A message is taken, or there is no room for it. -/
theorem Inv.sockSrvSend (h : Inv c l) {data : List UInt8} {slots : List (Fin n × Nat)}
    {env : List (Nat × WrErr)} (hpossible : Possible c (.send data slots env)) :
    ∃ c' l', handle c (.send data slots env) = some c' ∧ Inv c' l' ∧
      (Leaks c' l' ↔ Leaks c l ∨ ¬ ∀ segs ∈ segments slots data.length,
        c.head = none ∧ (c.failed → Taken (segs.map Prod.snd) env)) := by
  obtain ⟨hpos, hle, hslots, hfree⟩ := hpossible
  have hmod : data.length % 65536 = data.length := Nat.mod_eq_of_lt (by omega)
  rw [handle, SockQueue.sockSrvSend, hmod, List.take_length]
  rcases hes : c.es with _ | es
  · have hopen : c.failed ≠ true := by
      intro hfailed
      have hsome := h.open_of_failed hfailed
      rw [hes] at hsome
      exact Bool.false_ne_true hsome
    refine ⟨c, l, rfl, h, ?_⟩
    rw [Conn.head, hes]
    simp [hopen]
  dsimp only
  rcases hsegs : segments slots data.length with _ | segs
  · rw [pbufAlloc, hsegs]
    refine ⟨c, l, rfl, h, ?_⟩
    simp
  obtain ⟨p, pool₁, pool₂, l', halloc, htake, hfresh, hcontents, hdata, hlens⟩ :=
    pbufAlloc_take hsegs (List.length_pos_iff.mp hpos) hslots hfree
  rw [halloc]
  dsimp only
  rw [htake, Option.bind_some, Conn.head, hes, Option.bind_some]
  rcases hp : es.p with _ | h₀
  · obtain ⟨c', l'', hrun, hinv, hfailed, hleaks⟩ :=
      h.sendFirst hfresh hcontents hdata hes hp env
    dsimp only
    rw [← hes, hrun]
    refine ⟨_, l'', rfl, hinv, hleaks.trans (or_congr_right ?_)⟩
    rw [hlens]
    simp
  · obtain ⟨pool₃, hchain, hinv, hleaks⟩ := h.sendBehind hfresh hcontents hdata hes hp
    dsimp only
    rw [hchain]
    exact ⟨_, l ++ l', rfl, hes ▸ hinv, iff_of_true (hes ▸ hleaks) (.inr (by simp))⟩

theorem leaks_iff {c' : Conn n} {l' : List (Fin n × List UInt8)} (hopen : c.failed = false)
    (hfailed : c'.failed = c.failed) : (Leaks c' l' ↔ Leaks c l) ↔
      (Lost c'.pool l' ↔ Lost c.pool l) := by
  rw [Leaks, Leaks, hfailed, hopen]
  rfl

theorem Inv.step (h : Inv c l) (ev : Event n) :
    ∃ c' l', step c ev = some c' ∧ Inv c' l' ∧ (Leaks c' l' ↔ Leaks c l ∨ ¬ Clean c ev) := by
  rw [SockQueue.step]
  split_ifs with hpossible
  · cases ev with
    | send data slots env =>
        obtain ⟨c', l', hrun, hinv, hleaks⟩ := h.sockSrvSend hpossible
        refine ⟨c', l', hrun, hinv, hleaks.trans (or_congr_right ?_)⟩
        simp only [Clean, hpossible, true_imp_iff]
    | sent env =>
        obtain ⟨hopen, hsome⟩ := hpossible
        obtain ⟨es, hes⟩ := Option.isSome_iff_exists.mp hsome
        obtain ⟨c', l', hrun, hinv, hfailed, hlost⟩ := h.sent hopen hes env
        refine ⟨c', l', by rw [handle, hes]; exact hrun, hinv, ?_⟩
        simpa [Clean] using (leaks_iff hopen hfailed).mpr hlost
    | poll env =>
        rw [handle, tcpEchoserverPoll]
        rcases hes : c.es with _ | es
        · exact ⟨c, l, rfl, h, by simp [Clean]⟩
        · obtain ⟨c', l', hrun, hinv, hfailed, hlost⟩ := h.sent hpossible hes env
          exact ⟨c', l', hrun, hinv, by simpa [Clean] using (leaks_iff hpossible hfailed).mpr hlost⟩
    | recv p env =>
        obtain ⟨hopen, hp, hany⟩ := hpossible
        obtain ⟨es, hes, hstate⟩ := (Option.any_eq_true _ _).mp hany
        obtain ⟨c', l', hrun, hinv, hfailed, hlost⟩ :=
          h.recv hopen hes hp (by simpa using hstate) env
        refine ⟨c', l', by rw [handle, hes]; exact hrun, hinv, ?_⟩
        simpa [Clean] using (leaks_iff hopen hfailed).mpr hlost
    | error =>
        obtain ⟨hopen, hsome⟩ := id hpossible
        refine ⟨_, l, rfl, ⟨h.queued, h.data, h.intact, h.sub, fun _ => hsome⟩, ?_⟩
        have hqueued := h.queued
        rw [Leaks, Leaks, hopen, tcpEchoserverError, if_pos rfl, if_neg (by decide),
          lost_nil_iff hqueued]
        refine or_congr_right ?_
        simp only [Clean, hpossible, true_imp_iff]
        refine not_congr ?_
        rcases hhead : c.head with _ | p
        · rw [hhead] at hqueued
          exact iff_of_true hqueued.holds.nil_of_none rfl
        · rw [hhead] at hqueued
          obtain ⟨b, l', hb, rfl, -⟩ := hqueued.holds.cons_of_some
          exact iff_of_false nofun nofun
  · exact ⟨c, l, rfl, h, by simp [Clean, hpossible]⟩

theorem run_inv (evs : List (Event n)) :
    ∃ c l, evs.foldlM step {} = some c ∧ Inv c l ∧ (Leaks c l ↔ ¬ AtSteps step {} Clean evs) := by
  induction evs using List.reverseRecOn with
  | nil =>
      refine ⟨{}, [], rfl, inv_init, iff_of_false ?_ (not_not.mpr (atEach_nil _))⟩
      rintro ⟨q, b, hb, -⟩
      exact absurd hb nofun
  | append_singleton evs ev ih =>
      obtain ⟨c, l, hrun, hinv, hleaks⟩ := ih
      obtain ⟨c', l', hstep, hinv', hleaks'⟩ := hinv.step ev
      have hsnoc : AtSteps step {} Clean (evs ++ [ev]) ↔
          AtSteps step {} Clean evs ∧ Clean c ev := by
        refine atEach_snoc.trans (and_congr_right fun _ => ?_)
        constructor
        · exact fun hclean => hclean c hrun
        · intro hclean s hs
          obtain rfl := Option.some.inj (hrun.symm.trans hs)
          exact hclean
      refine ⟨c', l', foldlM_snoc.mpr ⟨c, hrun, hstep⟩, hinv', ?_⟩
      rw [hleaks', hleaks, hsnoc, not_and_or]

end

/-! ## What is sent, and what is given back -/

/-- Whatever the connection goes through, what is written is the beginning of what was
accepted. -/
theorem run_intact (evs : List (Event n)) :
    ∃ c, evs.foldlM step {} = some c ∧ c.written <+: c.accepted := by
  obtain ⟨c, l, hrun, hinv, -⟩ := run_inv evs
  exact ⟨c, hrun, hinv.sub⟩

/-- All data have been written, or the connection is gone. -/
def Done (c : Conn n) : Prop := c.es = none ∨ c.failed ∨ c.written = c.accepted

/-- No pbuf is used after it has been given back; and once a connection is done all of them
have been given back exactly if every step was clean. -/
theorem run_released_iff (evs : List (Event n)) :
    ∃ c, evs.foldlM step {} = some c ∧
      (Done c → ((∀ q, c.pool q = none) ↔ AtSteps step {} Clean evs)) := by
  obtain ⟨c, l, hrun, hinv, hleaks⟩ := run_inv evs
  refine ⟨c, hrun, fun hdone => ?_⟩
  have hnil : (if c.failed then [] else l) = [] := by
    split_ifs with hfailed
    · rfl
    rcases hes : c.es with _ | es
    · have hqueued := hinv.queued
      rw [Conn.head, hes] at hqueued
      exact hqueued.holds.nil_of_none
    · have hintact := hinv.intact (by rw [hes]; rfl)
      have hwritten := (hdone.resolve_left (by rw [hes]; exact nofun)).resolve_left hfailed
      rw [hwritten, List.append_right_eq_self] at hintact
      rcases l with _ | ⟨e, l⟩
      · rfl
      · have hempty := List.append_eq_nil_iff.mp (hintact : e.2 ++ contents l = [])
        exact absurd hempty.1 (hinv.data e List.mem_cons_self)
  rw [← not_iff_not, ← hleaks, Leaks, hnil]
  constructor
  · intro hused
    obtain ⟨q, hq⟩ := not_forall.mp hused
    obtain ⟨b, hb⟩ := Option.ne_none_iff_exists'.mp hq
    exact ⟨q, b, hb, nofun⟩
  · rintro ⟨q, b, hb, -⟩ hnone
    rw [hnone q] at hb
    exact absurd hb nofun

/-- A second message while the first one waits for room. -/
def chained : List (Event 2) :=
  [.send [1] [(0, 600)] [], .send [2] [(1, 600)] [], .sent [(100, .ok), (100, .ok)]]

theorem not_released_chained :
    ∃ c, chained.foldlM step {} = some c ∧ Done c ∧ ∃ q, c.pool q ≠ none := by
  have hrun : (chained.foldlM step {}).map (fun c => (c.written, c.accepted, (c.pool 1).isSome)) =
      some ([1, 2], [1, 2], true) := by
    decide
  obtain ⟨c, hc, hsummary⟩ := Option.map_eq_some_iff.mp hrun
  obtain ⟨hwritten, hrest⟩ := Prod.mk.inj hsummary
  obtain ⟨haccepted, hused⟩ := Prod.mk.inj hrest
  refine ⟨c, hc, .inr (.inr (hwritten.trans haccepted.symm)), 1, ?_⟩
  exact Option.isSome_iff_ne_none.mp hused

end ShGateway.SockRuns
