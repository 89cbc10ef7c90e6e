import Mathlib

/-!
Chains of reference-counted buffers.
-/

namespace ShGateway.Lib.BufChain

universe u v

/-- A buffer in use: the next one of its chain, its data, and how often it is referred to. -/
structure Buf (ι : Type u) (α : Type v) where
  next : Option ι
  data : List α
  ref : Nat

/-- The buffers in use. -/
abbrev Pool (ι : Type u) (α : Type v) := ι → Option (Buf ι α)

/-! ## Chains -/

section

variable {ι : Type u} {α : Type v}

/-- From `p₀` on, the buffers of `l` follow each other with the data given there. -/
def Holds (pool : Pool ι α) : Option ι → List (ι × List α) → Prop
  | p₀, [] => p₀ = none
  | p₀, (q, d) :: l => p₀ = some q ∧ ∃ b, pool q = some b ∧ b.data = d ∧ Holds pool b.next l

def keys (l : List (ι × List α)) : List ι := l.map Prod.fst

def contents (l : List (ι × List α)) : List α := l.flatMap Prod.snd

variable {pool pool' : Pool ι α} {p q : ι} {p₀ : Option ι} {d : List α} {l : List (ι × List α)}
  {n : Nat}

theorem holds_nil : Holds pool p₀ [] ↔ p₀ = none := Iff.rfl

theorem holds_cons : Holds pool p₀ ((q, d) :: l) ↔
    p₀ = some q ∧ ∃ b, pool q = some b ∧ b.data = d ∧ Holds pool b.next l := Iff.rfl

theorem contents_cons : contents ((q, d) :: l) = d ++ contents l := List.flatMap_cons

theorem Holds.nil_of_none (h : Holds pool none l) : l = [] := by
  rcases l with _ | ⟨⟨q, d⟩, l⟩
  · rfl
  · exact absurd (holds_cons.mp h).1 nofun

theorem Holds.cons_of_some (h : Holds pool (some p) l) :
    ∃ b l', pool p = some b ∧ l = (p, b.data) :: l' ∧ Holds pool b.next l' := by
  rcases l with _ | ⟨⟨q, d⟩, l⟩
  · exact absurd (holds_nil.mp h) nofun
  · obtain ⟨heq, b, hb, hd, hl⟩ := holds_cons.mp h
    obtain rfl := Option.some.inj heq
    exact ⟨b, l, hb, by rw [hd], hl⟩

theorem Holds.mem (h : Holds pool p₀ l) (hq : q ∈ keys l) : ∃ b, pool q = some b := by
  induction l generalizing p₀ with
  | nil => exact absurd hq List.not_mem_nil
  | cons e l ih =>
      obtain ⟨-, b, hb, -, hl⟩ := holds_cons.mp h
      rcases List.mem_cons.mp hq with rfl | hq
      · exact ⟨b, hb⟩
      · exact ih hl hq

/-- A chain depends on the links and the data of its buffers only. -/
theorem Holds.congr (h : Holds pool p₀ l)
    (hsame : ∀ q ∈ keys l, ∀ b, pool q = some b →
      ∃ b', pool' q = some b' ∧ b'.next = b.next ∧ b'.data = b.data) : Holds pool' p₀ l := by
  induction l generalizing p₀ with
  | nil => exact h
  | cons e l ih =>
      obtain ⟨q, d⟩ := e
      obtain ⟨hp, b, hb, hd, hl⟩ := holds_cons.mp h
      obtain ⟨b', hb', hnext, hdata⟩ := hsame q List.mem_cons_self b hb
      refine holds_cons.mpr ⟨hp, b', hb', hdata.trans hd, ?_⟩
      rw [hnext]
      exact ih hl fun q hq => hsame q (List.mem_cons_of_mem _ hq)

/-- The last buffer of a chain. -/
def last : Nat → Pool ι α → ι → Option ι
  | 0, _, _ => none
  | n + 1, pool, p =>
      (pool p).bind fun b =>
        match b.next with
        | none => some p
        | some q => last n pool q

theorem last_eq (h : Holds pool (some p) (l ++ [(q, d)])) (hn : l.length < n) :
    last n pool p = some q := by
  induction l generalizing p n with
  | nil =>
      obtain ⟨n, rfl⟩ := Nat.exists_eq_succ_of_ne_zero (Nat.ne_zero_of_lt hn)
      obtain ⟨hp, b, hb, -, hnil⟩ := holds_cons.mp h
      obtain rfl := Option.some.inj hp
      rw [last, hb, Option.bind_some, holds_nil.mp hnil]
  | cons e l ih =>
      obtain ⟨n, rfl⟩ := Nat.exists_eq_succ_of_ne_zero (Nat.ne_zero_of_lt hn)
      obtain ⟨hp, b, hb, -, hl⟩ := holds_cons.mp h
      obtain rfl := Option.some.inj hp
      rcases hnext : b.next with _ | r
      · rw [hnext] at hl
        exact absurd hl.nil_of_none (by simp)
      · rw [hnext] at hl
        rw [last, hb, Option.bind_some, hnext]
        exact ih hl (Nat.lt_of_succ_lt_succ hn)

end

/-! ## Operations -/

section

variable {ι : Type u} {α : Type v} [DecidableEq ι]

def Pool.set (pool : Pool ι α) (p : ι) (b : Option (Buf ι α)) : Pool ι α :=
  Function.update pool p b

/-- One more reference. No result stands for the use of a buffer that is not in use, here
and below. -/
def retain (pool : Pool ι α) (p : ι) : Option (Pool ι α) :=
  (pool p).map fun b => pool.set p (some { b with ref := b.ref + 1 })

/-- One reference less. A buffer with none left is given back, and with it its reference to
the next one of the chain. -/
def release : Nat → Pool ι α → Option ι → Option (Pool ι α)
  | _, pool, none => some pool
  | 0, _, some _ => none
  | n + 1, pool, some p =>
      (pool p).bind fun b =>
        match b.ref with
        | 0 => none
        | 1 => release n (pool.set p none) b.next
        | k + 2 => some (pool.set p (some { b with ref := k + 1 }))

/-- The chain of `t` behind the one of `h`. -/
def cat (n : Nat) (pool : Pool ι α) (h t : ι) : Option (Pool ι α) :=
  (last n pool h).bind fun p =>
    (pool p).map fun b => pool.set p (some { b with next := some t })

/-- The same with a reference of its own to `t`. -/
def chain (n : Nat) (pool : Pool ι α) (h t : ι) : Option (Pool ι α) :=
  (cat n pool h t).bind fun pool => retain pool t

/-- The reference to the head of a chain goes on to the next buffer, which the head
refers to until it is given back. -/
def advance (n : Nat) (pool : Pool ι α) (p : ι) : Option (Option ι × Pool ι α) :=
  (pool p).bind fun b =>
    (match b.next with
      | none => some pool
      | some q => retain pool q).bind fun pool' =>
        (release n pool' (some p)).map fun pool'' => (b.next, pool'')

/-- A new chain of buffers that are referred to once. -/
def build (pool : Pool ι α) : List (ι × List α) → Pool ι α
  | [] => pool
  | (q, d) :: l => (build pool l).set q (some ⟨l.head?.map Prod.fst, d, 1⟩)

/-- The data are copied to the buffers of a chain, each taking as many as it has room for. -/
def fill : Nat → Pool ι α → Option ι → List α → Option (Pool ι α)
  | _, pool, _, [] => some pool
  | n + 1, pool, some p, data =>
      (pool p).bind fun b =>
        fill n (pool.set p (some { b with
          data := data.take b.data.length ++ b.data.drop data.length })) b.next
          (data.drop b.data.length)
  | _, _, _, _ => none

variable {pool pool' : Pool ι α} {p q t : ι} {p₀ : Option ι} {b c : Buf ι α} {d data : List α}
  {l l' : List (ι × List α)} {n k : Nat}

@[simp] theorem set_self (b : Option (Buf ι α)) : pool.set p b p = b := Function.update_self ..

theorem set_of_ne (h : q ≠ p) (b : Option (Buf ι α)) : pool.set p b q = pool q :=
  Function.update_of_ne h ..

theorem Holds.set_of_notMem (h : Holds pool p₀ l) (hp : p ∉ keys l) (b : Option (Buf ι α)) :
    Holds (pool.set p b) p₀ l := by
  apply h.congr
  intro q hq c hc
  refine ⟨c, ?_, rfl, rfl⟩
  rw [set_of_ne (ne_of_mem_of_not_mem hq hp)]
  exact hc

theorem Holds.set_ref (h : Holds pool p₀ l) (hb : pool p = some b) (k : Nat) :
    Holds (pool.set p (some { b with ref := k })) p₀ l := by
  apply h.congr
  intro q _ c hc
  rcases eq_or_ne q p with rfl | hne
  · obtain rfl := Option.some.inj (hb.symm.trans hc)
    exact ⟨_, set_self _, rfl, rfl⟩
  · exact ⟨c, (set_of_ne hne _).trans hc, rfl, rfl⟩

theorem retain_eq (hb : pool p = some b) :
    retain pool p = some (pool.set p (some { b with ref := b.ref + 1 })) := by
  rw [retain, hb, Option.map_some]

/-! ### Going on to the next buffer -/

theorem advance_last (hb : pool p = some b) (href : b.ref = 1) (hne : b.next ≠ some p)
    (hnext : ∀ q, b.next = some q → ∃ c, pool q = some c ∧ 0 < c.ref) (hn : 2 ≤ n) :
    advance n pool p = some (b.next, pool.set p none) := by
  obtain ⟨n, rfl⟩ := Nat.exists_eq_add_of_le' hn
  rw [advance, hb, Option.bind_some]
  rcases hq : b.next with _ | q
  · rw [Option.bind_some, release, hb, Option.bind_some, href]
    dsimp only
    rw [hq, release, Option.map_some]
  · obtain ⟨c, hc, hpos⟩ := hnext q hq
    have hpq : p ≠ q := fun h => hne (hq.trans (congrArg some h.symm))
    have hsame : (pool.set q (some { c with ref := c.ref + 1 })) p = some b :=
      (set_of_ne hpq _).trans hb
    have hsame' : ((pool.set q (some { c with ref := c.ref + 1 })).set p none) q =
        some { c with ref := c.ref + 1 } :=
      (set_of_ne hpq.symm _).trans (set_self _)
    obtain ⟨k, hk⟩ := Nat.exists_eq_succ_of_ne_zero hpos.ne'
    have hback : ((pool.set q (some { c with ref := c.ref + 1 })).set p none).set q (some c) =
        pool.set p none := by
      funext x
      rcases eq_or_ne x q with rfl | hxq
      · rw [set_self, set_of_ne hpq.symm, hc]
      · rw [set_of_ne hxq]
        rcases eq_or_ne x p with rfl | hxp
        · rw [set_self, set_self]
        · rw [set_of_ne hxp, set_of_ne hxp, set_of_ne hxq]
    dsimp only
    rw [retain_eq hc, Option.bind_some, release, hsame, Option.bind_some, href]
    dsimp only
    rw [hq, release, hsame', Option.bind_some, hk]
    dsimp only
    rw [Option.map_some, ← hback]
    obtain ⟨next, data, ref⟩ := c
    dsimp only at hk ⊢
    rw [hk]

theorem advance_shared (hb : pool p = some b) (href : b.ref = k + 2) (hne : b.next ≠ some p)
    (hnext : ∀ q, b.next = some q → ∃ c, pool q = some c) (hn : 1 ≤ n) :
    ∃ pool', advance n pool p = some (b.next, pool') ∧
      pool' p = some { b with ref := k + 1 } ∧
        ∀ x ≠ p, pool' x = if b.next = some x then
          (pool x).map fun c => { c with ref := c.ref + 1 } else pool x := by
  obtain ⟨n, rfl⟩ := Nat.exists_eq_add_of_le' hn
  rw [advance, hb, Option.bind_some]
  rcases hq : b.next with _ | q
  · rw [Option.bind_some, release, hb, Option.bind_some, href]
    refine ⟨_, rfl, by rw [set_self, hq], fun x hx => ?_⟩
    rw [set_of_ne hx, if_neg nofun]
  · obtain ⟨c, hc⟩ := hnext q hq
    have hpq : p ≠ q := fun h => hne (hq.trans (congrArg some h.symm))
    have hsame : (pool.set q (some { c with ref := c.ref + 1 })) p = some b :=
      (set_of_ne hpq _).trans hb
    dsimp only
    rw [retain_eq hc, Option.bind_some, release, hsame, Option.bind_some, href]
    refine ⟨_, rfl, by rw [set_self, hq], fun x hx => ?_⟩
    rw [set_of_ne hx]
    rcases eq_or_ne x q with rfl | hxq
    · rw [set_self, if_pos rfl, hc, Option.map_some]
    · rw [set_of_ne hxq, if_neg fun h => hxq (Option.some.inj h).symm]

/-! ### Appending -/

theorem Holds.set_next (h : Holds pool p₀ (l ++ [(q, d)])) (hnodup : (keys (l ++ [(q, d)])).Nodup)
    (hb : pool q = some b)
    (ht : Holds (pool.set q (some { b with next := some t })) (some t) l') :
    Holds (pool.set q (some { b with next := some t })) p₀ (l ++ (q, d) :: l') := by
  induction l generalizing p₀ with
  | nil =>
      obtain ⟨hp, c, hc, hd, -⟩ := holds_cons.mp h
      obtain rfl := Option.some.inj (hb.symm.trans hc)
      exact holds_cons.mpr ⟨hp, _, set_self _, hd, ht⟩
  | cons e l ih =>
      obtain ⟨r, d'⟩ := e
      obtain ⟨hp, c, hc, hd, hl⟩ := holds_cons.mp h
      obtain ⟨hr, hnodup⟩ := List.nodup_cons.mp hnodup
      have hrq : r ≠ q := by
        rintro rfl
        exact hr (by simp)
      exact holds_cons.mpr ⟨hp, c, (set_of_ne hrq _).trans hc, hd, ih hl hnodup⟩

theorem chain_eq (h : Holds pool (some p) (l ++ [(q, d)])) (hb : pool q = some b)
    (hc : pool t = some c) (hqt : q ≠ t) (hn : l.length < n) :
    chain n pool p t = some ((pool.set q (some { b with next := some t })).set t
      (some { c with ref := c.ref + 1 })) := by
  rw [chain, cat, last_eq h hn, Option.bind_some, hb, Option.map_some, Option.bind_some]
  exact retain_eq ((set_of_ne hqt.symm _).trans hc)

/-- The two chains are one. -/
theorem Holds.chain (h : Holds pool (some p) (l ++ [(q, d)])) (ht : Holds pool (some t) l')
    (hnodup : (keys (l ++ [(q, d)] ++ l')).Nodup) (hb : pool q = some b) (hc : pool t = some c) :
    Holds ((pool.set q (some { b with next := some t })).set t
      (some { c with ref := c.ref + 1 })) (some p) (l ++ [(q, d)] ++ l') := by
  have hsplit : keys (l ++ [(q, d)] ++ l') = keys (l ++ [(q, d)]) ++ keys l' := List.map_append
  rw [hsplit, List.nodup_append] at hnodup
  obtain ⟨hnodup, -, hdisjoint⟩ := hnodup
  have hq : q ∈ keys (l ++ [(q, d)]) := by simp [keys]
  have hqt : q ≠ t := by
    obtain ⟨b', l'', -, rfl, -⟩ := ht.cons_of_some
    exact hdisjoint q hq t List.mem_cons_self
  have hlinked := h.set_next hnodup hb (t := t)
    (ht.set_of_notMem (fun hmem => hdisjoint q hq q hmem rfl) _)
  rw [List.append_assoc, List.singleton_append]
  exact hlinked.set_ref ((set_of_ne hqt.symm _).trans hc) _

/-! ### New chains -/

theorem build_of_notMem (h : q ∉ keys l) : build pool l q = pool q := by
  induction l with
  | nil => rfl
  | cons e l ih =>
      rw [keys, List.map_cons, List.mem_cons, not_or] at h
      rw [build, set_of_ne h.1]
      exact ih h.2

theorem build_ref (h : q ∈ keys l) : ∃ b, build pool l q = some b ∧ b.ref = 1 := by
  induction l with
  | nil => exact absurd h List.not_mem_nil
  | cons e l ih =>
      rw [build]
      rcases eq_or_ne q e.1 with rfl | hne
      · exact ⟨_, set_self _, rfl⟩
      · rw [set_of_ne hne]
        exact ih ((List.mem_cons.mp h).resolve_left hne)

theorem holds_build (h : (keys l).Nodup) : Holds (build pool l) (l.head?.map Prod.fst) l := by
  induction l with
  | nil => rfl
  | cons e l ih =>
      obtain ⟨q, d⟩ := e
      obtain ⟨hq, hl⟩ := List.nodup_cons.mp h
      exact holds_cons.mpr ⟨rfl, _, set_self _, rfl, (ih hl).set_of_notMem hq _⟩

/-- The data fill the buffers of a chain exactly. -/
theorem fill_eq (h : Holds pool p₀ l) (hnodup : (keys l).Nodup)
    (hlen : (contents l).length = data.length) (hn : l.length ≤ n) :
    ∃ pool' l', fill n pool p₀ data = some pool' ∧ Holds pool' p₀ l' ∧ keys l' = keys l ∧
      contents l' = data ∧ (∀ q ∉ keys l, pool' q = pool q) ∧
        (∀ q b, pool' q = some b → ∃ b', pool q = some b' ∧ b'.ref = b.ref) ∧
          l'.map (fun e => e.2.length) = l.map fun e => e.2.length := by
  induction l generalizing pool p₀ data n with
  | nil =>
      obtain rfl := holds_nil.mp h
      obtain rfl := List.length_eq_zero_iff.mp hlen.symm
      exact ⟨pool, [], by rw [fill], h, rfl, rfl, fun _ _ => rfl, fun q b hb => ⟨b, hb, rfl⟩, rfl⟩
  | cons e l ih =>
      obtain ⟨q, d⟩ := e
      rcases data with _ | ⟨a, data⟩
      · have hnil : contents ((q, d) :: l) = [] := List.length_eq_zero_iff.mp hlen
        exact ⟨pool, _, by rw [fill], h, rfl, hnil, fun _ _ => rfl,
          fun q b hb => ⟨b, hb, rfl⟩, rfl⟩
      · obtain ⟨n, rfl⟩ := Nat.exists_eq_succ_of_ne_zero (Nat.ne_zero_of_lt hn)
        obtain ⟨rfl, b, hb, rfl, hl⟩ := holds_cons.mp h
        obtain ⟨hq, hnodup⟩ := List.nodup_cons.mp hnodup
        rw [contents_cons, List.length_append] at hlen
        have hdrop : b.data.drop (a :: data).length = [] := List.drop_eq_nil_of_le (by omega)
        obtain ⟨pool', l', hfill, hl', hkeys, hcontents, hrest, href, hsizes⟩ :=
          @ih (pool.set q (some { b with
              data := (a :: data).take b.data.length ++ b.data.drop (a :: data).length })) b.next
            ((a :: data).drop b.data.length) n (hl.set_of_notMem hq _) hnodup
            (by rw [List.length_drop]; omega) (Nat.le_of_succ_le_succ hn)
        have hhead : pool' q = some { b with
            data := (a :: data).take b.data.length ++ b.data.drop (a :: data).length } :=
          (hrest q hq).trans (set_self _)
        refine ⟨pool', (q, (a :: data).take b.data.length) :: l', ?_, ?_, ?_, ?_, ?_, ?_, ?_⟩
        · rw [fill, hb, Option.bind_some]
          · exact hfill
          · exact nofun
        · refine holds_cons.mpr ⟨rfl, _, hhead, ?_, hl'⟩
          rw [hdrop, List.append_nil]
        · exact congrArg (q :: ·) hkeys
        · rw [contents_cons, hcontents, List.take_append_drop]
        · intro x hx
          rw [keys, List.map_cons, List.mem_cons, not_or] at hx
          rw [hrest x hx.2, set_of_ne hx.1]
        · intro x c hc
          obtain ⟨c', hc', heq⟩ := href x c hc
          rcases eq_or_ne x q with rfl | hne
          · rw [set_self] at hc'
            obtain rfl := Option.some.inj hc'
            exact ⟨b, hb, heq⟩
          · exact ⟨c', (set_of_ne hne _).symm.trans hc', heq⟩
        · rw [List.map_cons, List.map_cons, hsizes, List.length_take, Nat.min_eq_left (by omega)]

end

end ShGateway.Lib.BufChain
