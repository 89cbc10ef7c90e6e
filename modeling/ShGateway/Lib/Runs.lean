import Mathlib

/-!
Properties of every step of a run that consumes a list of inputs.
-/

namespace ShGateway.Lib.Runs

variable {α σ : Type*}

/-- `P` holds each time an input comes up, `P` seeing the inputs before it. -/
def AtEach (P : List α → α → Prop) (xs : List α) : Prop :=
  ∀ pre x, pre ++ [x] <+: xs → P pre x

theorem atEach_nil (P : List α → α → Prop) : AtEach P [] := by
  intro pre x h
  simp at h

theorem atEach_snoc {P : List α → α → Prop} {xs : List α} {x : α} :
    AtEach P (xs ++ [x]) ↔ AtEach P xs ∧ P xs x := by
  constructor
  · intro h
    refine ⟨?_, h xs x (List.prefix_refl _)⟩
    intro pre y hpre
    exact h pre y (hpre.trans (List.prefix_append xs [x]))
  · rintro ⟨hxs, hx⟩ pre y hpre
    rcases List.prefix_concat_iff.mp hpre with heq | hpre
    · obtain ⟨rfl, hy⟩ := List.append_inj' heq rfl
      obtain rfl := List.singleton_inj.mp hy
      exact hx
    · exact hxs pre y hpre

/-- Two properties hold at every step of the same runs if they agree at a step
whenever the second held at all earlier ones. -/
theorem atEach_iff {P Q : List α → α → Prop}
    (h : ∀ pre x, AtEach Q pre → (P pre x ↔ Q pre x)) (xs : List α) :
    AtEach P xs ↔ AtEach Q xs := by
  induction xs using List.reverseRecOn with
  | nil => exact iff_of_true (atEach_nil P) (atEach_nil Q)
  | append_singleton xs x ih =>
      rw [atEach_snoc, atEach_snoc, ih]
      constructor
      · rintro ⟨hxs, hx⟩
        exact ⟨hxs, (h xs x hxs).mp hx⟩
      · rintro ⟨hxs, hx⟩
        exact ⟨hxs, (h xs x hxs).mpr hx⟩

/-- What a step preserves under `Q` holds at the end of every run all of whose
steps satisfy `Q`. -/
theorem foldl_invariant {step : σ → α → σ} (Inv : List α → σ → Prop)
    {Q : List α → α → Prop} {s : σ} (hinit : Inv [] s)
    (hstep : ∀ pre x, Inv pre (pre.foldl step s) → Q pre x →
      Inv (pre ++ [x]) (step (pre.foldl step s) x)) {xs : List α}
    (hxs : AtEach Q xs) : Inv xs (xs.foldl step s) := by
  induction xs using List.reverseRecOn with
  | nil => exact hinit
  | append_singleton xs x ih =>
      obtain ⟨hxs, hx⟩ := atEach_snoc.mp hxs
      rw [List.foldl_append, List.foldl_cons, List.foldl_nil]
      exact hstep xs x (ih hxs) hx

theorem AtEach.of_prefix {P : List α → α → Prop} {xs ys : List α} (h : AtEach P ys)
    (hxs : xs <+: ys) : AtEach P xs :=
  fun pre x hpre => h pre x (hpre.trans hxs)

/-- What follows at a step from an invariant and from `Q` holds at every step of
the runs all of whose steps satisfy `Q`. -/
theorem atEach_of_invariant (step : σ → α → σ) (Inv : List α → σ → Prop)
    {P Q : List α → α → Prop} {s : σ} (hinit : Inv [] s)
    (hstep : ∀ pre x, Inv pre (pre.foldl step s) → Q pre x →
      Inv (pre ++ [x]) (step (pre.foldl step s) x))
    (hP : ∀ pre x, Inv pre (pre.foldl step s) → Q pre x → P pre x) {xs : List α}
    (hxs : AtEach Q xs) : AtEach P xs := by
  intro pre x hpre
  have hpre' := (List.prefix_append pre [x]).trans hpre
  exact hP pre x (foldl_invariant Inv hinit hstep (hxs.of_prefix hpre')) (hxs pre x hpre)

/-! ## Steps that may be impossible -/

section

variable {step : σ → α → Option σ} {s₀ s s' : σ} {xs : List α} {x : α}

theorem foldlM_snoc :
    (xs ++ [x]).foldlM step s₀ = some s' ↔
      ∃ s, xs.foldlM step s₀ = some s ∧ step s x = some s' := by
  rw [List.foldlM_append]
  simp [Option.bind_eq_some_iff]

theorem foldlM_of_prefix {ys : List α} (hxs : xs.foldlM step s₀ = some s)
    (hpre : ys <+: xs) : ∃ t, ys.foldlM step s₀ = some t := by
  obtain ⟨zs, rfl⟩ := hpre
  rw [List.foldlM_append] at hxs
  obtain ⟨t, ht, -⟩ := Option.bind_eq_some_iff.mp hxs
  exact ⟨t, ht⟩

theorem foldlM_invariant {Inv : σ → Prop} (hinit : Inv s₀)
    (hstep : ∀ s x s', Inv s → step s x = some s' → Inv s')
    (hxs : xs.foldlM step s₀ = some s) : Inv s := by
  induction xs using List.reverseRecOn generalizing s with
  | nil =>
      obtain rfl := Option.some.inj hxs
      exact hinit
  | append_singleton xs x ih =>
      obtain ⟨t, ht, hs⟩ := foldlM_snoc.mp hxs
      exact hstep t x s (ih ht) hs

/-- `P` holds in every state of a run. -/
def Throughout (step : σ → α → Option σ) (s₀ : σ) (P : σ → Prop) (xs : List α) : Prop :=
  ∀ pre, pre <+: xs → ∀ s, pre.foldlM step s₀ = some s → P s

/-- `Q` holds of every step of a run and the state it starts from. -/
def AtSteps (step : σ → α → Option σ) (s₀ : σ) (Q : σ → α → Prop) (xs : List α) : Prop :=
  AtEach (fun pre x => ∀ s, pre.foldlM step s₀ = some s → Q s x) xs

/-- If the steps that satisfy `Q` preserve an invariant with `P`, and all others
lead to a state without `P`, then the runs with `P` throughout are those all of
whose steps satisfy `Q`. -/
theorem throughout_iff_atSteps {Inv P : σ → Prop} {Q : σ → α → Prop} (hinit : Inv s₀)
    (hP : ∀ s, Inv s → P s) (hstep : ∀ s x s', Inv s → Q s x → step s x = some s' → Inv s')
    (hbreak : ∀ s x s', Inv s → ¬ Q s x → step s x = some s' → ¬ P s')
    (hxs : xs.foldlM step s₀ = some s) :
    Throughout step s₀ P xs ↔ AtSteps step s₀ Q xs := by
  have hinv : ∀ ys, ys <+: xs → Throughout step s₀ P ys ∨ AtSteps step s₀ Q ys →
      (∀ t, ys.foldlM step s₀ = some t → Inv t) ∧ Throughout step s₀ P ys ∧
        AtSteps step s₀ Q ys := by
    intro ys hpre
    induction ys using List.reverseRecOn with
    | nil =>
        intro _
        refine ⟨?_, ?_, atEach_nil _⟩
        · rintro t ⟨⟩
          exact hinit
        · intro pre hnil t ht
          obtain rfl := List.prefix_nil.mp hnil
          obtain rfl := Option.some.inj ht
          exact hP _ hinit
    | append_singleton ys y ih =>
        intro hor
        have hys := (List.prefix_append ys [y]).trans hpre
        obtain ⟨hinv, hthrough, hat⟩ := ih hys (hor.imp
          (fun h pre hpre' => h pre (hpre'.trans (List.prefix_append ys [y])))
          fun h => (atEach_snoc.mp h).1)
        have hQ : ∀ t, ys.foldlM step s₀ = some t → Q t y := by
          intro t ht
          rcases hor with h | h
          · by_contra hnot
            obtain ⟨t', ht'⟩ := foldlM_of_prefix hxs hpre
            obtain ⟨u, hu, hlast⟩ := foldlM_snoc.mp ht'
            obtain rfl := Option.some.inj (ht.symm.trans hu)
            exact hbreak t y t' (hinv t ht) hnot hlast
              (h (ys ++ [y]) (List.prefix_refl _) t' ht')
          · exact (atEach_snoc.mp h).2 t ht
        have hnext : ∀ t, (ys ++ [y]).foldlM step s₀ = some t → Inv t := by
          intro t ht
          obtain ⟨u, hu, hlast⟩ := foldlM_snoc.mp ht
          exact hstep u y t (hinv u hu) (hQ u hu) hlast
        refine ⟨hnext, ?_, atEach_snoc.mpr ⟨hat, hQ⟩⟩
        intro pre hpre' t ht
        rcases List.prefix_concat_iff.mp hpre' with rfl | hpre'
        · exact hP t (hnext t ht)
        · exact hthrough pre hpre' t ht
  exact ⟨fun h => (hinv xs (List.prefix_refl xs) (.inl h)).2.2,
    fun h => (hinv xs (List.prefix_refl xs) (.inr h)).2.1⟩

/-- If the steps that satisfy `Q` are possible and preserve an invariant, and all others are
impossible, then the possible runs are those all of whose steps satisfy `Q`. -/
theorem foldlM_isSome_iff_atSteps (Inv : σ → Prop) {Q : σ → α → Prop} (hinit : Inv s₀)
    (hstep : ∀ s x, Inv s → Q s x → ∃ s', step s x = some s' ∧ Inv s')
    (hfail : ∀ s x, Inv s → ¬ Q s x → step s x = none) (xs : List α) :
    (∃ s, xs.foldlM step s₀ = some s) ↔ AtSteps step s₀ Q xs := by
  have hQ : ∀ s x s', Inv s → step s x = some s' → Q s x := by
    intro s x s' hinv hs'
    by_contra hnot
    rw [hfail s x hinv hnot] at hs'
    cases hs'
  have hpres : ∀ s x s', Inv s → step s x = some s' → Inv s' := by
    intro s x s' hinv hs'
    obtain ⟨t, ht, hinv'⟩ := hstep s x hinv (hQ s x s' hinv hs')
    obtain rfl := Option.some.inj (ht.symm.trans hs')
    exact hinv'
  induction xs using List.reverseRecOn with
  | nil => exact iff_of_true ⟨s₀, rfl⟩ (atEach_nil _)
  | append_singleton xs x ih =>
      constructor
      · rintro ⟨s', hs'⟩
        obtain ⟨s, hs, hx⟩ := foldlM_snoc.mp hs'
        refine atEach_snoc.mpr ⟨ih.mp ⟨s, hs⟩, ?_⟩
        intro t ht
        obtain rfl := Option.some.inj (hs.symm.trans ht)
        exact hQ s x s' (foldlM_invariant hinit hpres hs) hx
      · intro hat
        obtain ⟨hxs, hx⟩ := atEach_snoc.mp hat
        obtain ⟨s, hs⟩ := ih.mpr hxs
        obtain ⟨s', hs', -⟩ := hstep s x (foldlM_invariant hinit hpres hs) (hx s hs)
        exact ⟨s', foldlM_snoc.mpr ⟨s, hs, hs'⟩⟩

end

end ShGateway.Lib.Runs
