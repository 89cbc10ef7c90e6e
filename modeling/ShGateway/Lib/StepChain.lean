import Mathlib

/-!
Procedures that take one step after another and give up at the first that
fails, by what they exchange with their environment.
-/

namespace ShGateway.Lib.StepChain

variable {α σ τ : Type*}

/-- The exchanges that complete a step and those of a step that fails. -/
structure Step (α : Type*) where
  Passed : List α → Prop
  Failed : List α → Prop

/-- The steps in their order up to the first that fails. After it nothing is exchanged and the
result is not zero. -/
inductive Conducted : List (Step α) → Int → List α → Prop
  | finished : Conducted [] 0 []
  | passed {step steps result done rest} : step.Passed done → Conducted steps result rest →
      Conducted (step :: steps) result (done ++ rest)
  | failed {step steps result done} : step.Failed done → result ≠ 0 →
      Conducted (step :: steps) result done

section

variable {step : Step α} {earlier later steps : List (Step α)} {result : Int}
  {xs done rest pre post : List α} {x : α}

theorem Conducted.single_passed (h : step.Passed done) : Conducted [step] 0 done := by
  have hchain := Conducted.passed h .finished
  rwa [List.append_nil] at hchain

/-- Further steps are taken when all steps before them passed. -/
theorem Conducted.append (hearlier : Conducted earlier 0 done)
    (hlater : Conducted later result rest) :
    Conducted (earlier ++ later) result (done ++ rest) := by
  generalize hzero : (0 : Int) = z at hearlier
  induction hearlier with
  | finished => exact hlater
  | passed hpassed _ ih =>
      rw [List.cons_append, List.append_assoc]
      exact .passed hpassed (ih hzero)
  | failed _ hresult => exact absurd hzero.symm hresult

theorem Conducted.append_failed (hearlier : Conducted earlier result done)
    (hresult : result ≠ 0) : Conducted (earlier ++ later) result done := by
  induction hearlier with
  | finished => exact absurd rfl hresult
  | passed hpassed _ ih => exact .passed hpassed (ih hresult)
  | failed hfailed _ => exact .failed hfailed hresult

theorem Conducted.last_passed (h : Conducted (steps ++ [step]) 0 xs) :
    ∃ pre done, xs = pre ++ done ∧ step.Passed done := by
  induction steps generalizing xs with
  | nil =>
      cases h with
      | passed hpassed hrest =>
          cases hrest with
          | finished => exact ⟨[], _, List.append_nil _, hpassed⟩
      | failed _ hresult => exact absurd rfl hresult
  | cons first steps ih =>
      cases h with
      | passed _ hrest =>
          rcases ih hrest with ⟨pre, done, rfl, hdone⟩
          exact ⟨_ ++ pre, done, (List.append_assoc _ _ _).symm, hdone⟩
      | failed _ hresult => exact absurd rfl hresult

/-- What no step of the first part exchanges comes after all of them have passed. -/
theorem Conducted.passed_before {P : α → Prop} (h : Conducted (earlier ++ later) result xs)
    (hearlier : ∀ step ∈ earlier, ∀ done, step.Passed done ∨ step.Failed done →
      ∀ y ∈ done, ¬ P y) (hxs : xs = pre ++ x :: post) (hx : P x) :
    ∃ parts, List.Forall₂ (fun (step : Step α) part => step.Passed part) earlier parts ∧
      parts.flatten <+: pre := by
  induction earlier generalizing xs pre with
  | nil => exact ⟨[], .nil, List.nil_prefix⟩
  | cons first earlier ih =>
      have hfirst := hearlier first List.mem_cons_self
      cases h with
      | @passed _ _ _ done rest hpassed hrest =>
          -- `x` is not exchanged in the first step, so `pre` contains that step
          rcases List.append_eq_append_iff.mp hxs with ⟨mid, hpre, hmid⟩ | ⟨mid, hdone, hmid⟩
          · rcases ih hrest (fun step hstep => hearlier step (List.mem_cons_of_mem _ hstep))
              hmid with ⟨parts, hparts, hflat⟩
            refine ⟨done :: parts, .cons hpassed hparts, ?_⟩
            rw [List.flatten_cons, hpre]
            exact (List.prefix_append_right_inj done).mpr hflat
          · cases mid with
            | nil =>
                rcases ih hrest (fun step hstep => hearlier step (List.mem_cons_of_mem _ hstep))
                  (hmid.symm.trans (List.nil_append _).symm) with ⟨parts, hparts, hflat⟩
                refine ⟨done :: parts, .cons hpassed hparts, ?_⟩
                rw [List.flatten_cons, List.prefix_nil.mp hflat, List.append_nil, hdone, List.append_nil]
            | cons y mid =>
                obtain ⟨rfl, -⟩ := List.cons.inj hmid
                refine absurd hx (hfirst done (.inl hpassed) x ?_)
                rw [hdone]
                exact List.mem_append_right _ List.mem_cons_self
      | failed hfailed _ =>
          refine absurd hx (hfirst xs (.inr hfailed) x ?_)
          rw [hxs]
          exact List.mem_append_right _ List.mem_cons_self

theorem Conducted.mem (h : Conducted steps result xs) (hx : x ∈ xs) :
    ∃ step ∈ steps, ∃ done, (step.Passed done ∨ step.Failed done) ∧ x ∈ done := by
  induction h with
  | finished => cases hx
  | passed hpassed _ ih =>
      rcases List.mem_append.mp hx with hx | hx
      · exact ⟨_, List.mem_cons_self, _, .inl hpassed, hx⟩
      · rcases ih hx with ⟨step, hstep, hdone⟩
        exact ⟨step, List.mem_cons_of_mem _ hstep, hdone⟩
  | failed hfailed _ => exact ⟨_, List.mem_cons_self, _, .inr hfailed, hx⟩

end

/-! ## Programs with a record of their exchanges -/

/-- One program after another, unless the first fails. -/
def andThen (first second : σ → Int × σ) (s : σ) : Int × σ :=
  if (first s).1 = 0 then second (first s).2 else first s

/-- With a record of exchanges beside its state, `program` runs as `bare` does, and what it adds
to the record are the given steps. -/
def Performs (steps : List (Step α)) (program : σ × List α → Int × σ × List α)
    (bare : σ → Int × σ) : Prop :=
  ∀ s log, ∃ xs, program (s, log) = ((bare s).1, (bare s).2, log ++ xs) ∧
    Conducted steps (bare s).1 xs

theorem Performs.skip :
    Performs [] (fun s : σ × List α => (0, s)) (fun s : σ => (0, s)) := by
  intro s log
  exact ⟨[], by rw [List.append_nil], .finished⟩

theorem Performs.andThen {first second : List (Step α)}
    {program program' : σ × List α → Int × σ × List α} {bare bare' : σ → Int × σ}
    (hfirst : Performs first program bare) (hsecond : Performs second program' bare') :
    Performs (first ++ second) (andThen program program') (andThen bare bare') := by
  intro s log
  rcases hfirst s log with ⟨xs, hrun, hxs⟩
  rw [StepChain.andThen, StepChain.andThen, hrun]
  dsimp only
  rcases Classical.em ((bare s).1 = 0) with hzero | hzero
  · rw [if_pos hzero, if_pos hzero]
    rcases hsecond (bare s).2 (log ++ xs) with ⟨ys, hrun', hys⟩
    rw [hzero] at hxs
    exact ⟨xs ++ ys, by rw [hrun', List.append_assoc], hxs.append hys⟩
  · rw [if_neg hzero, if_neg hzero]
    exact ⟨xs, rfl, hxs.append_failed hzero⟩

end ShGateway.Lib.StepChain
