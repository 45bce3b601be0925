import Mathlib.Logic.Basic

/-! Runs of a step function that may refuse its input. A condition on all steps of a run is checked along
the run. An invariant that every step with the condition keeps holds after such a run, and what it
implies for one step holds for every step of the run. -/

namespace StepRuns

variable {σ ι : Type} (step : σ → ι → Option σ)

/-- The state after all inputs. There is no result if a step refuses its input. -/
def run : σ → List ι → Option σ
  | state, [] => some state
  | state, input :: rest => (step state input).bind fun state => run state rest

/-- The condition holds at every step of the run, up to the first that is refused. -/
def AllSteps (condition : σ → ι → Prop) : σ → List ι → Prop
  | _, [] => True
  | state, input :: rest =>
      condition state input ∧ ∀ state' ∈ step state input, AllSteps condition state' rest

instance decidableAllSteps (condition : σ → ι → Prop) [∀ state input, Decidable (condition state input)] :
    ∀ (inputs : List ι) (state : σ), Decidable (AllSteps step condition state inputs)
  | [], _ => inferInstanceAs (Decidable True)
  | input :: rest, state =>
      haveI := fun state : σ => decidableAllSteps condition rest state
      inferInstanceAs (Decidable
        (condition state input ∧ ∀ state' ∈ step state input, AllSteps step condition state' rest))

variable {step}

theorem AllSteps.of_append {condition : σ → ι → Prop} {state : σ} {inputs inputs' : List ι}
    (h : AllSteps step condition state (inputs ++ inputs')) : AllSteps step condition state inputs := by
  induction inputs generalizing state with
  | nil => trivial
  | cons input rest ih => exact ⟨h.1, fun next hnext => ih (h.2 next hnext)⟩

theorem run_append {state state' : σ} {inputs inputs' : List ι} :
    run step state (inputs ++ inputs') = some state' ↔
      ∃ next, run step state inputs = some next ∧ run step next inputs' = some state' := by
  induction inputs generalizing state with
  | nil =>
      constructor
      · exact fun h => ⟨state, rfl, h⟩
      · rintro ⟨next, hnext, h⟩
        cases hnext
        exact h
  | cons input rest ih =>
      simp only [List.cons_append, run, Option.bind_eq_some_iff, ih]
      constructor
      · rintro ⟨next, hnext, last, hlast, h⟩
        exact ⟨last, ⟨next, hnext, hlast⟩, h⟩
      · rintro ⟨last, ⟨next, hnext, hlast⟩, h⟩
        exact ⟨next, hnext, last, hlast, h⟩

/-- The condition holds at the last step of a run. -/
theorem AllSteps.last {condition : σ → ι → Prop} {state state' : σ} {inputs : List ι} {input : ι}
    (h : AllSteps step condition state (inputs ++ [input])) (hrun : run step state inputs = some state') :
    condition state' input := by
  induction inputs generalizing state with
  | nil =>
      cases hrun
      exact h.1
  | cons first rest ih =>
      obtain ⟨next, hnext, hrest⟩ := Option.bind_eq_some_iff.mp hrun
      exact ih (h.2 next hnext) hrest

/-- The condition holds at all steps exactly if it holds at the next input after every part of the run. -/
theorem allSteps_iff_forall_steps {condition : σ → ι → Prop} {state : σ} {inputs : List ι} :
    AllSteps step condition state inputs ↔
      ∀ before input, before ++ [input] <+: inputs → ∀ state' ∈ run step state before,
        condition state' input := by
  constructor
  · rintro hall before input ⟨rest, rfl⟩ state' hstate'
    exact hall.of_append.last hstate'
  · intro hsteps
    induction inputs generalizing state with
    | nil => trivial
    | cons input rest ih =>
        refine ⟨hsteps [] input ?_ state rfl, fun next hnext => ih fun before last hbefore state' hstate' => ?_⟩
        · exact List.cons_prefix_cons.mpr ⟨rfl, List.nil_prefix⟩
        · refine hsteps (input :: before) last (List.cons_prefix_cons.mpr ⟨rfl, hbefore⟩) state' ?_
          exact Option.mem_def.mpr (Option.bind_eq_some_iff.mpr ⟨next, hnext, hstate'⟩)

theorem AllSteps.congr {condition condition' : σ → ι → Prop}
    (h : ∀ state input, (step state input).isSome = true → (condition state input ↔ condition' state input))
    {state : σ} {inputs : List ι} (hrun : (run step state inputs).isSome = true) :
    AllSteps step condition state inputs ↔ AllSteps step condition' state inputs := by
  induction inputs generalizing state with
  | nil => exact Iff.rfl
  | cons input rest ih =>
      obtain ⟨final, hrun⟩ := Option.isSome_iff_exists.mp hrun
      obtain ⟨next, hnext, hrest⟩ := Option.bind_eq_some_iff.mp hrun
      refine and_congr (h state input (Option.isSome_of_mem hnext)) (forall₂_congr fun next' hnext' => ?_)
      rw [hnext] at hnext'
      cases hnext'
      exact ih (Option.isSome_of_mem hrest)

theorem allSteps_true {condition : σ → ι → Prop} (h : ∀ state input, condition state input) (state : σ)
    (inputs : List ι) : AllSteps step condition state inputs := by
  induction inputs generalizing state with
  | nil => trivial
  | cons input rest ih => exact ⟨h state input, fun next _ => ih next⟩

/-- What every step with the condition keeps holds after a run with the condition. -/
theorem invariant_run {invariant : σ → Prop} {condition : σ → ι → Prop}
    (hstep : ∀ state input, invariant state → condition state input →
      ∀ state' ∈ step state input, invariant state')
    {state state' : σ} {inputs : List ι} (h : invariant state)
    (hall : AllSteps step condition state inputs) (hrun : run step state inputs = some state') :
    invariant state' := by
  induction inputs generalizing state with
  | nil =>
      cases hrun
      exact h
  | cons input rest ih =>
      obtain ⟨next, hnext, hrest⟩ := Option.bind_eq_some_iff.mp hrun
      exact ih (hstep state input h hall.1 next hnext) (hall.2 next hnext) hrest

/-- What relates the inputs so far to the state, and is kept by one more step, holds after a run. -/
theorem history_run {history : List ι → σ → Prop}
    (hstep : ∀ before state input, history before state →
      ∀ state' ∈ step state input, history (before ++ [input]) state')
    {before inputs : List ι} {state state' : σ} (h : history before state)
    (hrun : run step state inputs = some state') : history (before ++ inputs) state' := by
  induction inputs generalizing before state with
  | nil =>
      cases hrun
      rw [List.append_nil]
      exact h
  | cons input rest ih =>
      obtain ⟨next, hnext, hrest⟩ := Option.bind_eq_some_iff.mp hrun
      have hrestHistory := ih (hstep before state input h next hnext) hrest
      rw [List.append_assoc] at hrestHistory
      exact hrestHistory

/-- With an invariant every step of a run that is not refused has what the condition implies there. -/
theorem AllSteps.imp {invariant : σ → Prop} {condition condition' : σ → ι → Prop}
    (hstep : ∀ state input, invariant state → condition state input →
      ∀ state' ∈ step state input, invariant state')
    (himp : ∀ state input, invariant state → condition state input →
      (step state input).isSome = true → condition' state input)
    {state : σ} {inputs : List ι} (h : invariant state) (hall : AllSteps step condition state inputs)
    (hrun : (run step state inputs).isSome = true) : AllSteps step condition' state inputs := by
  induction inputs generalizing state with
  | nil => trivial
  | cons input rest ih =>
      obtain ⟨final, hrun⟩ := Option.isSome_iff_exists.mp hrun
      obtain ⟨next, hnext, hrest⟩ := Option.bind_eq_some_iff.mp hrun
      refine ⟨himp state input h hall.1 (Option.isSome_of_mem hnext), fun next' hnext' => ?_⟩
      rw [hnext] at hnext'
      cases hnext'
      exact ih (hstep state input h hall.1 next hnext) (hall.2 next hnext) (Option.isSome_of_mem hrest)

/-- Where steps with the condition keep an invariant that implies a law, and the law fails after any other
step, the law holds in all states of a run exactly under the condition on its steps. -/
theorem allSteps_iff_forall_law {invariant law : σ → Prop} {condition : σ → ι → Prop}
    (hstep : ∀ state input, invariant state → condition state input →
      ∀ state' ∈ step state input, invariant state')
    (hlaw : ∀ state, invariant state → law state)
    (hcondition : ∀ state input, invariant state → ∀ state' ∈ step state input, law state' →
      condition state input)
    {state : σ} {inputs : List ι} (h : invariant state)
    (hrun : (run step state inputs).isSome = true) :
    AllSteps step condition state inputs ↔
      ∀ before, before <+: inputs → ∀ state' ∈ run step state before, law state' := by
  induction inputs generalizing state with
  | nil =>
      refine iff_of_true trivial fun before hbefore state' hstate' => ?_
      rw [List.prefix_nil.mp hbefore] at hstate'
      cases hstate'
      exact hlaw state h
  | cons input rest ih =>
      obtain ⟨final, hrun⟩ := Option.isSome_iff_exists.mp hrun
      obtain ⟨next, hnext, hrest⟩ := Option.bind_eq_some_iff.mp hrun
      have hnextRun : ∀ before, run step state (input :: before) = run step next before :=
        fun before => (congrArg (Option.bind · _) hnext).trans (Option.bind_some _ _)
      constructor
      · intro hall before hbefore state' hstate'
        cases before with
        | nil =>
            cases hstate'
            exact hlaw state h
        | cons first before =>
            obtain ⟨rfl, hrestBefore⟩ := List.cons_prefix_cons.mp hbefore
            rw [hnextRun] at hstate'
            exact (ih (hstep state first h hall.1 next hnext) (Option.isSome_of_mem hrest)).mp
              (hall.2 next hnext) before hrestBefore state' hstate'
      · intro hstates
        have hnextLaw : law next := by
          refine hstates [input] (List.cons_prefix_cons.mpr ⟨rfl, List.nil_prefix⟩) next ?_
          rw [hnextRun]
          rfl
        have hinput := hcondition state input h next hnext hnextLaw
        refine ⟨hinput, fun next' hnext' => ?_⟩
        rw [hnext] at hnext'
        cases hnext'
        refine (ih (hstep state input h hinput next hnext) (Option.isSome_of_mem hrest)).mpr ?_
        intro before hbefore state' hstate'
        exact hstates (input :: before) (List.cons_prefix_cons.mpr ⟨rfl, hbefore⟩) state'
          ((hnextRun before).symm ▸ hstate')

/-- Where a step keeps a law exactly under the condition, the law holds in all states of a run exactly
under the condition on its steps. -/
theorem allSteps_iff_forall_states {invariant law : σ → Prop} {condition : σ → ι → Prop}
    (hstep : ∀ state input, invariant state → ∀ state' ∈ step state input, invariant state')
    (hlaw : ∀ state input, invariant state → law state →
      ∀ state' ∈ step state input, condition state input ↔ law state')
    {state : σ} {inputs : List ι} (h : invariant state) (hstate : law state)
    (hrun : (run step state inputs).isSome = true) :
    AllSteps step condition state inputs ↔
      ∀ before, before <+: inputs → ∀ state' ∈ run step state before, law state' := by
  have hboth : ∀ state input, (invariant state ∧ law state) → condition state input →
      ∀ state' ∈ step state input, invariant state' ∧ law state' := fun state input h hinput state' hstate' =>
    ⟨hstep state input h.1 state' hstate', (hlaw state input h.1 h.2 state' hstate').mp hinput⟩
  have hcondition : ∀ state input, (invariant state ∧ law state) → ∀ state' ∈ step state input, law state' →
      condition state input := fun state input h state' hstate' =>
    (hlaw state input h.1 h.2 state' hstate').mpr
  exact allSteps_iff_forall_law hboth (fun _ => And.right) hcondition ⟨h, hstate⟩ hrun

end StepRuns
