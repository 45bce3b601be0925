import Mathlib.Logic.Basic

/-! Results of computations that may fail. A sequence of two has a result exactly when both have one, and
a loop keeps an invariant that may speak about the inputs that are still to come. -/

namespace ExceptLoops

variable {ε α β : Type}
variable {x : Except ε α} {f : α → Except ε β} {result : β} {inputs : List α}

theorem bind_eq_ok : (x >>= f) = .ok result ↔ ∃ value, x = .ok value ∧ f value = .ok result := by
  cases x with
  | error e => exact iff_of_false (by rintro ⟨⟩) (by rintro ⟨_, h, _⟩; cases h)
  | ok value =>
      constructor
      · intro h
        exact ⟨value, rfl, h⟩
      · rintro ⟨_, h, hf⟩
        cases h
        exact hf

theorem map_eq_ok {f : α → β} : x.map f = .ok result ↔ ∃ value, x = .ok value ∧ f value = result := by
  cases x with
  | error e => exact iff_of_false (by rintro ⟨⟩) (by rintro ⟨_, h, _⟩; cases h)
  | ok value => simp [Except.map]

/-- A sequence does not fail in a way that neither part fails in. -/
theorem bind_ne_error {e : ε} (hx : x ≠ .error e) (hf : ∀ value, f value ≠ .error e) : (x >>= f) ≠ .error e := by
  cases x with
  | error e' =>
      intro h
      cases h
      exact hx rfl
  | ok value => exact hf value

theorem mapM_ne_error {e : ε} (hf : ∀ input, f input ≠ .error e) (inputs : List α) : inputs.mapM f ≠ .error e := by
  induction inputs with
  | nil => nofun
  | cons input rest ih =>
      rw [List.mapM_cons]
      exact bind_ne_error (hf input) fun _ => bind_ne_error ih nofun

theorem toOption_eq_some {result : α} : x.toOption = some result ↔ x = .ok result := by
  cases x <;> simp [Except.toOption]

variable {step : β → α → Except ε β}

/-- What every iteration keeps, with one input less to come, holds at the end of the loop. -/
theorem foldlM_invariant (invariant : List α → β → Prop)
    (hstep : ∀ input rest state state', invariant (input :: rest) state → step state input = .ok state' →
      invariant rest state') {state : β} (h : invariant inputs state)
    (hloop : inputs.foldlM step state = .ok result) : invariant [] result := by
  induction inputs generalizing state with
  | nil =>
      cases hloop
      exact h
  | cons input rest ih =>
      rw [List.foldlM_cons] at hloop
      obtain ⟨next, hnext, hrest⟩ := bind_eq_ok.mp hloop
      exact ih (hstep input rest state next h hnext) hrest

/-- A loop relates its start to its end by what its iterations do. -/
theorem foldlM_relation (relation : β → β → Prop) (hrefl : ∀ state, relation state state)
    (htrans : ∀ {a b c}, relation a b → relation b c → relation a c)
    (hstep : ∀ state input state', step state input = .ok state' → relation state state') {state : β}
    (hloop : inputs.foldlM step state = .ok result) : relation state result :=
  foldlM_invariant (fun _ => relation state)
    (fun input _ before after hbefore hnext => htrans hbefore (hstep before input after hnext))
    (hrefl state) hloop

/-- The invariant of a loop with a state beside its value. -/
theorem foldlM_stateT_invariant {σ : Type} {step : β → α → StateT σ (Except ε) β} (invariant : List α → β → σ → Prop)
    (hstep : ∀ input rest value state value' state', invariant (input :: rest) value state →
      (step value input).run state = .ok (value', state') → invariant rest value' state') {value : β}
    {state final : σ} (h : invariant inputs value state)
    (hloop : (inputs.foldlM step value).run state = .ok (result, final)) : invariant [] result final := by
  induction inputs generalizing value state with
  | nil =>
      cases hloop
      exact h
  | cons input rest ih =>
      rw [List.foldlM_cons, StateT.run_bind] at hloop
      obtain ⟨⟨next, middle⟩, hnext, hrest⟩ := bind_eq_ok.mp hloop
      exact ih (hstep input rest value state next middle h hnext) hrest

end ExceptLoops
