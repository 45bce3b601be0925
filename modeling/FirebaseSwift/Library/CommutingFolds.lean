import Mathlib.Data.List.Pairwise

/-! Folds of operations that commute in pairs, on states with an invariant. They give the same in every order. -/

namespace CommutingFolds

variable {σ ι : Type} {f : σ → ι → σ} {invariant : σ → Prop} {related : ι → ι → Prop}

/-- Where related inputs commute, the order of pairwise related inputs does not count. -/
theorem foldl_perm (hsymm : ∀ {a b}, related a b → related b a)
    (hcomm : ∀ {a b state}, related a b → invariant state → f (f state a) b = f (f state b) a)
    {inputs inputs' : List ι} (hperm : inputs.Perm inputs') (hrelated : inputs.Pairwise related)
    (hkeeps : ∀ state, invariant state → ∀ input ∈ inputs, invariant (f state input)) {state : σ} (h : invariant state) :
    inputs.foldl f state = inputs'.foldl f state := by
  induction hperm generalizing state with
  | nil => rfl
  | cons input _ ih =>
      refine ih (List.pairwise_cons.mp hrelated).2 (fun state h input' hinput' => ?_)
        (hkeeps state h input List.mem_cons_self)
      exact hkeeps state h input' (List.mem_cons_of_mem input hinput')
  | swap a b rest =>
      have hba : related b a := (List.pairwise_cons.mp hrelated).1 a List.mem_cons_self
      rw [List.foldl_cons, List.foldl_cons, List.foldl_cons, List.foldl_cons, hcomm hba h]
  | trans hfirst _ ih ih' =>
      have hmiddle := (hfirst.pairwise_iff hsymm).mp hrelated
      refine (ih hrelated hkeeps h).trans (ih' hmiddle (fun state h input hinput => ?_) h)
      exact hkeeps state h input (hfirst.mem_iff.mpr hinput)

end CommutingFolds
