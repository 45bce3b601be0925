import Mathlib.Data.List.Nodup
import Mathlib.Logic.Function.Basic

/-! Logs of acquired and released resources. A log is well behaved if nothing is acquired that is held
already, and nothing is released that is not held under the same tag; replaying it then says what is held
in the end. -/

namespace AcquireLog

variable {R T : Type}

inductive Event (R T : Type) where
  | acquire (resource : R) (tag : T)
  | release (resource : R) (tag : T)

variable [DecidableEq R] [DecidableEq T]

/-- The tags of the held resources after an event. There is no result if the event is not allowed. -/
def Event.apply (held : R → Option T) : Event R T → Option (R → Option T)
  | acquire resource tag =>
      if held resource = none then some (Function.update held resource (some tag)) else none
  | release resource tag =>
      if held resource = some tag then some (Function.update held resource none) else none

def replay (held : R → Option T) (log : List (Event R T)) : Option (R → Option T) :=
  log.foldlM Event.apply held

@[simp] theorem replay_nil (held : R → Option T) : replay held [] = some held := rfl

@[simp] theorem replay_cons (held : R → Option T) (event : Event R T) (log : List (Event R T)) :
    replay held (event :: log) = (event.apply held).bind fun held => replay held log := by
  rw [replay, List.foldlM_cons]
  rfl

theorem replay_append (held : R → Option T) (log log' : List (Event R T)) :
    replay held (log ++ log') = (replay held log).bind fun held => replay held log' := by
  rw [replay, List.foldlM_append]
  rfl

variable {held : R → Option T} {resources : List R}

theorem replay_append_of_eq {held' : R → Option T} {log log' : List (Event R T)}
    (h : replay held log = some held') : replay held (log ++ log') = replay held' log' := by
  rw [replay_append, h]
  rfl

/-- Distinct resources that are not held can be acquired one after the other. -/
theorem replay_acquires (tag : R → T) (hnodup : resources.Nodup)
    (hfree : ∀ resource ∈ resources, held resource = none) :
    replay held (resources.map fun resource => .acquire resource (tag resource)) =
      some fun resource => if resource ∈ resources then some (tag resource) else held resource := by
  induction resources generalizing held with
  | nil => simp
  | cons first rest ih =>
      obtain ⟨hfirst, hrest⟩ := List.nodup_cons.mp hnodup
      obtain ⟨hfirstFree, hrestFree⟩ := List.forall_mem_cons.mp hfree
      have hfree' : ∀ resource ∈ rest,
          Function.update held first (some (tag first)) resource = none := fun resource hmem => by
        have hne : resource ≠ first := fun heq => hfirst (heq ▸ hmem)
        rw [Function.update_of_ne hne, hrestFree resource hmem]
      rw [List.map_cons, replay_cons, Event.apply, if_pos hfirstFree, Option.bind_some, ih hrest hfree']
      congr 1
      funext resource
      by_cases hresource : resource = first
      · subst hresource
        simp
      · simp [hresource]

/-- Distinct resources that are held can be released one after the other. -/
theorem replay_releases (tag : R → T) (hnodup : resources.Nodup)
    (hheld : ∀ resource ∈ resources, held resource = some (tag resource)) :
    replay held (resources.map fun resource => .release resource (tag resource)) =
      some fun resource => if resource ∈ resources then none else held resource := by
  induction resources generalizing held with
  | nil => simp
  | cons first rest ih =>
      obtain ⟨hfirst, hrest⟩ := List.nodup_cons.mp hnodup
      obtain ⟨hfirstHeld, hrestHeld⟩ := List.forall_mem_cons.mp hheld
      have hheld' : ∀ resource ∈ rest,
          Function.update held first none resource = some (tag resource) := fun resource hmem => by
        have hne : resource ≠ first := fun heq => hfirst (heq ▸ hmem)
        rw [Function.update_of_ne hne, hrestHeld resource hmem]
      rw [List.map_cons, replay_cons, Event.apply, if_pos hfirstHeld, Option.bind_some, ih hrest hheld']
      congr 1
      funext resource
      by_cases hresource : resource = first
      · subst hresource
        simp
      · simp [hresource]

end AcquireLog
