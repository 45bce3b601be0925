import Mathlib.Data.List.Nodup
import Mathlib.Data.List.Range

/-! Callers that wait to be resumed. A caller joins those who wait or is resumed at once, and some of those
who wait are resumed together. However this goes, nobody is resumed twice, and nobody gets lost. Callers are
numbered in the order of their calls. -/

/-- How many callers there were, who waits, and what the others were resumed with. -/
structure Waiters (α : Type) where
  called : Nat := 0
  waiting : List Nat := []
  resumed : List (Nat × α) := []
deriving DecidableEq

namespace Waiters

variable {α : Type} {waiters : Waiters α}

/-- The next caller waits. -/
def join (waiters : Waiters α) : Waiters α :=
  { waiters with called := waiters.called + 1, waiting := waiters.waiting ++ [waiters.called] }

/-- The next caller is resumed at once. -/
def answer (waiters : Waiters α) (result : α) : Waiters α :=
  { waiters with called := waiters.called + 1, resumed := waiters.resumed ++ [(waiters.called, result)] }

/-- Resumes some of those who wait. -/
def release (waiters : Waiters α) (chosen : Nat → Bool) (result : α) : Waiters α :=
  { waiters with
    waiting := waiters.waiting.filter fun caller => !chosen caller
    resumed := waiters.resumed ++ (waiters.waiting.filter chosen).map fun caller => (caller, result) }

/-- Every caller waits or was resumed, once. -/
def Kept (waiters : Waiters α) : Prop :=
  (waiters.waiting ++ waiters.resumed.map Prod.fst).Perm (List.range waiters.called)

theorem kept_empty : ({} : Waiters α).Kept := List.Perm.refl []

theorem Kept.join (h : waiters.Kept) : waiters.join.Kept := by
  show ((waiters.waiting ++ [waiters.called]) ++ waiters.resumed.map Prod.fst).Perm (List.range (waiters.called + 1))
  rw [List.range_succ, List.append_assoc]
  calc waiters.waiting ++ ([waiters.called] ++ waiters.resumed.map Prod.fst)
      _ |>.Perm (waiters.waiting ++ (waiters.resumed.map Prod.fst ++ [waiters.called])) :=
        List.perm_append_comm.append_left _
      _ |>.Perm (List.range waiters.called ++ [waiters.called]) := by
        rw [← List.append_assoc]
        exact h.append_right _

theorem Kept.answer (h : waiters.Kept) (result : α) : (waiters.answer result).Kept := by
  show (waiters.waiting ++ (waiters.resumed ++ [(waiters.called, result)]).map Prod.fst).Perm
    (List.range (waiters.called + 1))
  rw [List.range_succ, List.map_append, ← List.append_assoc]
  exact h.append_right _

theorem Kept.release (h : waiters.Kept) (chosen : Nat → Bool) (result : α) : (waiters.release chosen result).Kept := by
  have hmap : ((waiters.waiting.filter chosen).map fun caller => (caller, result)).map Prod.fst =
      waiters.waiting.filter chosen := by
    rw [List.map_map]
    exact List.map_id _
  show (waiters.waiting.filter (fun caller => !chosen caller) ++ (waiters.resumed ++
    (waiters.waiting.filter chosen).map fun caller => (caller, result)).map Prod.fst).Perm _
  rw [List.map_append, hmap]
  refine List.Perm.trans ?_ h
  rw [← List.append_assoc]
  refine List.perm_append_comm.trans ?_
  rw [← List.append_assoc]
  exact (List.filter_append_perm chosen waiters.waiting).append_right _

/-- Nobody is resumed twice. -/
theorem Kept.nodup_resumed (h : waiters.Kept) : (waiters.resumed.map Prod.fst).Nodup :=
  (h.nodup_iff.mpr List.nodup_range).of_append_right

/-- Who does not wait was resumed. -/
theorem Kept.resumed_of_not_waiting (h : waiters.Kept) {caller : Nat} (hcalled : caller < waiters.called)
    (hnot : caller ∉ waiters.waiting) : caller ∈ waiters.resumed.map Prod.fst :=
  (List.mem_append.mp (h.mem_iff.mpr (List.mem_range.mpr hcalled))).resolve_left hnot

theorem mem_release_waiting {chosen : Nat → Bool} {result : α} {caller : Nat} :
    caller ∈ (waiters.release chosen result).waiting ↔ caller ∈ waiters.waiting ∧ chosen caller = false := by
  rw [release, List.mem_filter, Bool.not_eq_true']

theorem mem_release_resumed {chosen : Nat → Bool} {result : α} {entry : Nat × α} :
    entry ∈ (waiters.release chosen result).resumed ↔ entry ∈ waiters.resumed ∨
      (entry.1 ∈ waiters.waiting ∧ chosen entry.1) ∧ entry.2 = result := by
  rw [release, List.mem_append, List.mem_map]
  refine or_congr_right ⟨?_, fun ⟨hmem, heq⟩ => ⟨entry.1, List.mem_filter.mpr hmem, by rw [← heq]⟩⟩
  rintro ⟨caller, hcaller, rfl⟩
  exact ⟨List.mem_filter.mp hcaller, rfl⟩

end Waiters
