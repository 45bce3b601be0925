import FirebaseSwift.Library.ExceptLoops
import Mathlib.Data.List.Chain
import Mathlib.Data.List.Perm.Basic
import Mathlib.Order.Basic
import Mathlib.Order.Lattice

/-! Sorting with a comparison that may stop. Each element is compared with the sorted ones from the last to the
first, until it does not precede one. Where the comparison goes by a linear order, there is a result, and it is
sorted. -/

namespace StoppingSort

open ExceptLoops

variable {ε α β : Type}

section Definitions

variable (precedes : α → α → Except ε Bool)

/-- The sorted elements come in the reverse order. -/
def insertBack (x : α) : List α → Except ε (List α)
  | [] => .ok [x]
  | y :: rest => do
      if ← precedes x y then
        let inserted ← insertBack x rest
        .ok (y :: inserted)
      else .ok (x :: y :: rest)

def sortBy (list : List α) : Except ε (List α) := do
  let sorted ← list.foldlM (fun sorted x => insertBack precedes x sorted) []
  .ok sorted.reverse

end Definitions

theorem sortBy_pair_of_error {precedes : α → α → Except ε Bool} {x y : α} {e : ε}
    (h : precedes y x = .error e) : sortBy precedes [x, y] = .error e := by
  have hinsert : insertBack precedes y [x] = .error e := by
    rw [insertBack, h]
    rfl
  show ((insertBack precedes y [x] >>= fun sorted => .ok sorted) >>= fun sorted => .ok sorted.reverse) = _
  rw [hinsert]
  rfl

/-- What is sorted stays in its order. -/
theorem sortBy_of_isChain {precedes : α → α → Except ε Bool} {list : List α}
    (h : list.IsChain fun x y => precedes y x = .ok false) : sortBy precedes list = .ok list := by
  have hloop : ∀ (rest sorted : List α), (sorted.reverse ++ rest).IsChain (fun x y => precedes y x = .ok false) →
      rest.foldlM (fun sorted x => insertBack precedes x sorted) sorted = .ok (rest.reverse ++ sorted) := by
    intro rest
    induction rest with
    | nil => exact fun sorted _ => rfl
    | cons x rest ih =>
        intro sorted hchain
        have hinsert : insertBack precedes x sorted = .ok (x :: sorted) := by
          cases sorted with
          | nil => rfl
          | cons y sorted =>
              rw [List.reverse_cons, List.append_assoc, List.singleton_append] at hchain
              have hx := (List.isChain_cons_cons.mp (List.isChain_append.mp hchain).2.1).1
              rw [insertBack, hx]
              rfl
        have hnext : ((x :: sorted).reverse ++ rest).IsChain fun x y => precedes y x = .ok false := by
          rw [List.reverse_cons, List.append_assoc]
          exact hchain
        rw [List.foldlM_cons, hinsert, List.reverse_cons, List.append_assoc]
        exact ih (x :: sorted) hnext
  rw [sortBy, hloop list [] h, List.append_nil]
  show Except.ok list.reverse.reverse = _
  rw [List.reverse_reverse]

variable [LinearOrder β] {precedes : α → α → Except ε Bool} {rank : α → β}

theorem insertBack_sorted {x : α} {list : List α}
    (hprecedes : ∀ y ∈ list, ∃ result, precedes x y = .ok result ∧ (result = true ↔ rank x < rank y))
    (hsorted : list.Pairwise fun y z => rank z ≤ rank y) :
    ∃ inserted, insertBack precedes x list = .ok inserted ∧ inserted.Perm (x :: list) ∧
      inserted.Pairwise fun y z => rank z ≤ rank y := by
  induction list with
  | nil => exact ⟨[x], rfl, List.Perm.refl _, List.pairwise_singleton _ _⟩
  | cons y rest ih =>
      obtain ⟨hy, hrest⟩ := List.forall_mem_cons.mp hprecedes
      obtain ⟨hless, hsorted⟩ := List.pairwise_cons.mp hsorted
      obtain ⟨result, hresult, hless_iff⟩ := hy
      rw [insertBack, hresult]
      by_cases hlt : rank x < rank y
      · obtain ⟨inserted, hinserted, hperm, hpairwise⟩ := ih hrest hsorted
        refine ⟨y :: inserted, ?_, (hperm.cons y).trans (List.Perm.swap x y rest), ?_⟩
        · show (if result = true then _ else _) = _
          rw [if_pos (hless_iff.mpr hlt), hinserted]
          rfl
        · refine List.pairwise_cons.mpr ⟨fun z hz => ?_, hpairwise⟩
          rcases List.mem_cons.mp (hperm.mem_iff.mp hz) with rfl | hz
          · exact hlt.le
          · exact hless z hz
      · refine ⟨x :: y :: rest, ?_, List.Perm.refl _, ?_⟩
        · show (if result = true then _ else _) = _
          rw [if_neg fun h => hlt (hless_iff.mp h)]
        · refine List.pairwise_cons.mpr ⟨fun z hz => ?_, List.pairwise_cons.mpr ⟨hless, hsorted⟩⟩
          rcases List.mem_cons.mp hz with rfl | hz
          · exact not_lt.mp hlt
          · exact (hless z hz).trans (not_lt.mp hlt)

theorem sortBy_sorted {list : List α} (hprecedes : ∀ x ∈ list, ∀ y ∈ list,
      ∃ result, precedes x y = .ok result ∧ (result = true ↔ rank x < rank y)) :
    ∃ sorted, sortBy precedes list = .ok sorted ∧ sorted.Perm list ∧
      sorted.Pairwise fun x y => rank x ≤ rank y := by
  -- what is sorted and what is left are the list
  have hloop : ∀ rest sorted : List α, (sorted ++ rest).Perm list →
      (sorted.Pairwise fun y z => rank z ≤ rank y) → ∃ result,
        rest.foldlM (fun sorted x => insertBack precedes x sorted) sorted = .ok result ∧
          result.Perm list ∧ result.Pairwise fun y z => rank z ≤ rank y := by
    intro rest
    induction rest with
    | nil =>
        intro sorted hperm hsorted
        rw [List.append_nil] at hperm
        exact ⟨sorted, rfl, hperm, hsorted⟩
    | cons x rest ih =>
        intro sorted hperm hsorted
        have hx : x ∈ list := hperm.mem_iff.mp (List.mem_append_right _ List.mem_cons_self)
        obtain ⟨inserted, hinserted, hinsertedPerm, hinsertedSorted⟩ := insertBack_sorted
          (fun y hy => hprecedes x hx y (hperm.mem_iff.mp (List.mem_append_left _ hy))) hsorted
        have hnext : (inserted ++ rest).Perm list :=
          ((hinsertedPerm.append_right rest).trans List.perm_middle.symm).trans hperm
        obtain ⟨result, hresult, hrest⟩ := ih inserted hnext hinsertedSorted
        refine ⟨result, ?_, hrest⟩
        rw [List.foldlM_cons, hinserted]
        exact hresult
  obtain ⟨result, hresult, hperm, hsorted⟩ := hloop list [] (List.Perm.refl _) List.Pairwise.nil
  refine ⟨result.reverse, ?_, (List.reverse_perm _).trans hperm, List.pairwise_reverse.mpr hsorted⟩
  rw [sortBy, hresult]
  rfl

end StoppingSort
