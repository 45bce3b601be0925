import FirebaseSwift.Database.HashText
import FirebaseSwift.Database.RangeMerge
import Mathlib.Algebra.Order.BigOperators.Group.List

/-! The leaves of a node in the order of their paths, with the priority of children among the children, and
the leaves that an enumeration visits when it leaves out priorities. -/

namespace FirebaseSwift.Database

open SortedDictionary

/-- The leaves of children at their paths -/
def below {K L : Type} (blocks : List (K × List (FPath K × L))) : List (FPath K × L) :=
  blocks.flatMap fun block => block.2.map fun leaf => (block.1 :: leaf.1, leaf.2)

section Below

variable {K L : Type}

theorem below_cons (key : K) (leaves : List (FPath K × L)) (blocks : List (K × List (FPath K × L))) :
    below ((key, leaves) :: blocks) = (leaves.map fun leaf => (key :: leaf.1, leaf.2)) ++ below blocks := rfl

theorem length_below_cons (key : K) (leaves : List (FPath K × L)) (blocks : List (K × List (FPath K × L))) :
    (below ((key, leaves) :: blocks)).length = leaves.length + (below blocks).length := by
  rw [below_cons, List.length_append, List.length_map]

end Below

namespace NodeData

variable {K V : Type}

/-- Induction over the children and the priority -/
theorem children_induction {motive : NodeData K V → Prop} (hempty : motive .empty)
    (hleaf : ∀ value priority, motive (.leaf value priority))
    (hchildren : ∀ dict priority, (∀ e ∈ dict, motive e.2) → motive priority →
      motive (.children dict priority)) (node : NodeData K V) : motive node := by
  induction hsize : sizeOf node using Nat.strong_induction_on generalizing node with
  | _ size ih =>
      cases node with
      | empty => exact hempty
      | leaf value priority => exact hleaf value priority
      | children dict priority =>
          rw [NodeData.children.sizeOf_spec] at hsize
          refine hchildren dict priority (fun e he => ?_) ?_
          · obtain ⟨key, child⟩ := e
            have hlt := List.sizeOf_lt_of_mem he
            rw [Prod.mk.sizeOf_spec] at hlt
            exact ih _ (by omega) child rfl
          · exact ih _ (by omega) priority rfl

variable [DatabaseKey K]

mutual

/-- The leaves in order. Where `skips` holds the priority is left out. -/
def leavesUnless (skips : List (K × NodeData K V) → Bool) : NodeData K V → List (FPath K × NodeData K V)
  | .empty => []
  | .leaf value priority => [([], .leaf value priority)]
  | .children dict priority =>
      below (if priority.isEmpty || skips dict then childLeaves skips dict
        else set DatabaseKey.compareKey DatabaseKey.priority (leavesUnless skips priority)
          (childLeaves skips dict))

def childLeaves (skips : List (K × NodeData K V) → Bool) :
    List (K × NodeData K V) → List (K × List (FPath K × NodeData K V))
  | [] => []
  | (key, child) :: rest => (key, leavesUnless skips child) :: childLeaves skips rest

end

/-- All leaves. The non-empty priority of a children node is at its key. -/
def leavesInOrder (node : NodeData K V) : List (FPath K × NodeData K V) := node.leavesUnless fun _ => false

/-- No child is after the key of the priority. -/
def endsBeforePriority (dict : List (K × NodeData K V)) : Bool :=
  dict.all fun e => compareKeys e.1 DatabaseKey.priority ≠ .gt

mutual

/-- After the priority of a children node there is a child. -/
def prioritiesFollowed : NodeData K V → Bool
  | .empty => true
  | .leaf _ _ => true
  | .children dict priority =>
      (priority.isEmpty || !endsBeforePriority dict) && prioritiesFollowed priority &&
        childPrioritiesFollowed dict

def childPrioritiesFollowed : List (K × NodeData K V) → Bool
  | [] => true
  | (_, child) :: rest => prioritiesFollowed child && childPrioritiesFollowed rest

end

def childrenAndPriority (skips : List (K × NodeData K V) → Bool) (dict : List (K × NodeData K V))
    (priority : NodeData K V) : List (K × NodeData K V) :=
  if priority.isEmpty || skips dict then dict
  else set DatabaseKey.compareKey DatabaseKey.priority priority dict

theorem childLeaves_eq (skips : List (K × NodeData K V) → Bool) (dict : List (K × NodeData K V)) :
    childLeaves skips dict = dict.map (Prod.map id (leavesUnless skips)) := by
  induction dict with
  | nil => rw [childLeaves, List.map_nil]
  | cons e dict ih =>
      obtain ⟨key, child⟩ := e
      rw [childLeaves, ih, List.map_cons, Prod.map_apply, id_eq]

theorem leavesUnless_children (skips : List (K × NodeData K V) → Bool) (dict : List (K × NodeData K V))
    (priority : NodeData K V) : leavesUnless skips (.children dict priority) =
      below ((childrenAndPriority skips dict priority).map (Prod.map id (leavesUnless skips))) := by
  rw [leavesUnless, childLeaves_eq, childrenAndPriority]
  by_cases hskips : (priority.isEmpty || skips dict) = true
  · rw [if_pos hskips, if_pos hskips]
  · rw [if_neg hskips, if_neg hskips, set_map]

variable {skips : List (K × NodeData K V) → Bool} {dict : List (K × NodeData K V)} {priority : NodeData K V}
variable {e : K × NodeData K V} {node : NodeData K V} {leaf : FPath K × NodeData K V}

theorem mem_childrenAndPriority (h : e ∈ childrenAndPriority skips dict priority) :
    (e = (DatabaseKey.priority, priority) ∧ priority.isEmpty = false) ∨ e ∈ dict := by
  unfold childrenAndPriority at h
  split_ifs at h with hskips
  · exact Or.inr h
  · rw [Bool.or_eq_true, not_or, Bool.not_eq_true] at hskips
    exact (mem_set _ h).imp_left fun he => ⟨he, hskips.1⟩

/-- What is enumerated of a canonical node is canonical and not empty. -/
theorem wellFormed_of_mem (hwf : (NodeData.children dict priority).wellFormed = true)
    (h : e ∈ childrenAndPriority skips dict priority) : e.2.isEmpty = false ∧ e.2.wellFormed = true := by
  obtain ⟨-, -, hall, hpriority⟩ := wellFormed_children_iff.mp hwf
  rcases mem_childrenAndPriority h with ⟨rfl, hne⟩ | hmem
  · exact ⟨hne, hpriority⟩
  · exact (hall e hmem).2

theorem childrenAndPriority_ne_nil (h : dict ≠ []) : childrenAndPriority skips dict priority ≠ [] := by
  unfold childrenAndPriority
  split_ifs
  · exact h
  · exact set_ne_nil _ _ _ _

theorem sorted_childrenAndPriority (h : Sorted DatabaseKey.compareKey dict) :
    Sorted DatabaseKey.compareKey (childrenAndPriority skips dict priority) := by
  unfold childrenAndPriority
  split_ifs
  · exact h
  · exact h.set _ _ _

theorem eq_empty_of_isEmpty (hwf : node.wellFormed = true) (h : node.isEmpty = true) : node = .empty := by
  cases node with
  | empty => rfl
  | leaf value priority => cases h
  | children dict priority =>
      exact absurd (List.isEmpty_iff.mp h) (wellFormed_children_iff.mp hwf).1

theorem leavesUnless_ne_nil (skips : List (K × NodeData K V) → Bool) (hwf : node.wellFormed = true)
    (hne : node.isEmpty = false) : leavesUnless skips node ≠ [] := by
  induction node using children_induction with
  | hempty => cases hne
  | hleaf value priority =>
      rw [leavesUnless]
      exact List.cons_ne_nil _ _
  | hchildren dict priority ih ihPriority =>
      obtain ⟨hdict, -, hall, -⟩ := wellFormed_children_iff.mp hwf
      have hentries : childrenAndPriority skips dict priority ≠ [] := childrenAndPriority_ne_nil hdict
      obtain ⟨e, he⟩ := List.exists_mem_of_ne_nil _ hentries
      obtain ⟨hchild, hchildWf⟩ := wellFormed_of_mem hwf he
      have hleaves : leavesUnless skips e.2 ≠ [] := by
        rcases mem_childrenAndPriority he with ⟨rfl, -⟩ | hmem
        · exact ihPriority hchildWf hchild
        · exact ih e hmem hchildWf hchild
      rw [leavesUnless_children]
      intro hnil
      have hblock := List.flatMap_eq_nil_iff.mp hnil _ (List.mem_map_of_mem he)
      exact hleaves (List.map_eq_nil_iff.mp hblock)

theorem exists_leaf_of_mem (hwf : node.wellFormed = true) (h : leaf ∈ leavesUnless skips node) :
    ∃ value priority, leaf.2 = .leaf value priority := by
  induction node using children_induction generalizing leaf with
  | hempty =>
      rw [leavesUnless] at h
      cases h
  | hleaf value priority =>
      rw [leavesUnless, List.mem_singleton] at h
      exact ⟨value, priority, by rw [h]⟩
  | hchildren dict priority ih ihPriority =>
      rw [leavesUnless_children] at h
      obtain ⟨block, hblock, hleaf⟩ := List.mem_flatMap.mp h
      obtain ⟨e, he, rfl⟩ := List.mem_map.mp hblock
      obtain ⟨inner, hinner, rfl⟩ := List.mem_map.mp hleaf
      have hchild := (wellFormed_of_mem hwf he).2
      have hexists : ∃ value priority, inner.2 = .leaf value priority := by
        rcases mem_childrenAndPriority he with ⟨rfl, -⟩ | hmem
        · exact ihPriority hchild hinner
        · exact ih e hmem hchild hinner
      exact hexists

/-! ### The order of the paths -/

theorem compareKeys_eq_lt_of {key key' : K} (h : DatabaseKey.compareKey key key') : compareKeys key key' = .lt := by
  rw [compareKeys, if_pos h]

/-- The paths of the leaves are strictly ascending. -/
theorem leavesUnless_pairwise (skips : List (K × NodeData K V) → Bool) (hwf : node.wellFormed = true) :
    (leavesUnless skips node).Pairwise fun leaf leaf' => FPath.compare leaf.1 leaf'.1 = .lt := by
  induction node using children_induction with
  | hempty =>
      rw [leavesUnless]
      exact List.Pairwise.nil
  | hleaf value priority =>
      rw [leavesUnless]
      exact List.pairwise_singleton _ _
  | hchildren dict priority ih ihPriority =>
      have hsorted : Sorted DatabaseKey.compareKey (childrenAndPriority skips dict priority) :=
        sorted_childrenAndPriority (wellFormed_children_iff.mp hwf).2.1
      rw [leavesUnless_children, below, List.pairwise_flatMap]
      refine ⟨fun block hblock => ?_, ?_⟩
      · obtain ⟨e, he, rfl⟩ := List.mem_map.mp hblock
        have hleaves : (leavesUnless skips e.2).Pairwise
            fun leaf leaf' => FPath.compare leaf.1 leaf'.1 = .lt := by
          have hchild := (wellFormed_of_mem hwf he).2
          rcases mem_childrenAndPriority he with ⟨rfl, -⟩ | hmem
          · exact ihPriority hchild
          · exact ih e hmem hchild
        refine List.Pairwise.map _ (fun leaf leaf' hlt => ?_) hleaves
        show FPath.compare (e.1 :: leaf.1) (e.1 :: leaf'.1) = .lt
        rw [FPath.compare, compareKeys_eq_iff.mpr rfl]
        exact hlt
      · refine List.Pairwise.map _ (fun e e' hlt => ?_) hsorted
        intro leaf hleaf leaf' hleaf'
        obtain ⟨inner, -, rfl⟩ := List.mem_map.mp hleaf
        obtain ⟨inner', -, rfl⟩ := List.mem_map.mp hleaf'
        show FPath.compare (e.1 :: inner.1) (e'.1 :: inner'.1) = .lt
        rw [FPath.compare, compareKeys_eq_lt_of hlt]

/-! ### What is left out -/

theorem childPrioritiesFollowed_iff {dict : List (K × NodeData K V)} :
    childPrioritiesFollowed dict = true ↔ ∀ e ∈ dict, prioritiesFollowed e.2 = true := by
  induction dict with
  | nil =>
      rw [childPrioritiesFollowed]
      exact iff_of_true rfl (List.forall_mem_nil _)
  | cons e dict ih =>
      obtain ⟨key, child⟩ := e
      rw [childPrioritiesFollowed, Bool.and_eq_true, ih, List.forall_mem_cons]

/-- The leaves that are visited are all leaves if the priorities are followed by a child. -/
theorem leavesUnless_of_followed (h : node.prioritiesFollowed = true) :
    node.leavesUnless endsBeforePriority = node.leavesInOrder := by
  unfold leavesInOrder
  induction node using children_induction with
  | hempty => rw [leavesUnless, leavesUnless]
  | hleaf value priority => rw [leavesUnless, leavesUnless]
  | hchildren dict priority ih ihPriority =>
      rw [prioritiesFollowed, Bool.and_eq_true, Bool.and_eq_true, childPrioritiesFollowed_iff] at h
      obtain ⟨⟨hfollowed, hpriority⟩, hdict⟩ := h
      have hsame : childrenAndPriority endsBeforePriority dict priority =
          childrenAndPriority (fun _ => false) dict priority := by
        unfold childrenAndPriority
        refine if_congr ?_ rfl rfl
        rw [Bool.or_false, Bool.or_eq_true, or_iff_left_of_imp]
        intro hends
        rw [hends, Bool.not_true, Bool.or_false] at hfollowed
        exact hfollowed
      rw [leavesUnless_children, leavesUnless_children, hsame]
      refine congrArg below (List.map_congr_left fun e he => ?_)
      refine Prod.ext rfl ?_
      rcases mem_childrenAndPriority he with ⟨rfl, -⟩ | hmem
      · exact ihPriority hpriority
      · exact ih e hmem (hdict e hmem)

/-- All leaves that are visited are leaves of the node. -/
theorem mem_leavesInOrder (hwf : node.wellFormed = true) (h : leaf ∈ leavesUnless skips node) :
    leaf ∈ node.leavesInOrder := by
  unfold leavesInOrder
  induction node using children_induction generalizing leaf with
  | hempty =>
      rw [leavesUnless] at h ⊢
      exact h
  | hleaf value priority =>
      rw [leavesUnless] at h ⊢
      exact h
  | hchildren dict priority ih ihPriority =>
      have hnone : get DatabaseKey.priority dict = none :=
        get_eq_none_iff.mpr fun e he => ((wellFormed_children_iff.mp hwf).2.2.1 e he).1
      rw [leavesUnless_children] at h ⊢
      obtain ⟨block, hblock, hleaf⟩ := List.mem_flatMap.mp h
      obtain ⟨e, he, rfl⟩ := List.mem_map.mp hblock
      obtain ⟨inner, hinner, rfl⟩ := List.mem_map.mp hleaf
      have hall : e ∈ childrenAndPriority (fun _ => false) dict priority := by
        unfold childrenAndPriority
        rw [Bool.or_false]
        by_cases hempty : priority.isEmpty = true
        · rw [if_pos hempty]
          rcases mem_childrenAndPriority he with ⟨-, hne⟩ | hmem
          · rw [hne] at hempty
            cases hempty
          · exact hmem
        · rw [if_neg hempty, (set_perm _ hnone priority).mem_iff, List.mem_cons]
          exact (mem_childrenAndPriority he).imp_left And.left
      have hchild := (wellFormed_of_mem hwf he).2
      have hbelow : inner ∈ leavesUnless (fun _ => false) e.2 := by
        rcases mem_childrenAndPriority he with ⟨rfl, -⟩ | hmem
        · exact ihPriority hchild hinner
        · exact ih e hmem hchild hinner
      exact List.mem_flatMap.mpr ⟨_, List.mem_map_of_mem hall, List.mem_map_of_mem hbelow⟩

theorem length_leavesUnless_children (hwf : (NodeData.children dict priority).wellFormed = true) :
    (leavesUnless skips (.children dict priority)).length =
      (dict.map fun e => (leavesUnless skips e.2).length).sum +
        if priority.isEmpty || skips dict then 0 else (leavesUnless skips priority).length := by
  have hlength : ∀ entries : List (K × NodeData K V),
      (below (entries.map (Prod.map id (leavesUnless skips)))).length =
        (entries.map fun e => (leavesUnless skips e.2).length).sum := by
    intro entries
    induction entries with
    | nil => rfl
    | cons e entries ih =>
        obtain ⟨key, child⟩ := e
        rw [List.map_cons, Prod.map_apply, length_below_cons, ih, List.map_cons, List.sum_cons]
  have hnone : get DatabaseKey.priority dict = none :=
    get_eq_none_iff.mpr fun e he => ((wellFormed_children_iff.mp hwf).2.2.1 e he).1
  rw [leavesUnless_children, hlength, childrenAndPriority]
  by_cases hskips : (priority.isEmpty || skips dict) = true
  · rw [if_pos hskips, if_pos hskips, Nat.add_zero]
  · rw [if_neg hskips, if_neg hskips, ((set_perm _ hnone priority).map _).sum_eq, List.map_cons, List.sum_cons,
      Nat.add_comm]

/-- A priority that is not followed by a child leaves out its leaves. -/
theorem length_leavesUnless (hwf : node.wellFormed = true) :
    (node.leavesUnless endsBeforePriority).length ≤ node.leavesInOrder.length ∧
      (node.prioritiesFollowed = false →
        (node.leavesUnless endsBeforePriority).length < node.leavesInOrder.length) := by
  unfold leavesInOrder
  induction node using children_induction with
  | hempty => exact ⟨le_rfl, nofun⟩
  | hleaf value priority =>
      rw [leavesUnless, leavesUnless, prioritiesFollowed]
      exact ⟨le_rfl, nofun⟩
  | hchildren dict priority ih ihPriority =>
      obtain ⟨-, -, hall, hpriority⟩ := wellFormed_children_iff.mp hwf
      have hsum : (dict.map fun e => (leavesUnless endsBeforePriority e.2).length).sum ≤
          (dict.map fun e => (leavesUnless (fun _ => false) e.2).length).sum :=
        List.sum_le_sum fun e he => (ih e he (hall e he).2.2).1
      have hdict : childPrioritiesFollowed dict = false →
          (dict.map fun e => (leavesUnless endsBeforePriority e.2).length).sum <
            (dict.map fun e => (leavesUnless (fun _ => false) e.2).length).sum := by
        intro hnot
        rw [← Bool.not_eq_true, childPrioritiesFollowed_iff] at hnot
        push Not at hnot
        obtain ⟨e, he, hchild⟩ := hnot
        exact List.sum_lt_sum _ _ (fun e he => (ih e he (hall e he).2.2).1)
          ⟨e, he, (ih e he (hall e he).2.2).2 (Bool.not_eq_true _ ▸ hchild)⟩
      rw [length_leavesUnless_children hwf, length_leavesUnless_children hwf, prioritiesFollowed, Bool.or_false]
      cases hempty : priority.isEmpty with
      | true =>
          have hfollowed : prioritiesFollowed priority = true := by
            rw [show priority = .empty from eq_empty_of_isEmpty hpriority hempty, prioritiesFollowed]
          rw [Bool.true_or, Bool.true_or, hfollowed, Bool.true_and, Bool.true_and, if_pos rfl, if_pos rfl]
          exact ⟨hsum, hdict⟩
      | false =>
          obtain ⟨hle, hlt⟩ := ihPriority hpriority
          rw [Bool.false_or, Bool.false_or, if_neg (by decide : ¬false = true)]
          cases hends : endsBeforePriority dict with
          | true =>
              have hpos := List.length_pos_of_ne_nil (leavesUnless_ne_nil (fun _ => false) hpriority hempty)
              rw [if_pos rfl]
              exact ⟨by omega, fun _ => by omega⟩
          | false =>
              rw [if_neg (by decide : ¬false = true), Bool.not_false, Bool.true_and]
              refine ⟨by omega, fun hnot => ?_⟩
              rcases (Bool.and_eq_false_iff).mp hnot with hnot | hnot
              · have := hlt hnot
                omega
              · have := hdict hnot
                omega

end NodeData

end FirebaseSwift.Database
