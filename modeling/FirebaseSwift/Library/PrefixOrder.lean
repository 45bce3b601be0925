import Mathlib.Data.List.Chain
import Mathlib.Data.List.Infix
import Mathlib.Data.List.Lex
import Mathlib.Order.Lattice
import Mathlib.Tactic.Tauto

/-! Prefixes in the lexicographic order. A list comes before all lists that it starts, and nothing else is
between: where lists are sorted, one starts another exactly if one starts the next. -/

namespace PrefixOrder

variable {α : Type} [LinearOrder α]

theorem cons_le_cons_iff {a b : α} {list list' : List α} :
    a :: list ≤ b :: list' ↔ a < b ∨ a = b ∧ list ≤ list' := by
  rw [le_iff_lt_or_eq, le_iff_lt_or_eq, List.cons_lt_cons_iff, List.cons.injEq]
  tauto

theorem le_of_isPrefix {front list : List α} (h : front <+: list) : front ≤ list := by
  induction front generalizing list with
  | nil => exact not_lt.mp (List.not_lt_nil list)
  | cons a front ih =>
      cases list with
      | nil => exact absurd (List.prefix_nil.mp h) (List.cons_ne_nil _ _)
      | cons b list =>
          obtain ⟨rfl, hrest⟩ := List.cons_prefix_cons.mp h
          exact cons_le_cons_iff.mpr (Or.inr ⟨rfl, ih hrest⟩)

/-- What is between a list and one that it starts, it starts. -/
theorem prefix_of_between {front middle list : List α} (h : front <+: list) (hlower : front ≤ middle)
    (hupper : middle ≤ list) : front <+: middle := by
  induction front generalizing middle list with
  | nil => exact List.nil_prefix
  | cons a front ih =>
      cases list with
      | nil => exact absurd (List.prefix_nil.mp h) (List.cons_ne_nil _ _)
      | cons b list =>
          obtain ⟨rfl, hrest⟩ := List.cons_prefix_cons.mp h
          cases middle with
          | nil => exact absurd hlower (not_le.mpr (List.nil_lt_cons _ _))
          | cons c middle =>
              rcases cons_le_cons_iff.mp hlower with hlt | ⟨rfl, hlowerRest⟩
              · rcases cons_le_cons_iff.mp hupper with hgt | ⟨heq, -⟩
                · exact absurd hgt hlt.asymm
                · exact absurd heq hlt.ne'
              · rcases cons_le_cons_iff.mp hupper with hgt | ⟨-, hupperRest⟩
                · exact absurd hgt (lt_irrefl a)
                · exact List.cons_prefix_cons.mpr ⟨rfl, ih hrest hlowerRest hupperRest⟩

/-- In a sorted list no element starts the next exactly if none starts another. -/
theorem isChain_iff_pairwise {lists : List (List α)} (hsorted : lists.Pairwise (· ≤ ·)) :
    lists.IsChain (fun front list => ¬front <+: list) ↔
      lists.Pairwise (fun front list => ¬front <+: list ∧ ¬list <+: front) := by
  induction lists with
  | nil => exact iff_of_true List.IsChain.nil List.Pairwise.nil
  | cons first rest ih =>
      obtain ⟨hfirst, hrest⟩ := List.pairwise_cons.mp hsorted
      constructor
      · intro hchain
        refine List.pairwise_cons.mpr ⟨fun list hlist => ?_, (ih hrest).mp hchain.of_cons⟩
        have hnot : ¬first <+: list := by
          intro hprefix
          cases rest with
          | nil => cases hlist
          | cons second rest =>
              have hupper : second ≤ list := by
                rcases List.mem_cons.mp hlist with rfl | hmem
                · exact le_refl _
                · exact (List.pairwise_cons.mp hrest).1 list hmem
              exact (List.isChain_cons_cons.mp hchain).1
                (prefix_of_between hprefix (hfirst second List.mem_cons_self) hupper)
        refine ⟨hnot, fun hprefix => hnot ?_⟩
        rw [le_antisymm (hfirst list hlist) (le_of_isPrefix hprefix)]
      · exact fun hpairwise => (hpairwise.imp And.left).isChain

end PrefixOrder
