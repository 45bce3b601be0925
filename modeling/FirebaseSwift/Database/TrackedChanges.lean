import FirebaseSwift.Database.IndexedChildren
import FirebaseSwift.Library.NetEdits

/-! The changes that filters track. Every call of a filter edits the children of an indexed node, and the accumulator
composes the edits of each child. So after any calls the changes lead from the children at the start to those at the
end. A child that was changed and is as it was before keeps a change. -/

namespace FirebaseSwift.Database

open SortedDictionary NetEdits Std

variable {K V : Type} [DatabaseKey K]

/-! ### Children -/

namespace FNode

variable {node : FNode K V} {key : K} {child : FNode K V}

/-- The child of a key, if there is one -/
def childAt (node : FNode K V) (key : K) : Option (FNode K V) :=
  if key ≠ DatabaseKey.priority ∧ node.hasChild key = true then some (node.getImmediateChild key) else none

theorem childAt_eq_some_iff : node.childAt key = some child ↔
    key ≠ DatabaseKey.priority ∧ node.getImmediateChild key = child ∧ child.isEmpty = false := by
  unfold childAt hasChild
  split_ifs with h
  · rw [Option.some_inj]
    constructor
    · rintro rfl
      exact ⟨h.1, rfl, by simpa using h.2⟩
    · exact fun hchild => hchild.2.1
  · refine iff_of_false nofun ?_
    rintro ⟨hkey, rfl, hfull⟩
    exact h ⟨hkey, by rw [hfull]; rfl⟩

theorem mem_enumerateChildren_iff : (key, child) ∈ node.enumerateChildren ↔ node.childAt key = some child := by
  rw [childAt_eq_some_iff]
  have hmem := @mem_enumerateChildren K V _ node ⟨key, child⟩
  dsimp only at hmem
  rw [eq_comm, ← hmem, List.mem_map]
  constructor
  · exact fun h => ⟨_, h, rfl⟩
  · rintro ⟨entry, hentry, heq⟩
    cases heq
    exact hentry

end FNode

/-! ### The accumulator -/

/-- The change that tells of an edit -/
def FChange.ofEdit (entry : K × Edit (FNode K V)) : FChange K V :=
  match entry.2 with
  | .added newChild => .childAdded entry.1 newChild
  | .removed oldChild => .childRemoved entry.1 oldChild
  | .changed newChild oldChild => .childChanged entry.1 newChild oldChild

theorem FChange.childKey_ofEdit (entry : K × Edit (FNode K V)) : (FChange.ofEdit entry).childKey = some entry.1 := by
  obtain ⟨key, edit⟩ := entry
  cases edit <;> rfl

namespace FChildChangeAccumulator

variable {self : FChildChangeAccumulator K V} {table table' : K → Option (Edit (FNode K V))}

/-- The accumulator has the net edits as changes. -/
structure Shows (accumulator : FChildChangeAccumulator K V) (table : K → Option (Edit (FNode K V))) : Prop where
  running : accumulator.trapped = false
  sorted : Sorted (· < ·) accumulator.changeMap
  get_eq : ∀ key, get key accumulator.changeMap = (table key).map fun edit => FChange.ofEdit (key, edit)

theorem Shows.set (h : self.Shows table) (entry : K × Edit (FNode K V)) :
    Shows { self with changeMap := SortedDictionary.set (· < ·) entry.1 (FChange.ofEdit entry) self.changeMap }
      (Function.update table entry.1 (some entry.2)) := by
  refine ⟨h.running, Sorted.set _ h.sorted entry.1 _, fun key => ?_⟩
  dsimp only
  rw [get_set]
  by_cases hkey : key = entry.1
  · rw [if_pos hkey, hkey, Function.update_self]
    rfl
  · rw [if_neg hkey, Function.update_of_ne hkey]
    exact h.get_eq key

theorem Shows.remove (h : self.Shows table) (key : K) :
    Shows { self with changeMap := SortedDictionary.remove key self.changeMap } (Function.update table key none) := by
  refine ⟨h.running, h.sorted.remove key, fun other => ?_⟩
  dsimp only
  rw [get_remove]
  by_cases hkey : other = key
  · rw [if_pos hkey, hkey, Function.update_self]
    rfl
  · rw [if_neg hkey, Function.update_of_ne hkey]
    exact h.get_eq other

/-- A change is composed with the one that is there as its edit is. -/
theorem Shows.trackChildChange (h : self.Shows table) {entry : K × Edit (FNode K V)}
    (htrack : NetEdits.track table entry = some table') :
    (self.trackChildChange (FChange.ofEdit entry)).Shows table' := by
  obtain ⟨key, edit⟩ := entry
  have hget := h.get_eq key
  rw [NetEdits.track] at htrack
  rw [FChildChangeAccumulator.trackChildChange, FChange.childKey_ofEdit]
  dsimp only at htrack ⊢
  cases hold : table key with
  | none =>
      rw [hold] at htrack hget
      rw [hget]
      cases htrack
      exact h.set (key, edit)
  | some earlier =>
      rw [hold] at htrack hget
      rw [hget]
      obtain ⟨net, hnet, rfl⟩ := Option.map_eq_some_iff.mp htrack
      cases earlier with
      | added value =>
          cases edit with
          | added newChild => cases hnet
          | removed oldChild =>
              cases hnet
              exact h.remove key
          | changed newChild oldChild =>
              cases hnet
              exact h.set (key, .added newChild)
      | removed value =>
          cases edit with
          | added newChild =>
              cases hnet
              exact h.set (key, .changed newChild value)
          | removed oldChild => cases hnet
          | changed newChild oldChild => cases hnet
      | changed value oldValue =>
          cases edit with
          | added newChild => cases hnet
          | removed oldChild =>
              cases hnet
              exact h.set (key, .removed oldValue)
          | changed newChild oldChild =>
              cases hnet
              exact h.set (key, .changed newChild oldValue)

/-- Edits that apply are composed to the net edits, and no combination of them is illegal. -/
theorem Shows.track (h : self.Shows table) {start values values' : K → Option (FNode K V)} {seen : List K}
    (hrecords : Records start values seen table) {edits : List (K × Edit (FNode K V))}
    (happlies : Applies values edits values') : ∃ table', (self.track (edits.map FChange.ofEdit)).Shows table' ∧
      Records start values' (seen ++ edits.map Prod.fst) table' := by
  induction happlies generalizing self table seen with
  | nil values => exact ⟨table, h, by rwa [List.map_nil, List.append_nil]⟩
  | @cons values values' key edit edits hbefore _ ih =>
      obtain ⟨next, htrack, hnext⟩ := hrecords.track hbefore
      obtain ⟨table', hshows, hrecords'⟩ := ih (h.trackChildChange htrack) hnext
      refine ⟨table', hshows, ?_⟩
      rwa [List.append_assoc] at hrecords'

end FChildChangeAccumulator

/-! ### Indexed filters -/

/-- The changes of a call tell of edits that lead from the children of the node to those of the result. -/
def Tracked (node : FNode K V) (result : FIndexedNode K V × List (FChange K V)) : Prop :=
  ∃ edits, result.2 = edits.map FChange.ofEdit ∧ Applies node.childAt edits result.1.node.childAt

variable (snap : FIndexedNode K V)

variable [DatabaseValue V]

namespace FIndexedFilter

/-- The children that the new node does not have -/
def removal (newNode : FNode K V) (child : K × FNode K V) : Option (K × Edit (FNode K V)) :=
  if newNode.hasChild child.1 then none else some (child.1, .removed child.2)

variable {entry : K × Edit (FNode K V)}

end FIndexedFilter

end FirebaseSwift.Database
