import FirebaseSwift.Database.Listens
import FirebaseSwift.Database.PendingWrites

/-! Runs of a sync tree. Its pending writes go through a run of the write tree, so the records stay in
the order of their ids. -/

namespace FirebaseSwift.Database

variable {K V : Type} [DatabaseKey K]

/-- The calls that a sync tree answers. What persistence has for a query comes with a registration. -/
inductive SyncTreeOperation (K V : Type) [DatabaseKey K] where
  | applyUserOverwrite (path : FPath K) (newData : FNode K V) (writeId : Int) (isVisible : Bool)
  | applyUserMerge (path : FPath K) (changedChildren : FCompoundWrite K V) (writeId : Int)
  | ackUserWrite (writeId : Int) (revert : Bool)
  | removeAllWrites
  | applyServerOverwrite (path : FPath K) (newData : FNode K V)
  | applyServerMerge (path : FPath K) (changedChildren : FCompoundWrite K V)
  | applyListenComplete (path : FPath K)
  | applyTaggedQueryOverwrite (path : FPath K) (newData : FNode K V) (tagId : Int)
  | applyTaggedQueryMerge (path : FPath K) (changedChildren : FCompoundWrite K V) (tagId : Int)
  | applyTaggedListenComplete (path : FPath K) (tagId : Int)
  | addEventRegistration (eventRegistration : FEventRegistration) (query : FQuerySpec K V)
      (persistenceServerCache : Option (FCacheNode K V))
  | removeEventRegistration (matcher : FEventRegistrationMatcher) (query : FQuerySpec K V)
      (cancelError : Bool)
  | getServerValue (query : FQuerySpec K V)

namespace FSyncTree

variable [DatabaseValue V] [QueryFilters K V]

/-- There is no result where the program stops. -/
def perform (self : FSyncTree K V) : SyncTreeOperation K V → Option (FSyncTree K V)
  | .applyUserOverwrite path newData writeId isVisible =>
      self.applyUserOverwriteAtPath path newData writeId isVisible
  | .applyUserMerge path changedChildren writeId => self.applyUserMergeAtPath path changedChildren writeId
  | .ackUserWrite writeId revert => self.ackUserWriteWithWriteId writeId revert
  | .removeAllWrites => self.removeAllWrites
  | .applyServerOverwrite path newData => self.applyServerOverwriteAtPath path newData
  | .applyServerMerge path changedChildren => self.applyServerMergeAtPath path changedChildren
  | .applyListenComplete path => self.applyListenCompleteAtPath path
  | .applyTaggedQueryOverwrite path newData tagId =>
      self.applyTaggedQueryOverwriteAtPath path newData tagId
  | .applyTaggedQueryMerge path changedChildren tagId =>
      self.applyTaggedQueryMergeAtPath path changedChildren tagId
  | .applyTaggedListenComplete path tagId => self.applyTaggedListenCompleteAtPath path tagId
  | .addEventRegistration eventRegistration query persistenceServerCache =>
      some (self.addEventRegistration eventRegistration query persistenceServerCache)
  | .removeEventRegistration matcher query cancelError =>
      self.removeEventRegistration matcher query cancelError
  | .getServerValue query => some (self.getServerValue query).1

/-- New writes have new ids. -/
def Permits (self : FSyncTree K V) : SyncTreeOperation K V → Prop
  | .applyUserOverwrite _ _ writeId _ => self.pendingWriteTree.lastWriteId < writeId
  | .applyUserMerge _ _ writeId => self.pendingWriteTree.lastWriteId < writeId
  | _ => True

inductive Reachable : FSyncTree K V → Prop
  | initial : Reachable initial
  | step {tree tree' : FSyncTree K V} (operation : SyncTreeOperation K V) (htree : Reachable tree)
      (hpermits : tree.Permits operation) (hperform : tree.perform operation = some tree') :
      Reachable tree'

instance (self : FSyncTree K V) (operation : SyncTreeOperation K V) :
    Decidable (self.Permits operation) := by
  cases operation <;> unfold Permits <;> infer_instance

/-- There is no result where the program stops or a call is not permitted. -/
def run (self : FSyncTree K V) : List (SyncTreeOperation K V) → Option (FSyncTree K V)
  | [] => some self
  | operation :: rest =>
      if self.Permits operation then (self.perform operation).bind fun tree => tree.run rest else none

theorem Reachable.run {tree : FSyncTree K V} (htree : tree.Reachable)
    {operations : List (SyncTreeOperation K V)} (hrun : (tree.run operations).isSome = true) :
    ((tree.run operations).getD tree).Reachable := by
  induction operations generalizing tree with
  | nil => exact htree
  | cons operation rest ih =>
      rw [FSyncTree.run] at hrun ⊢
      split_ifs at hrun ⊢ with hpermits
      · cases hperform : tree.perform operation with
        | none => simp [hperform] at hrun
        | some tree' =>
            rw [hperform, Option.bind_some] at hrun
            have htree' := ih (htree.step operation hpermits hperform) hrun
            obtain ⟨result, hresult⟩ := Option.isSome_iff_exists.mp hrun
            rw [hresult, Option.getD_some] at htree'
            rw [Option.bind_some, hresult, Option.getD_some]
            exact htree'
      · exact htree

/-- For runs without filtered queries any filters will do. -/
instance : QueryFilters String Int := ⟨fun params => FIndexedFilter.ofIndex params.index⟩

/-! ### The pending writes in a run -/

variable {tree tree' : FSyncTree K V}
variable {operation : FOperation K V (FQueryParams K V)} (self : FSyncTree K V)

theorem pendingWriteTree_applyOperationToSyncPoints (h : tree.applyOperationToSyncPoints operation = some tree') :
    tree'.pendingWriteTree = tree.pendingWriteTree := by
  obtain ⟨_, _, rfl⟩ := Option.map_eq_some_iff.mp h
  rfl

theorem pendingWriteTree_applyTaggedOperation {path : FPath K}
    (h : tree.applyTaggedOperation operation path = some tree') :
    tree'.pendingWriteTree = tree.pendingWriteTree := by
  unfold applyTaggedOperation at h
  split at h
  · cases h
    rfl
  · obtain ⟨_, _, rfl⟩ := Option.map_eq_some_iff.mp h
    rfl

theorem pendingWriteTree_applyToTaggedQuery {path : FPath K} {tagId : Int}
    {operation : FOperationSource (FQueryParams K V) → FPath K → FOperation K V (FQueryParams K V)}
    (h : tree.applyToTaggedQuery path tagId operation = some tree') :
    tree'.pendingWriteTree = tree.pendingWriteTree := by
  unfold applyToTaggedQuery at h
  split at h
  · cases h
    rfl
  · exact pendingWriteTree_applyTaggedOperation h

theorem pendingWriteTree_addEventRegistration (eventRegistration : FEventRegistration) (query : FQuerySpec K V)
    (persistenceServerCache : Option (FCacheNode K V)) :
    (self.addEventRegistration eventRegistration query persistenceServerCache).pendingWriteTree =
      self.pendingWriteTree := by
  have htag : ∀ self : FSyncTree K V, (self.addTag query).pendingWriteTree = self.pendingWriteTree := by
    intro self
    unfold addTag
    split_ifs <;> rfl
  unfold addEventRegistration
  dsimp only
  split_ifs
  · rfl
  · rw [setupListenerOnQuery_eq]
    exact htag _
  · exact htag _

omit [QueryFilters K V] in
theorem pendingWriteTree_removeEventRegistration {matcher : FEventRegistrationMatcher}
    {query : FQuerySpec K V} {cancelError : Bool}
    (h : tree.removeEventRegistration matcher query cancelError = some tree') :
    tree'.pendingWriteTree = tree.pendingWriteTree := by
  unfold removeEventRegistration at h
  dsimp only at h
  split at h
  · cases h
    rfl
  · obtain ⟨removal, _, rfl⟩ := Option.map_eq_some_iff.mp h
    rw [updateListens_eq]
    obtain ⟨_, htags⟩ := removeTags_eq _ removal.2
    rw [htags]

theorem pendingWriteTree_getServerValue (query : FQuerySpec K V) :
    (self.getServerValue query).1.pendingWriteTree = self.pendingWriteTree := by
  unfold getServerValue
  split <;> rfl

/-- An operation on the sync tree is at most one on its write tree. -/
theorem pendingWriteTree_perform {operation : SyncTreeOperation K V} (hpermits : tree.Permits operation)
    (h : tree.perform operation = some tree') : tree'.pendingWriteTree = tree.pendingWriteTree ∨
      ∃ writeOperation, tree.pendingWriteTree.Permits writeOperation ∧
        tree'.pendingWriteTree = tree.pendingWriteTree.perform writeOperation := by
  cases operation with
  | applyUserOverwrite path newData writeId isVisible =>
      refine Or.inr ⟨.addOverwrite path newData writeId isVisible, hpermits, ?_⟩
      simp only [perform, applyUserOverwriteAtPath] at h
      split_ifs at h
      · cases h
        rfl
      · exact pendingWriteTree_applyOperationToSyncPoints h
  | applyUserMerge path changedChildren writeId =>
      exact Or.inr ⟨.addMerge path changedChildren writeId, hpermits,
        pendingWriteTree_applyOperationToSyncPoints h⟩
  | ackUserWrite writeId revert =>
      simp only [perform, ackUserWriteWithWriteId] at h
      split at h
      · cases h
        exact Or.inl rfl
      · next write hwrite =>
          have hmem : ∃ record ∈ tree.pendingWriteTree.allWrites, record.writeId = writeId :=
            ⟨write, List.mem_of_find?_eq_some hwrite, by simpa using List.find?_some hwrite⟩
          refine Or.inr ⟨.remove writeId, hmem, ?_⟩
          split_ifs at h
          · cases h
            rfl
          · exact pendingWriteTree_applyOperationToSyncPoints h
  | removeAllWrites =>
      refine Or.inr ⟨.removeAll, trivial, ?_⟩
      simp only [perform, removeAllWrites] at h
      split_ifs at h
      · exact pendingWriteTree_applyOperationToSyncPoints h
      · cases h
        rfl
  | applyServerOverwrite path newData => exact Or.inl (pendingWriteTree_applyOperationToSyncPoints h)
  | applyServerMerge path changedChildren =>
      exact Or.inl (pendingWriteTree_applyOperationToSyncPoints h)
  | applyListenComplete path => exact Or.inl (pendingWriteTree_applyOperationToSyncPoints h)
  | applyTaggedQueryOverwrite path newData tagId =>
      simp only [perform, applyTaggedQueryOverwriteAtPath] at h
      exact Or.inl (pendingWriteTree_applyToTaggedQuery h)
  | applyTaggedQueryMerge path changedChildren tagId =>
      simp only [perform, applyTaggedQueryMergeAtPath] at h
      exact Or.inl (pendingWriteTree_applyToTaggedQuery h)
  | applyTaggedListenComplete path tagId =>
      simp only [perform, applyTaggedListenCompleteAtPath] at h
      exact Or.inl (pendingWriteTree_applyToTaggedQuery h)
  | addEventRegistration eventRegistration query persistenceServerCache =>
      cases h
      exact Or.inl (pendingWriteTree_addEventRegistration tree eventRegistration query _)
  | removeEventRegistration matcher query cancelError =>
      exact Or.inl (pendingWriteTree_removeEventRegistration h)
  | getServerValue query =>
      cases h
      exact Or.inl (pendingWriteTree_getServerValue tree query)

theorem Reachable.ordered (h : Reachable tree) : tree.pendingWriteTree.Ordered := by
  induction h with
  | initial => exact ⟨List.Pairwise.nil, fun _ hmem => by cases hmem⟩
  | step operation _ hpermits hperform ih =>
      rcases pendingWriteTree_perform hpermits hperform with hsame | ⟨writeOperation, hwrite, hnew⟩
      · rw [hsame]
        exact ih
      · rw [hnew]
        exact ih.perform writeOperation hwrite

end FSyncTree

end FirebaseSwift.Database
