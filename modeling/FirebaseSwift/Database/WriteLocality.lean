import FirebaseSwift.Database.PendingWrites
import FirebaseSwift.Database.ViewProcessor

/-! Locality of pending writes. A view at a path sees of the write tree what is written at the path,
above it and below it; records elsewhere change nothing there. So two write trees with the same records
related to the path give a view the same answers, with one exception: the reference of the view looks
for a shadowing write at the doubled path of the operation, which can be anywhere. The results of the
view processor are the same exactly if no operation finds the one tree covered there and the other
not. -/

namespace FirebaseSwift.Database

variable {K V Q : Type} [DatabaseKey K]

namespace FCompoundWrite

/-- The same writes as seen from the path. -/
def AgreeAt (path : FPath K) (self other : FCompoundWrite K V) : Prop :=
  (∀ above rest, above ++ rest = path →
    (self.valueAt above).map (fun v => v.getChild rest) =
      (other.valueAt above).map fun v => v.getChild rest) ∧
    ∀ rest, self.valueAt (path ++ rest) = other.valueAt (path ++ rest)

variable {path : FPath K} {self other : FCompoundWrite K V}

theorem AgreeAt.refl (path : FPath K) (self : FCompoundWrite K V) : AgreeAt path self self :=
  ⟨fun _ _ _ => rfl, fun _ => rfl⟩

theorem AgreeAt.symm (h : AgreeAt path self other) : AgreeAt path other self :=
  ⟨fun above rest happ => (h.1 above rest happ).symm, fun rest => (h.2 rest).symm⟩

theorem AgreeAt.trans {third : FCompoundWrite K V} (h : AgreeAt path self other)
    (h' : AgreeAt path other third) : AgreeAt path self third :=
  ⟨fun above rest happ => (h.1 above rest happ).trans (h'.1 above rest happ),
    fun rest => (h.2 rest).trans (h'.2 rest)⟩

/-- A write above the path on one side has a counterpart on the other. -/
theorem AgreeAt.exists_above (h : AgreeAt path self other) {found rest : FPath K} {v : FNode K V}
    (happ : found ++ rest = path) (hv : self.valueAt found = some v) :
    ∃ v', other.valueAt found = some v' ∧ v'.getChild rest = v.getChild rest := by
  have hmap := h.1 found rest happ
  rw [hv, Option.map_some] at hmap
  obtain ⟨v', hv', hchild⟩ := Option.map_eq_some_iff.mp hmap.symm
  exact ⟨v', hv', hchild⟩

variable {above : FPath K}

theorem AgreeAt.none_above (h : AgreeAt path self other) (hle : above <+: path)
    (hv : self.valueAt above = none) : other.valueAt above = none := by
  obtain ⟨rest, happ⟩ := hle
  have hmap := h.1 above rest happ
  rw [hv, Option.map_none] at hmap
  exact Option.map_eq_none_iff.mp hmap.symm

theorem AgreeAt.none_at (h : AgreeAt path self other) (hle : above <+: path ∨ path <+: above)
    (hv : self.valueAt above = none) : other.valueAt above = none := by
  rcases hle with hle | ⟨rest, rfl⟩
  · exact h.none_above hle hv
  · rw [← h.2 rest, hv]

/-- A write beside the path cannot be seen from it. -/
theorem AgreeAt.addWrite_beside (hpath : DatabaseKey.priority ∉ path) (self : FCompoundWrite K V)
    {w : FPath K} (newNode : FNode K V) (habove : ¬w <+: path) (hbelow : ¬path <+: w) :
    AgreeAt path self (self.addWrite newNode w) := by
  rcases self.covered_or_free w with ⟨found, v, hpre, hv⟩ | hfree
  · refine ⟨fun above rest happ => ?_, fun rest => ?_⟩
    · rw [valueAt_addWrite_covered newNode hpre hv]
      split_ifs with heq
      · subst heq
        obtain ⟨x, rfl⟩ := hpre
        rw [hv, Option.map_some, Option.map_some, FPath.relativePath_append, FNode.getChild_updateChild_beside]
        · exact fun hmem => hpath (happ ▸ List.mem_append_right _ hmem)
        · exact fun hle => habove (happ ▸ (List.prefix_append_right_inj above).mpr hle)
        · exact fun hle => hbelow (happ ▸ (List.prefix_append_right_inj above).mpr hle)
      · rfl
    · rw [valueAt_addWrite_covered newNode hpre hv, if_neg]
      rintro rfl
      exact hbelow ((List.prefix_append path rest).trans hpre)
  · refine ⟨fun above rest happ => ?_, fun rest => ?_⟩
    · rw [valueAt_addWrite_free newNode hfree, if_neg]
      exact fun hle => habove (hle.trans ⟨rest, happ⟩)
    · rw [valueAt_addWrite_free newNode hfree, if_neg]
      intro hle
      exact (List.prefix_or_prefix_of_prefix hle (List.prefix_append path rest)).elim habove hbelow

/-- The same write on both sides, where it is related to the path. -/
theorem AgreeAt.addWrite_related (hpath : DatabaseKey.priority ∉ path) (h : AgreeAt path self other)
    {w : FPath K} (newNode : FNode K V) (hrelated : w <+: path ∨ path <+: w) :
    AgreeAt path (self.addWrite newNode w) (other.addWrite newNode w) := by
  have hcomparable : ∀ above, above <+: w → above <+: path ∨ path <+: above := by
    intro above hle
    rcases hrelated with hw | hw
    · exact Or.inl (hle.trans hw)
    · exact List.prefix_or_prefix_of_prefix hle hw
  rcases self.covered_or_free w with ⟨found, v, hpre, hv⟩ | hfree
  · rcases hcomparable found hpre with ⟨y, hy⟩ | ⟨y, rfl⟩
    · -- the write changes a node above the path
      obtain ⟨v', hv', hchild⟩ := h.exists_above hy hv
      have hynot : DatabaseKey.priority ∉ y := fun hmem => hpath (hy ▸ List.mem_append_right _ hmem)
      have hupdated : (v.updateChild (FPath.relativePath found w) newNode).getChild y =
          (v'.updateChild (FPath.relativePath found w) newNode).getChild y := by
        obtain ⟨x, rfl⟩ := hpre
        rw [FPath.relativePath_append]
        rcases hrelated with hle | hle
        · obtain ⟨z, rfl⟩ := (List.prefix_append_right_inj found).mp (hy ▸ hle)
          have hxnot : DatabaseKey.priority ∉ x := fun hmem => hynot (List.mem_append_left _ hmem)
          rw [FNode.getChild_updateChild_above hxnot, FNode.getChild_updateChild_above hxnot]
        · obtain ⟨z, rfl⟩ := (List.prefix_append_right_inj found).mp (hy ▸ hle)
          rw [FNode.getChild_updateChild_append hynot, FNode.getChild_updateChild_append hynot, hchild]
      refine ⟨fun above rest happ => ?_, fun rest => ?_⟩
      · rw [valueAt_addWrite_covered newNode hpre hv, valueAt_addWrite_covered newNode hpre hv']
        split_ifs with heq
        · subst heq
          have hrest : rest = y := List.append_cancel_left (happ.trans hy.symm)
          rw [Option.map_some, Option.map_some, hrest, hupdated]
        · exact h.1 above rest happ
      · rw [valueAt_addWrite_covered newNode hpre hv, valueAt_addWrite_covered newNode hpre hv']
        split_ifs with heq
        · have hnil : y = [] := by
            have hlen := congrArg List.length heq
            rw [← hy, List.append_assoc, List.length_append, List.length_append] at hlen
            exact List.length_eq_zero_iff.mp (by omega)
          rw [hnil, FNode.getChild_nil, FNode.getChild_nil] at hupdated
          rw [hupdated]
        · exact h.2 rest
    · -- the write changes a node at the path or below
      have hv' : other.valueAt (path ++ y) = some v := by rw [← h.2, hv]
      refine ⟨fun above rest happ => ?_, fun rest => ?_⟩
      · rw [valueAt_addWrite_covered newNode hpre hv, valueAt_addWrite_covered newNode hpre hv']
        split_ifs with heq
        · rfl
        · exact h.1 above rest happ
      · rw [valueAt_addWrite_covered newNode hpre hv, valueAt_addWrite_covered newNode hpre hv', h.2]
  · have hfree' : ∀ above, above <+: w → other.valueAt above = none := fun above hle =>
      h.none_at (hcomparable above hle) (hfree above hle)
    refine ⟨fun above rest happ => ?_, fun rest => ?_⟩
    · rw [valueAt_addWrite_free newNode hfree, valueAt_addWrite_free newNode hfree']
      split_ifs
      · rfl
      · rfl
      · exact h.1 above rest happ
    · rw [valueAt_addWrite_free newNode hfree, valueAt_addWrite_free newNode hfree', h.2]

theorem AgreeAt.addWrites_related (hpath : DatabaseKey.priority ∉ path) (h : AgreeAt path self other)
    (writes : List (FPath K × FNode K V)) : AgreeAt path (self.addWrites writes) (other.addWrites writes) := by
  induction writes generalizing self other with
  | nil => exact h
  | cons write rest ih =>
      rw [addWrites_cons, addWrites_cons]
      by_cases hrelated : write.1 <+: path ∨ path <+: write.1
      · exact ih (h.addWrite_related hpath write.2 hrelated)
      · obtain ⟨habove, hbelow⟩ := not_or.mp hrelated
        exact ih (((addWrite_beside hpath self write.2 habove hbelow).symm.trans h).trans
          (addWrite_beside hpath other write.2 habove hbelow))

theorem AgreeAt.addWrites_beside (hpath : DatabaseKey.priority ∉ path) (self : FCompoundWrite K V)
    {writes : List (FPath K × FNode K V)} (hbeside : ∀ write ∈ writes, ¬write.1 <+: path ∧ ¬path <+: write.1) :
    AgreeAt path self (self.addWrites writes) := by
  induction writes generalizing self with
  | nil => exact .refl path self
  | cons write rest ih =>
      obtain ⟨habove, hbelow⟩ := hbeside write List.mem_cons_self
      rw [addWrites_cons]
      exact (addWrite_beside hpath self write.2 habove hbelow).trans
        (ih (self.addWrite write.2 write.1) fun w hw => hbeside w (List.mem_cons_of_mem _ hw))

theorem AgreeAt.completeNodeAtPath (hpath : DatabaseKey.priority ∉ path) (h : AgreeAt path self other)
    (rest : FPath K) : self.completeNodeAtPath (path ++ rest) = other.completeNodeAtPath (path ++ rest) := by
  rcases self.covered_or_free (path ++ rest) with ⟨found, v, hpre, hv⟩ | hfree
  · rw [completeNodeAtPath_of_covered hpre hv]
    rcases List.prefix_or_prefix_of_prefix hpre (List.prefix_append path rest) with ⟨y, hy⟩ | ⟨y, rfl⟩
    · obtain ⟨v', hv', hchild⟩ := h.exists_above hy hv
      have hynot : DatabaseKey.priority ∉ y := fun hmem => hpath (hy ▸ List.mem_append_right _ hmem)
      rw [completeNodeAtPath_of_covered hpre hv', ← hy, List.append_assoc, FPath.relativePath_append,
        FNode.getChild_append hynot, FNode.getChild_append hynot, hchild]
    · rw [completeNodeAtPath_of_covered hpre (h.2 y ▸ hv)]
  · rw [completeNodeAtPath_of_free hfree, completeNodeAtPath_of_free fun above hle =>
      h.none_at (List.prefix_or_prefix_of_prefix hle (List.prefix_append path rest)) (hfree above hle)]

theorem AgreeAt.childCompoundWriteAtPath (hpath : DatabaseKey.priority ∉ path)
    (h : AgreeAt path self other) (rest : FPath K) :
    self.childCompoundWriteAtPath (path ++ rest) = other.childCompoundWriteAtPath (path ++ rest) := by
  have hcomplete := h.completeNodeAtPath hpath rest
  rcases self.covered_or_free (path ++ rest) with ⟨found, v, hpre, hv⟩ | hfree
  · rcases other.covered_or_free (path ++ rest) with ⟨found', v', hpre', hv'⟩ | hfree'
    · rw [completeNodeAtPath_of_covered hpre hv, completeNodeAtPath_of_covered hpre' hv'] at hcomplete
      ext1 below
      rw [valueAt_childCompoundWriteAtPath_of_covered hpre hv,
        valueAt_childCompoundWriteAtPath_of_covered hpre' hv', hcomplete]
    · rw [completeNodeAtPath_of_covered hpre hv, completeNodeAtPath_of_free hfree'] at hcomplete
      cases hcomplete
  · have hfree' : ∀ above, above <+: path ++ rest → other.valueAt above = none := fun above hle =>
      h.none_at (List.prefix_or_prefix_of_prefix hle (List.prefix_append path rest)) (hfree above hle)
    ext1 below
    rw [valueAt_childCompoundWriteAtPath_of_free hfree, valueAt_childCompoundWriteAtPath_of_free hfree',
      List.append_assoc, h.2]

end FCompoundWrite

/-- The records at the path, above it or below it. -/
def relatedRecords (path : FPath K) (records : List (FWriteRecord K V)) : List (FWriteRecord K V) :=
  records.filter fun record => record.path.contains path || path.contains record.path

theorem layering_agreeAt_relatedRecords {path : FPath K} (hpath : DatabaseKey.priority ∉ path)
    {self other : FCompoundWrite K V} (h : FCompoundWrite.AgreeAt path self other)
    (records : List (FWriteRecord K V)) :
    FCompoundWrite.AgreeAt path ((visibleRecords records).foldl FWriteRecord.addTo self)
      ((visibleRecords (relatedRecords path records)).foldl FWriteRecord.addTo other) := by
  induction records generalizing self other with
  | nil => exact h
  | cons record rest ih =>
      unfold visibleRecords relatedRecords at ih ⊢
      simp only [List.filter_cons]
      by_cases hrelated : (record.path.contains path || path.contains record.path) = true
      · rw [if_pos hrelated, List.filter_cons (x := record)]
        split_ifs with hvisible
        · rw [List.foldl_cons, List.foldl_cons, FWriteRecord.addTo_eq, FWriteRecord.addTo_eq]
          exact ih (h.addWrites_related hpath record.writes)
        · exact ih h
      · rw [if_neg hrelated]
        split_ifs with hvisible
        · rw [List.foldl_cons, FWriteRecord.addTo_eq]
          refine ih ((FCompoundWrite.AgreeAt.addWrites_beside hpath self fun write hwrite => ?_).symm.trans h)
          have hpre := FWriteRecord.path_prefix_of_mem_writes hwrite
          rw [Bool.or_eq_true, FPath.contains_iff, FPath.contains_iff, not_or] at hrelated
          exact ⟨fun hle => hrelated.1 (hpre.trans hle),
            fun hle => (List.prefix_or_prefix_of_prefix hle hpre).elim hrelated.2 hrelated.1⟩
        · exact ih h

namespace FWriteTree

/-- The visible writes are what layering the visible records gives. -/
def Layered (tree : FWriteTree K V) : Prop :=
  tree.visibleWrites = layering (visibleRecords tree.allWrites)

/-- The trees have the same records at the path, above it and below it. -/
def SameRecordsAt (path : FPath K) (tree tree' : FWriteTree K V) : Prop :=
  relatedRecords path tree.allWrites = relatedRecords path tree'.allWrites

variable {path : FPath K} {tree tree' : FWriteTree K V}

theorem agreeAt_of_sameRecordsAt (hpath : DatabaseKey.priority ∉ path) (hlayered : tree.Layered)
    (hlayered' : tree'.Layered) (hrecords : SameRecordsAt path tree tree') :
    FCompoundWrite.AgreeAt path tree.visibleWrites tree'.visibleWrites := by
  rw [hlayered, hlayered']
  refine (layering_agreeAt_relatedRecords hpath (.refl path _) tree.allWrites).trans ?_
  rw [hrecords]
  exact (layering_agreeAt_relatedRecords hpath (.refl path _) tree'.allWrites).symm

end FWriteTree

/-! ### The answers of a reference -/

namespace FWriteTreeRef

/-- Both references give the same answers, but perhaps not about shadowing writes. -/
structure SameAnswers (writes writes' : FWriteTreeRef K V) : Prop where
  completeEventCache : writes.calculateCompleteEventCache = writes'.calculateCompleteEventCache
  completeEventCacheOfNode :
    writes.calculateCompleteEventCacheOfNode = writes'.calculateCompleteEventCacheOfNode
  completeEventChildren :
    writes.calculateCompleteEventChildren = writes'.calculateCompleteEventChildren
  afterServerOverwrite :
    writes.calculateEventCacheAfterServerOverwrite = writes'.calculateEventCacheAfterServerOverwrite
  completeChild : writes.calculateCompleteChild = writes'.calculateCompleteChild
  nextNodeAfterPost : ∀ [DatabaseValue V],
    writes.calculateNextNodeAfterPost = writes'.calculateNextNodeAfterPost
  shadowingAtRoot :
    (writes.shadowingWriteAtPath []).isSome = (writes'.shadowingWriteAtPath []).isSome

/-- Both references say of a path that it is shadowed, or both say that it is not. -/
def SameShadowing (writes writes' : FWriteTreeRef K V) (path : FPath K) : Prop :=
  (writes.shadowingWriteAtPath path).isSome = (writes'.shadowingWriteAtPath path).isSome

variable {path : FPath K} {tree tree' : FWriteTree K V}

theorem sameAnswers_of_agreeAt (hpath : DatabaseKey.priority ∉ path)
    (h : FCompoundWrite.AgreeAt path tree.visibleWrites tree'.visibleWrites) :
    SameAnswers (tree.childWritesForPath path) (tree'.childWritesForPath path) := by
  have hcomplete := h.completeNodeAtPath hpath
  have hchild := h.childCompoundWriteAtPath hpath
  have hcompleteHere := hcomplete []
  have hchildHere := hchild []
  rw [List.append_nil] at hcompleteHere hchildHere
  constructor
  · funext completeServerCache
    unfold calculateCompleteEventCache FWriteTree.calculateCompleteEventCacheAtPath
      FWriteTree.childWritesForPath
    rw [hcompleteHere, hchildHere]
    rfl
  · funext completeServerCache
    unfold calculateCompleteEventCacheOfNode FWriteTree.calculateCompleteEventCacheOfNode
      FWriteTree.childWritesForPath
    rw [hcompleteHere, hchildHere]
    rfl
  · funext completeServerChildren
    simp only [calculateCompleteEventChildren, FWriteTree.calculateCompleteEventChildrenAtPath,
      FWriteTree.childWritesForPath, hcompleteHere, hchildHere]
  · funext childPath existingServerSnap
    have hcovered : tree.visibleWrites.hasCompleteWriteAtPath (path.child childPath) =
        tree'.visibleWrites.hasCompleteWriteAtPath (path.child childPath) :=
      congrArg Option.isSome (hcomplete childPath)
    have hbelow : tree.visibleWrites.childCompoundWriteAtPath (path.child childPath) =
        tree'.visibleWrites.childCompoundWriteAtPath (path.child childPath) := hchild childPath
    have heq : ∀ t : FWriteTree K V,
        (t.childWritesForPath path).calculateEventCacheAfterServerOverwrite childPath existingServerSnap =
          if t.visibleWrites.hasCompleteWriteAtPath (path.child childPath) then none
          else if (t.visibleWrites.childCompoundWriteAtPath (path.child childPath)).isEmpty then
            some (existingServerSnap.getChild childPath)
          else some ((t.visibleWrites.childCompoundWriteAtPath (path.child childPath)).applyToNode
            (existingServerSnap.getChild childPath)) := fun _ => rfl
    rw [heq, heq, hcovered, hbelow]
  · funext childKey existingServerCache
    simp only [calculateCompleteChild, FWriteTree.calculateCompleteChildAtPath,
      FWriteTree.childWritesForPath, FPath.childFromString, hcomplete [childKey], hchild [childKey]]
  · intro _
    funext post completeServerData reverse index
    simp only [calculateNextNodeAfterPost, FWriteTree.calculateNextNodeAfterPost,
      FWriteTree.childWritesForPath, hchildHere]
  · -- a write at the root covers everything, so both trees have it
    change (tree.visibleWrites.completeNodeAtPath []).isSome =
      (tree'.visibleWrites.completeNodeAtPath []).isSome
    cases hroot : tree.visibleWrites.valueAt [] with
    | some v =>
        obtain ⟨v', hv', _⟩ := h.exists_above (List.nil_append path) hroot
        rw [FCompoundWrite.completeNodeAtPath_of_covered List.nil_prefix hroot,
          FCompoundWrite.completeNodeAtPath_of_covered List.nil_prefix hv']
        rfl
    | none =>
        have hroot' := h.none_above List.nil_prefix hroot
        rw [FCompoundWrite.completeNodeAtPath_of_free fun above hle => List.prefix_nil.mp hle ▸ hroot,
          FCompoundWrite.completeNodeAtPath_of_free fun above hle => List.prefix_nil.mp hle ▸ hroot']

end FWriteTreeRef

/-! ### The view processor -/

namespace FViewProcessor

open FWriteTreeRef

/-- The paths for which a merge of the server may look for a shadowing write. -/
def mergeAsks (path : FPath K) (changedChildren : FCompoundWrite K V) : List (FPath K) :=
  (actualMerge path changedChildren).childCompoundWrites.map fun childWrite => [childWrite.1]

/-- The paths, relative to the view, for which an operation may look for a shadowing write. -/
def asks (viewCache : FViewCache K V) (operation : FOperation K V Q) : List (FPath K) :=
  match operation.type with
  | .overwrite _ => if operation.source.fromUser then [] else [operation.path]
  | .merge children => if operation.source.fromUser then [] else mergeAsks operation.path children
  | .ackUserWrite affectedTree revert =>
      operation.path ::
        if revert then []
        else if affectedTree.value.isSome then
          if operation.path.isEmpty && !viewCache.cachedServerSnap.isFullyInitialized then
            mergeAsks operation.path (serverCacheChildren viewCache.cachedServerSnap)
          else []
        else
          mergeAsks operation.path
            (serverCacheMerge viewCache.cachedServerSnap operation.path affectedTree)
  | .listenComplete => [operation.path]

variable [DatabaseValue V] {writes writes' : FWriteTreeRef K V} (h : SameAnswers writes writes')
  (self : FViewProcessor K V)

include h

variable {changePath : FPath K} {viewCache : FViewCache K V}

omit [DatabaseValue V] in
theorem generateEventCacheAfterServerEvent_congr (hshadowing : SameShadowing writes writes' changePath)
    (viewCache : FViewCache K V) (source : FCompleteChildSource K V) (accumulator : FChildChangeAccumulator K V) :
    self.generateEventCacheAfterServerEvent writes viewCache changePath source accumulator =
      self.generateEventCacheAfterServerEvent writes' viewCache changePath source accumulator := by
  unfold SameShadowing at hshadowing
  simp only [generateEventCacheAfterServerEvent, eventCacheAfterServerEventAtRoot,
    eventCacheAfterServerEventAtChild, hshadowing, h.completeEventChildren,
    h.completeEventCacheOfNode, h.afterServerOverwrite, h.completeChild]

theorem completeChildSource_congr : writes.completeChildSource = writes'.completeChildSource := by
  funext viewCache completeServerCache
  simp only [completeChildSource, h.completeChild, h.nextNodeAfterPost]

theorem applyServerOverwriteTo_congr (hshadowing : SameShadowing writes writes' changePath)
    (viewCache : FViewCache K V) (changedSnap : FNode K V) (completeCache : Option (FNode K V))
    (filterServerNode : Bool) (accumulator : FChildChangeAccumulator K V) :
    self.applyServerOverwriteTo writes viewCache changePath changedSnap completeCache
        filterServerNode accumulator =
      self.applyServerOverwriteTo writes' viewCache changePath changedSnap completeCache
        filterServerNode accumulator := by
  simp only [applyServerOverwriteTo, self.generateEventCacheAfterServerEvent_congr h hshadowing,
    completeChildSource_congr h]

theorem applyUserOverwriteTo_congr : self.applyUserOverwriteTo writes = self.applyUserOverwriteTo writes' := by
  funext viewCache changePath changedSnap completeCache accumulator
  simp only [applyUserOverwriteTo, completeChildSource_congr h]

theorem applyUserMergeTo_congr : self.applyUserMergeTo writes = self.applyUserMergeTo writes' := by
  funext viewCache path changedChildren completeCache accumulator
  simp only [applyUserMergeTo, userMergeLoop, self.applyUserOverwriteTo_congr h]

theorem applyServerMergeTo_congr {path : FPath K} {changedChildren : FCompoundWrite K V}
    (hshadowing : ∀ q ∈ mergeAsks path changedChildren, SameShadowing writes writes' q)
    (viewCache : FViewCache K V) (completeCache : Option (FNode K V)) (filterServerNode : Bool)
    (accumulator : FChildChangeAccumulator K V) :
    self.applyServerMergeTo writes viewCache path changedChildren completeCache filterServerNode
        accumulator =
      self.applyServerMergeTo writes' viewCache path changedChildren completeCache filterServerNode
        accumulator := by
  have hloop : ∀ (inCache : Bool) (state : FViewCache K V × FChildChangeAccumulator K V),
      self.serverMergeLoop writes viewCache inCache completeCache filterServerNode
          (actualMerge path changedChildren).childCompoundWrites state =
        self.serverMergeLoop writes' viewCache inCache completeCache filterServerNode
          (actualMerge path changedChildren).childCompoundWrites state := by
    intro inCache state
    refine List.foldl_ext _ _ _ fun state childWrite hmem => ?_
    have hchild := hshadowing [childWrite.1] (List.mem_map_of_mem hmem)
    simp only [self.applyServerOverwriteTo_congr h hchild]
  simp only [applyServerMergeTo, hloop]

theorem ackUserWriteOn_congr {ackPath : FPath K} {affectedTree : FImmutableTree K Bool}
    (hshadowing : ∀ q ∈ asks viewCache (⟨.user, ackPath, .ackUserWrite affectedTree false⟩ :
      FOperation K V Q), SameShadowing writes writes' q) (completeCache : Option (FNode K V))
    (accumulator : FChildChangeAccumulator K V) :
    self.ackUserWriteOn writes viewCache ackPath affectedTree completeCache accumulator =
      self.ackUserWriteOn writes' viewCache ackPath affectedTree completeCache accumulator := by
  have hpath : SameShadowing writes writes' ackPath := hshadowing _ List.mem_cons_self
  have hmerge := fun q hq => hshadowing q (List.mem_cons_of_mem _ hq)
  simp only [Bool.false_eq_true, if_false] at hmerge
  unfold ackUserWriteOn
  rw [show (writes.shadowingWriteAtPath ackPath).isSome = _ from hpath]
  by_cases hvalue : affectedTree.value.isSome = true
  · rw [if_pos hvalue] at hmerge
    by_cases hreapply : (ackPath.isEmpty && !viewCache.cachedServerSnap.isFullyInitialized) = true
    · rw [if_pos hreapply] at hmerge
      simp only [hvalue, if_true, self.applyServerOverwriteTo_congr h hpath,
        self.applyServerMergeTo_congr h hmerge]
    · by_cases hnil : ackPath.isEmpty = true
      · have hfully : viewCache.cachedServerSnap.isFullyInitialized = true := by simpa [hnil] using hreapply
        simp only [hvalue, hnil, hfully, Bool.and_self, Bool.true_or, if_true,
          self.applyServerOverwriteTo_congr h hpath]
      · simp only [hvalue, hnil, if_true, Bool.false_eq_true, if_false, self.applyServerOverwriteTo_congr h hpath]
  · rw [if_neg hvalue] at hmerge
    simp only [hvalue, Bool.false_eq_true, if_false, self.applyServerMergeTo_congr h hmerge]

theorem revertUserWriteOn_congr {path : FPath K} (hshadowing : SameShadowing writes writes' path)
    (viewCache : FViewCache K V) (completeCache : Option (FNode K V)) (accumulator : FChildChangeAccumulator K V) :
    self.revertUserWriteOn writes viewCache path completeCache accumulator =
      self.revertUserWriteOn writes' viewCache path completeCache accumulator := by
  unfold SameShadowing at hshadowing
  simp only [revertUserWriteOn, eventCacheAfterRevertAtRoot, eventCacheAfterRevertAtChild, hshadowing,
    h.shadowingAtRoot, h.completeEventCache, h.completeEventCacheOfNode, h.completeEventChildren,
    h.completeChild, completeChildSource_congr h]

/-- The view processor gets nothing from a write tree but the answers of its reference. -/
theorem applyOperationOn_congr {operation : FOperation K V Q}
    (hshadowing : ∀ q ∈ asks viewCache operation, SameShadowing writes writes' q)
    (completeCache : Option (FNode K V)) : self.applyOperationOn writes viewCache operation completeCache =
      self.applyOperationOn writes' viewCache operation completeCache := by
  have hprocess : self.processOperation writes viewCache operation completeCache =
      self.processOperation writes' viewCache operation completeCache := by
    obtain ⟨source, path, type⟩ := operation
    unfold asks at hshadowing
    unfold processOperation
    cases type with
    | overwrite snap =>
        simp only at hshadowing ⊢
        split_ifs at hshadowing ⊢
        · rw [self.applyUserOverwriteTo_congr h]
        · exact self.applyServerOverwriteTo_congr h (hshadowing _ List.mem_cons_self) _ _ _ _ _
    | merge children =>
        simp only at hshadowing ⊢
        split_ifs at hshadowing ⊢
        · rw [self.applyUserMergeTo_congr h]
        · exact self.applyServerMergeTo_congr h hshadowing _ _ _ _
    | ackUserWrite affectedTree revert =>
        cases revert with
        | false => exact self.ackUserWriteOn_congr (Q := Q) h hshadowing _ _
        | true => exact self.revertUserWriteOn_congr h (hshadowing _ List.mem_cons_self) _ _ _
    | listenComplete =>
        exact self.generateEventCacheAfterServerEvent_congr h (hshadowing _ List.mem_cons_self) _ _ _
  unfold applyOperationOn
  rw [hprocess]

omit h

/-- Where the path is not shadowed, reverting a write replaces the event cache. -/
theorem revertUserWriteOn_eq {writes : FWriteTreeRef K V} {q : FPath K}
    (hshadowing : (writes.shadowingWriteAtPath q).isSome = false) (viewCache : FViewCache K V)
    (completeCache : Option (FNode K V)) (accumulator : FChildChangeAccumulator K V) :
    ∃ newEventCache : FIndexedNode K V × List (FChange K V),
      self.revertUserWriteOn writes viewCache q completeCache accumulator =
        (viewCache.updateEventSnap newEventCache.1 (viewCache.cachedServerSnap.isFullyInitialized ||
          (writes.shadowingWriteAtPath []).isSome) self.filter.filtersNodes,
          accumulator.track newEventCache.2) := by
  unfold revertUserWriteOn
  rw [hshadowing, if_neg Bool.false_ne_true]
  exact ⟨_, rfl⟩

/-- A view cache with all data of the server that has not shown any of it yet. -/
def unshown : FViewCache K V :=
  ⟨⟨false, false, .ofNode .empty .priority⟩, ⟨true, false, .ofNode .empty .priority⟩⟩

/-- Reverting a write shows the data of the server exactly if the path is not shadowed. -/
theorem revert_unshown (writes : FWriteTreeRef K V) (q : FPath K) : ((self.applyOperationOn writes unshown
        (⟨.user, q, .ackUserWrite .empty true⟩ : FOperation K V Q) none).any
      fun result => !result.viewCache.cachedEventSnap.isFullyInitialized) =
        (writes.shadowingWriteAtPath q).isSome := by
  cases hshadowing : (writes.shadowingWriteAtPath q).isSome with
  | true =>
      simp [applyOperationOn, processOperation, revertUserWriteOn, hshadowing, unshown,
        FChildChangeAccumulator.initial]
  | false =>
      obtain ⟨newEventCache, hrevert⟩ := self.revertUserWriteOn_eq hshadowing unshown none .initial
      simp only [applyOperationOn, processOperation, Bool.not_true, Bool.false_eq_true, if_false, hrevert]
      split_ifs
      · rfl
      · simp [unshown, FViewCache.updateEventSnap]

/-- The results are the same with both trees, for the operations that ask only for given paths. -/
def SameResults (tree tree' : FWriteTree K V) (path : FPath K) (asked : FPath K → Prop) : Prop :=
  ∀ (viewCache : FViewCache K V) (operation : FOperation K V Q) (completeCache : Option (FNode K V)),
    (∀ q ∈ asks viewCache operation, asked q) →
      self.applyOperationOn (tree.childWritesForPath path) viewCache operation completeCache =
        self.applyOperationOn (tree'.childWritesForPath path) viewCache operation completeCache

theorem shadowing_eq_of_sameResults {tree tree' : FWriteTree K V} {path : FPath K}
    {asked : FPath K → Prop} (hresults : self.SameResults (Q := Q) tree tree' path asked) {q : FPath K}
    (hq : asked q) : tree.visibleWrites.hasCompleteWriteAtPath (q ++ q) =
      tree'.visibleWrites.hasCompleteWriteAtPath (q ++ q) := by
  have hrevert := self.revert_unshown (Q := Q) (tree.childWritesForPath path) q
  rw [hresults unshown _ none (by simpa [asks] using hq), self.revert_unshown] at hrevert
  exact hrevert.symm

/-- Take two write trees with the same records related to a view. The operations that ask for given
paths only have the same results with both exactly if each of these paths, doubled, is covered by a
visible write in both trees or in neither. -/
theorem sameResults_iff {tree tree' : FWriteTree K V} {path : FPath K}
    (hpath : DatabaseKey.priority ∉ path) (hlayered : tree.Layered) (hlayered' : tree'.Layered)
    (hrecords : FWriteTree.SameRecordsAt path tree tree') (asked : FPath K → Prop) :
    self.SameResults (Q := Q) tree tree' path asked ↔
      ∀ q, asked q → tree.visibleWrites.hasCompleteWriteAtPath (q ++ q) =
        tree'.visibleWrites.hasCompleteWriteAtPath (q ++ q) := by
  constructor
  · exact fun hresults q hq => self.shadowing_eq_of_sameResults hresults hq
  · intro hshadowing viewCache operation completeCache hasks
    exact self.applyOperationOn_congr (sameAnswers_of_agreeAt hpath
      (FWriteTree.agreeAt_of_sameRecordsAt hpath hlayered hlayered' hrecords))
      (fun q hq => hshadowing q (hasks q hq)) completeCache

/-- A tree with a write beside the view, and one without. -/
def besideView : FWriteTree String Int :=
  FWriteTree.initial.addOverwriteAtPath ["b", "c"] (.leaf 1 .empty) 1 true

theorem sameResults_iff_beside :
    (FViewProcessor.mk (FIndexedFilter.ofIndex .priority)).SameResults (Q := Unit) besideView
        FWriteTree.initial ["a"] (· = ["c"]) ↔
      ∀ q : FPath String, q = ["c"] → besideView.visibleWrites.hasCompleteWriteAtPath (q ++ q) =
        (FWriteTree.initial : FWriteTree String Int).visibleWrites.hasCompleteWriteAtPath (q ++ q) :=
  sameResults_iff (FViewProcessor.mk (FIndexedFilter.ofIndex .priority))
    (show DatabaseKey.priority ∉ ["a"] by decide) (show besideView.Layered from rfl)
    (show FWriteTree.initial.Layered from rfl) rfl (· = ["c"])

/-- Reverting a write at `a/b` of a view at `a` is suppressed by a pending write at `b/b`. -/
theorem sameResults_fails_beside :
    ¬∀ (self : FViewProcessor String Int) (tree tree' : FWriteTree String Int) (path : FPath String),
      DatabaseKey.priority ∉ path → tree.Layered → tree'.Layered →
        FWriteTree.SameRecordsAt path tree tree' →
          self.SameResults (Q := Unit) tree tree' path fun _ => True := by
  intro hall
  have hresults := hall ⟨FIndexedFilter.ofIndex .priority⟩
    (FWriteTree.initial.addOverwriteAtPath ["b", "b"] (.leaf 1 .empty) 1 true) FWriteTree.initial ["a"]
    (by decide) rfl rfl rfl
  have hshadowing := shadowing_eq_of_sameResults (q := ["b"]) _ hresults trivial
  exact absurd hshadowing (by decide)

end FViewProcessor

end FirebaseSwift.Database
