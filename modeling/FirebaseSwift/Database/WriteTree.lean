import FirebaseSwift.Database.CompoundWrite

/-! The write tree, the store of the pending writes of the client. It keeps the records of all
pending writes in the order of their ids, and the compound write that results from the visible ones.
Adding a write extends the compound write. Removing one tries to get by with removing branches from
it, and layers the records again otherwise. -/

namespace FirebaseSwift.Database

variable {K V : Type} [DatabaseKey K]

/-- `FWriteRecord.Record` -/
inductive WriteRecordKind (K V : Type) [DatabaseKey K] where
  | overwrite (newData : FNode K V)
  | merge (changedChildren : FCompoundWrite K V)

structure FWriteRecord (K V : Type) [DatabaseKey K] where
  record : WriteRecordKind K V
  writeId : Int
  path : FPath K
  visible : Bool

structure FWriteTree (K V : Type) [DatabaseKey K] where
  visibleWrites : FCompoundWrite K V
  allWrites : List (FWriteRecord K V)
  lastWriteId : Int

namespace FWriteTree

/-- `FWriteTree()` -/
def initial : FWriteTree K V := ⟨.emptyWrite, [], -1⟩

def addOverwriteAtPath (self : FWriteTree K V) (path : FPath K) (newData : FNode K V)
    (writeId : Int) (isVisible : Bool) : FWriteTree K V where
  visibleWrites := if isVisible then self.visibleWrites.addWrite newData path else self.visibleWrites
  allWrites := self.allWrites ++ [⟨.overwrite newData, writeId, path, isVisible⟩]
  lastWriteId := writeId

def addMergeAtPath (self : FWriteTree K V) (path : FPath K) (changedChildren : FCompoundWrite K V)
    (writeId : Int) : FWriteTree K V where
  visibleWrites := self.visibleWrites.addCompoundWrite changedChildren path
  allWrites := self.allWrites ++ [⟨.merge changedChildren, writeId, path, true⟩]
  lastWriteId := writeId

/-- `record(_:containsPath:)` -/
def recordContainsPath (record : FWriteRecord K V) (path : FPath K) : Bool :=
  match record.record with
  | .merge merge => merge.enumerateWrites.any fun write => (record.path.child write.1).contains path
  | .overwrite _ => record.path.contains path

/-- The default filter. It keeps every record. -/
def defaultFilter : FWriteRecord K V → Bool := fun _ => true

/-- One record of `layerTreeFromWrites`. -/
def layerRecord (treeRoot : FPath K) (compoundWrite : FCompoundWrite K V)
    (record : FWriteRecord K V) : FCompoundWrite K V :=
  let writePath := record.path
  match record.record with
  | .overwrite overwrite =>
      if treeRoot.contains writePath then
        compoundWrite.addWrite overwrite (FPath.relativePath treeRoot writePath)
      else if writePath.contains treeRoot then
        compoundWrite.addWrite (overwrite.getChild (FPath.relativePath writePath treeRoot)) []
      else compoundWrite
  | .merge merge =>
      if treeRoot.contains writePath then
        compoundWrite.addCompoundWrite merge (FPath.relativePath treeRoot writePath)
      else if writePath.contains treeRoot then
        let relativePath := FPath.relativePath writePath treeRoot
        if relativePath.isEmpty then compoundWrite.addCompoundWrite merge []
        else
          match merge.completeNodeAtPath relativePath with
          | some child => compoundWrite.addWrite (child.getChild relativePath.popFront) []
          | none => compoundWrite
      else compoundWrite

def layerTreeFromWrites (writes : List (FWriteRecord K V)) (filter : FWriteRecord K V → Bool)
    (treeRoot : FPath K) : FCompoundWrite K V :=
  writes.foldl
    (fun compoundWrite record =>
      if filter record then layerRecord treeRoot compoundWrite record else compoundWrite)
    .emptyWrite

def resetTree (self : FWriteTree K V) : FWriteTree K V where
  visibleWrites := layerTreeFromWrites self.allWrites defaultFilter []
  allWrites := self.allWrites
  lastWriteId := (self.allWrites.getLast?.map FWriteRecord.writeId).getD (-1)

/-- The loop of `removeWriteId` over the remaining records, from the last one down. The state is
whether the removed write was visible and whether it overlaps with other writes. -/
def scanWrites (writeToRemove : FWriteRecord K V) (index : Nat)
    (allWrites : List (FWriteRecord K V)) : Nat → Bool × Bool → Bool × Bool
  | 0, state => state
  | i + 1, (wasVisible, overlaps) =>
      if wasVisible then
        match allWrites[i]? with
        | none => (wasVisible, overlaps)
        | some currentWrite =>
            let state :=
              if currentWrite.visible then
                if index ≤ i && recordContainsPath currentWrite writeToRemove.path then
                  (false, overlaps)
                else if writeToRemove.path.contains currentWrite.path then (true, true)
                else (true, overlaps)
              else (true, overlaps)
            scanWrites writeToRemove index allWrites i state
      else (wasVisible, overlaps)

/-- The visible writes without the branches of one record. -/
def removeRecord (visibleWrites : FCompoundWrite K V) (writeToRemove : FWriteRecord K V) :
    FCompoundWrite K V :=
  match writeToRemove.record with
  | .merge merge =>
      merge.enumerateWrites.foldl
        (fun visibleWrites write =>
          visibleWrites.removeWriteAtPath (writeToRemove.path.child write.1))
        visibleWrites
  | .overwrite _ => visibleWrites.removeWriteAtPath writeToRemove.path

/-- The result says whether the removed write may have been visible. -/
def removeWriteId (self : FWriteTree K V) (writeId : Int) : FWriteTree K V × Bool :=
  match self.allWrites.findIdx? fun record => record.writeId = writeId with
  | none => (self, false)
  | some index =>
      match self.allWrites[index]? with
      | none => (self, false)
      | some writeToRemove =>
          let allWrites := self.allWrites.eraseIdx index
          let removed := { self with allWrites := allWrites }
          let state :=
            scanWrites writeToRemove index allWrites allWrites.length (writeToRemove.visible, false)
          if !state.1 then (removed, false)
          else if state.2 then (removed.resetTree, true)
          else
            ({ removed with visibleWrites := removeRecord self.visibleWrites writeToRemove }, true)

/-- The removed records are the result of the method. -/
def removeAllWrites (self : FWriteTree K V) : FWriteTree K V × List (FWriteRecord K V) :=
  ({ self with visibleWrites := .emptyWrite, allWrites := [] }, self.allWrites)

def writeForId (self : FWriteTree K V) (writeId : Int) : Option (FWriteRecord K V) :=
  self.allWrites.find? fun record => record.writeId = writeId

/-- `completeWriteData(at:)` -/
def completeWriteData (self : FWriteTree K V) (path : FPath K) : Option (FNode K V) :=
  self.visibleWrites.completeNodeAtPath path

def shadowingWriteAtPath (self : FWriteTree K V) (path : FPath K) : Option (FNode K V) :=
  self.visibleWrites.completeNodeAtPath path

/-- The records that are layered when writes are excluded or hidden writes are included. -/
def eventCacheFilter (treePath : FPath K) (excludeWriteIds : Option (List Int))
    (includeHiddenWrites : Bool) (record : FWriteRecord K V) : Bool :=
  (record.visible || includeHiddenWrites) &&
    !(excludeWriteIds.getD []).contains record.writeId &&
    (record.path.contains treePath || treePath.contains record.path)

/-- `calculateCompleteEventCacheAtPath` for an optional server cache. -/
def calculateCompleteEventCacheAtPath (self : FWriteTree K V) (treePath : FPath K)
    (completeServerCache : Option (FNode K V)) (excludeWriteIds : Option (List Int))
    (includeHiddenWrites : Bool) : Option (FNode K V) :=
  if excludeWriteIds.isNone && !includeHiddenWrites then
    match self.visibleWrites.completeNodeAtPath treePath with
    | some shadowingNode => some shadowingNode
    | none =>
        let subMerge := self.visibleWrites.childCompoundWriteAtPath treePath
        if subMerge.isEmpty then completeServerCache
        else if completeServerCache.isNone && !subMerge.hasCompleteWriteAtPath [] then none
        else some (subMerge.applyToNode (completeServerCache.getD .empty))
  else
    let merge := self.visibleWrites.childCompoundWriteAtPath treePath
    if !includeHiddenWrites && merge.isEmpty then completeServerCache
    else if !includeHiddenWrites && completeServerCache.isNone && !merge.hasCompleteWriteAtPath []
    then none
    else
      let mergeAtPath := layerTreeFromWrites self.allWrites
        (eventCacheFilter treePath excludeWriteIds includeHiddenWrites) treePath
      some (mergeAtPath.applyToNode (completeServerCache.getD .empty))

/-- `calculateCompleteEventCacheAtPath` for a server cache that is there. -/
def calculateCompleteEventCacheOfNode (self : FWriteTree K V) (treePath : FPath K)
    (completeServerCache : FNode K V) (excludeWriteIds : Option (List Int))
    (includeHiddenWrites : Bool) : FNode K V :=
  if excludeWriteIds.isNone && !includeHiddenWrites then
    match self.visibleWrites.completeNodeAtPath treePath with
    | some shadowingNode => shadowingNode
    | none =>
        let subMerge := self.visibleWrites.childCompoundWriteAtPath treePath
        if subMerge.isEmpty then completeServerCache
        else subMerge.applyToNode completeServerCache
  else
    let merge := self.visibleWrites.childCompoundWriteAtPath treePath
    if !includeHiddenWrites && merge.isEmpty then completeServerCache
    else
      let mergeAtPath := layerTreeFromWrites self.allWrites
        (eventCacheFilter treePath excludeWriteIds includeHiddenWrites) treePath
      mergeAtPath.applyToNode completeServerCache

def calculateCompleteEventChildrenAtPath (self : FWriteTree K V) (treePath : FPath K)
    (completeServerChildren : Option (FNode K V)) : FNode K V :=
  match self.visibleWrites.completeNodeAtPath treePath with
  | some topLevelSet =>
      topLevelSet.enumerateChildren.foldl
        (fun completeChildren child => completeChildren.updateImmediateChild child.1 child.2) .empty
  | none =>
      let merge := self.visibleWrites.childCompoundWriteAtPath treePath
      let serverChildren := ((completeServerChildren.getD .empty).enumerateChildren).foldl
        (fun completeChildren child =>
          completeChildren.updateImmediateChild child.1
            ((merge.childCompoundWriteAtPath [child.1]).applyToNode child.2)) .empty
      merge.completeChildren.foldl
        (fun completeChildren child => completeChildren.updateImmediateChild child.1 child.2)
        serverChildren

def calculateEventCacheAfterServerOverwriteAtPath (self : FWriteTree K V) (treePath childPath : FPath K)
    (existingServerSnap : FNode K V) : Option (FNode K V) :=
  let path := treePath.child childPath
  if self.visibleWrites.hasCompleteWriteAtPath path then none
  else
    let childMerge := self.visibleWrites.childCompoundWriteAtPath path
    if childMerge.isEmpty then some (existingServerSnap.getChild childPath)
    else some (childMerge.applyToNode (existingServerSnap.getChild childPath))

end FWriteTree

end FirebaseSwift.Database
