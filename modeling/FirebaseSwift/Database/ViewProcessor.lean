import FirebaseSwift.Database.WriteTreeRef

/-! The view processor. It applies an operation to the caches of a view: writes of the user change the
event cache at once; updates of the server change the server cache, and the event cache as far as no
pending write hides them; when a write is acknowledged or reverted, what it hid is shown again. -/

namespace FirebaseSwift.Database

open FImmutableTree

variable {K V Q : Type} [DatabaseKey K]

inductive FOperationSource (Q : Type) where
  | user
  | server (taggedParams : Option Q)

namespace FOperationSource

def fromUser : FOperationSource Q → Bool
  | user => true
  | server _ => false

def isTagged : FOperationSource Q → Bool
  | user => false
  | server taggedParams => taggedParams.isSome

end FOperationSource

inductive FOperationType (K V : Type) [DatabaseKey K] where
  | overwrite (snap : FNode K V)
  | merge (children : FCompoundWrite K V)
  | ackUserWrite (affectedTree : FImmutableTree K Bool) (revert : Bool)
  | listenComplete

structure FOperation (K V Q : Type) [DatabaseKey K] where
  source : FOperationSource Q
  path : FPath K
  type : FOperationType K V

theorem FImmutableTree.IsWriteTree.of_mem_children {α : Type} {tree : FImmutableTree K α}
    (h : IsWriteTree tree) {e : K × FImmutableTree K α} (hmem : e ∈ tree.children) : IsWriteTree e.2 := by
  cases h with | intro _ _ _ hchildren _ _ => exact hchildren e hmem

/-- The writes below each key. The source has them in a dictionary, here they are in the order of the
keys. -/
def FCompoundWrite.childCompoundWrites (self : FCompoundWrite K V) : List (K × FCompoundWrite K V) :=
  self.writeTree.children.attach.map fun e => (e.1.1, ⟨e.1.2, self.isWriteTree.of_mem_children e.2⟩)

structure FViewProcessorResult (K V : Type) [DatabaseKey K] where
  viewCache : FViewCache K V
  changes : List (FChange K V)

/-- `FWriteTreeCompleteChildSource` -/
def FWriteTreeRef.completeChildSource [DatabaseValue V] (writes : FWriteTreeRef K V)
    (viewCache : FViewCache K V) (completeServerCache : Option (FNode K V)) :
    FCompleteChildSource K V where
  completeChild childKey :=
    if viewCache.cachedEventSnap.isCompleteForChild childKey then
      some (viewCache.cachedEventSnap.node.getImmediateChild childKey)
    else
      writes.calculateCompleteChild childKey
        (match completeServerCache with
          | some completeServerCache => ⟨true, false, .ofNode completeServerCache .key⟩
          | none => viewCache.cachedServerSnap)
  childByIndex index child isReverse :=
    writes.calculateNextNodeAfterPost child (completeServerCache.or viewCache.completeServerSnap)
      isReverse index

structure FViewProcessor (K V : Type) [DatabaseKey K] where
  filter : FNodeFilter K V

namespace FViewProcessor

variable [DatabaseValue V] (self : FViewProcessor K V) (writesCache : FWriteTreeRef K V)

/-- The new event cache after a server event at the root of the view. -/
def eventCacheAfterServerEventAtRoot (viewCache : FViewCache K V) :
    FIndexedNode K V × List (FChange K V) :=
  let nodeWithLocalWrites :=
    if viewCache.cachedServerSnap.isFiltered then
      let serverCache := viewCache.completeServerSnap.getD .empty
      writesCache.calculateCompleteEventChildren
        (some (if serverCache.isLeafNode then .empty else serverCache))
    else writesCache.calculateCompleteEventCacheOfNode viewCache.cachedServerSnap.node
  self.filter.updateFullNode viewCache.cachedEventSnap.indexedNode
    (.ofNode nodeWithLocalWrites self.filter.index)

/-- The new event cache after a server event at or below a child. -/
def eventCacheAfterServerEventAtChild (viewCache : FViewCache K V) (childKey : K)
    (childChangePath : FPath K) (source : FCompleteChildSource K V) :
    FIndexedNode K V × List (FChange K V) :=
  let oldEventSnap := viewCache.cachedEventSnap
  let changePath := childKey :: childChangePath
  if childKey = DatabaseKey.priority then
    match writesCache.calculateEventCacheAfterServerOverwrite changePath
        viewCache.cachedServerSnap.node with
    | some updatedPriority =>
        (self.filter.updatePriority updatedPriority oldEventSnap.indexedNode, [])
    | none => (oldEventSnap.indexedNode, [])
  else
    let newEventChild :=
      if oldEventSnap.isCompleteForChild childKey then
        match writesCache.calculateEventCacheAfterServerOverwrite changePath
            viewCache.cachedServerSnap.node with
        | some eventChildUpdate =>
            some ((oldEventSnap.node.getImmediateChild childKey).updateChild childChangePath
              eventChildUpdate)
        | none => some (oldEventSnap.node.getImmediateChild childKey)
      else writesCache.calculateCompleteChild childKey viewCache.cachedServerSnap
    match newEventChild with
    | some newEventChild =>
        self.filter.updateChildIn oldEventSnap.indexedNode childKey newEventChild childChangePath source
    | none => (oldEventSnap.indexedNode, [])

def generateEventCacheAfterServerEvent (viewCache : FViewCache K V) (changePath : FPath K)
    (source : FCompleteChildSource K V) (accumulator : FChildChangeAccumulator K V) :
    FViewCache K V × FChildChangeAccumulator K V :=
  if (writesCache.shadowingWriteAtPath changePath).isSome then (viewCache, accumulator)
  else
    let newEventCache :=
      match changePath with
      | [] => self.eventCacheAfterServerEventAtRoot writesCache viewCache
      | childKey :: childChangePath =>
          self.eventCacheAfterServerEventAtChild writesCache viewCache childKey childChangePath source
    (viewCache.updateEventSnap newEventCache.1
      (viewCache.cachedEventSnap.isFullyInitialized || changePath.isEmpty) self.filter.filtersNodes,
      accumulator.track newEventCache.2)

/-- The new server cache of `applyServerOverwriteTo`. There is none where the update is for another
listener. The changes are not tracked. -/
def serverCacheAfterOverwrite (oldServerSnap : FCacheNode K V) (changePath : FPath K)
    (changedSnap : FNode K V) (serverFilter : FNodeFilter K V) : Option (FIndexedNode K V) :=
  match changePath with
  | [] =>
      some (serverFilter.updateFullNode oldServerSnap.indexedNode
        (.ofNode changedSnap serverFilter.index)).1
  | childKey :: childChangePath =>
      let newChild :=
        (oldServerSnap.node.getImmediateChild childKey).updateChild childChangePath changedSnap
      if serverFilter.filtersNodes && !oldServerSnap.isFiltered then
        some (serverFilter.updateFullNode oldServerSnap.indexedNode
          (oldServerSnap.indexedNode.updateChild childKey newChild)).1
      else if !oldServerSnap.isCompleteForPath changePath && !childChangePath.isEmpty then none
      else if childKey = DatabaseKey.priority then
        some (serverFilter.updatePriority newChild oldServerSnap.indexedNode)
      else
        some (serverFilter.updateChildIn oldServerSnap.indexedNode childKey newChild childChangePath
          .noCompleteChildSource).1

def applyServerOverwriteTo (oldViewCache : FViewCache K V) (changePath : FPath K)
    (changedSnap : FNode K V) (completeCache : Option (FNode K V)) (filterServerNode : Bool)
    (accumulator : FChildChangeAccumulator K V) : FViewCache K V × FChildChangeAccumulator K V :=
  let oldServerSnap := oldViewCache.cachedServerSnap
  let serverFilter := if filterServerNode then self.filter else self.filter.indexedFilter
  match serverCacheAfterOverwrite oldServerSnap changePath changedSnap serverFilter with
  | none => (oldViewCache, accumulator)
  | some newServerCache =>
      let newViewCache := oldViewCache.updateServerSnap newServerCache
        (oldServerSnap.isFullyInitialized || changePath.isEmpty) serverFilter.filtersNodes
      self.generateEventCacheAfterServerEvent writesCache newViewCache changePath
        (writesCache.completeChildSource newViewCache completeCache) accumulator

/-- The new child of `applyUserOverwriteTo`. -/
def childAfterUserOverwrite (childKey : K) (childChangePath : FPath K) (changedSnap : FNode K V)
    (source : FCompleteChildSource K V) : FNode K V :=
  match childChangePath.parent with
  | some parent =>
      match source.completeChild childKey with
      | some childNode =>
          if childChangePath.getBack = some DatabaseKey.priority &&
              (childNode.getChild parent).isEmpty then
            childNode
          else childNode.updateChild childChangePath changedSnap
      | none => .empty
  | none => changedSnap

def applyUserOverwriteTo (oldViewCache : FViewCache K V) (changePath : FPath K)
    (changedSnap : FNode K V) (completeCache : Option (FNode K V))
    (accumulator : FChildChangeAccumulator K V) : FViewCache K V × FChildChangeAccumulator K V :=
  let oldEventSnap := oldViewCache.cachedEventSnap
  let source := writesCache.completeChildSource oldViewCache completeCache
  match changePath with
  | [] =>
      let newEventCache := self.filter.updateFullNode oldEventSnap.indexedNode
        (.ofNode changedSnap self.filter.index)
      (oldViewCache.updateEventSnap newEventCache.1 true self.filter.filtersNodes,
        accumulator.track newEventCache.2)
  | childKey :: childChangePath =>
      if childKey = DatabaseKey.priority then
        (oldViewCache.updateEventSnap
          (self.filter.updatePriority changedSnap oldEventSnap.indexedNode)
          oldEventSnap.isFullyInitialized oldEventSnap.isFiltered, accumulator)
      else
        let newChild := childAfterUserOverwrite childKey childChangePath changedSnap source
        if oldEventSnap.node.getImmediateChild childKey ≠ newChild then
          let newEventSnap := self.filter.updateChildIn oldEventSnap.indexedNode childKey newChild
            childChangePath source
          (oldViewCache.updateEventSnap newEventSnap.1 oldEventSnap.isFullyInitialized
            self.filter.filtersNodes, accumulator.track newEventSnap.2)
        else (oldViewCache, accumulator)

/-- One of the two loops of `applyUserMergeTo`, over the writes whose first key is in the cache or over
the others. A write without a key stops the program. -/
def userMergeLoop (viewCache : FViewCache K V) (path : FPath K) (inCache : Bool)
    (completeCache : Option (FNode K V)) (writes : List (FPath K × FNode K V))
    (state : FViewCache K V × FChildChangeAccumulator K V) :
    FViewCache K V × FChildChangeAccumulator K V :=
  writes.foldl (fun state write =>
    let writePath := path.child write.1
    match writePath.getFront with
    | none => (state.1, { state.2 with trapped := true })
    | some front =>
        if viewCache.cachedEventSnap.isCompleteForChild front = inCache then
          self.applyUserOverwriteTo writesCache state.1 writePath write.2 completeCache state.2
        else state) state

def applyUserMergeTo (viewCache : FViewCache K V) (path : FPath K)
    (changedChildren : FCompoundWrite K V) (completeCache : Option (FNode K V))
    (accumulator : FChildChangeAccumulator K V) : FViewCache K V × FChildChangeAccumulator K V :=
  let inCache := self.userMergeLoop writesCache viewCache path true completeCache
    changedChildren.enumerateWrites (viewCache, accumulator)
  self.userMergeLoop writesCache viewCache path false completeCache changedChildren.enumerateWrites
    inCache

/-- One of the two loops of `applyServerMergeTo`, over the children that the server cache has or over
the others. -/
def serverMergeLoop (viewCache : FViewCache K V) (inCache : Bool) (completeCache : Option (FNode K V))
    (filterServerNode : Bool) (childCompoundWrites : List (K × FCompoundWrite K V))
    (state : FViewCache K V × FChildChangeAccumulator K V) :
    FViewCache K V × FChildChangeAccumulator K V :=
  childCompoundWrites.foldl (fun state childWrite =>
    let (childKey, childMerge) := childWrite
    let isUnknownDeepMerge :=
      !viewCache.cachedServerSnap.isCompleteForChild childKey && childMerge.rootWrite.isNone
    if viewCache.cachedServerSnap.node.hasChild childKey = inCache ∧
        (inCache = true ∨ isUnknownDeepMerge = false) then
      let newChild :=
        childMerge.applyToNode (viewCache.cachedServerSnap.node.getImmediateChild childKey)
      self.applyServerOverwriteTo writesCache state.1 [childKey] newChild completeCache
        filterServerNode state.2
    else state) state

/-- The merge as seen from the view. -/
def actualMerge (path : FPath K) (changedChildren : FCompoundWrite K V) : FCompoundWrite K V :=
  if path.isEmpty then changedChildren
  else FCompoundWrite.emptyWrite.addCompoundWrite changedChildren path

def applyServerMergeTo (viewCache : FViewCache K V) (path : FPath K)
    (changedChildren : FCompoundWrite K V) (completeCache : Option (FNode K V))
    (filterServerNode : Bool) (accumulator : FChildChangeAccumulator K V) :
    FViewCache K V × FChildChangeAccumulator K V :=
  if viewCache.cachedServerSnap.node.isEmpty && !viewCache.cachedServerSnap.isFullyInitialized then
    (viewCache, accumulator)
  else
    let childCompoundWrites := (actualMerge path changedChildren).childCompoundWrites
    let inCache := self.serverMergeLoop writesCache viewCache true completeCache filterServerNode
      childCompoundWrites (viewCache, accumulator)
    self.serverMergeLoop writesCache viewCache false completeCache filterServerNode
      childCompoundWrites inCache

/-- What an acknowledged merge writes again: what the server cache has at its paths. -/
def serverCacheMerge (serverCache : FCacheNode K V) (ackPath : FPath K)
    (affectedTree : FImmutableTree K Bool) : FCompoundWrite K V :=
  affectedTree.forEach.foldl (fun changedChildren affected =>
    let serverCachePath := ackPath.child affected.1
    if serverCache.isCompleteForPath serverCachePath then
      changedChildren.addWrite (serverCache.node.getChild serverCachePath) affected.1
    else changedChildren) .emptyWrite

/-- The merge of the children that the server cache has. -/
def serverCacheChildren (serverCache : FCacheNode K V) : FCompoundWrite K V :=
  serverCache.node.enumerateChildren.foldl
    (fun changedChildren child => changedChildren.addWrite child.2 [child.1]) .emptyWrite

def ackUserWriteOn (viewCache : FViewCache K V) (ackPath : FPath K)
    (affectedTree : FImmutableTree K Bool) (completeCache : Option (FNode K V))
    (accumulator : FChildChangeAccumulator K V) : FViewCache K V × FChildChangeAccumulator K V :=
  if (writesCache.shadowingWriteAtPath ackPath).isSome then (viewCache, accumulator)
  else
    let serverCache := viewCache.cachedServerSnap
    let filterServerNode := serverCache.isFiltered
    if affectedTree.value.isSome then
      if (ackPath.isEmpty && serverCache.isFullyInitialized) || serverCache.isCompleteForPath ackPath then
        self.applyServerOverwriteTo writesCache viewCache ackPath (serverCache.node.getChild ackPath)
          completeCache filterServerNode accumulator
      else if ackPath.isEmpty then
        self.applyServerMergeTo writesCache viewCache ackPath (serverCacheChildren serverCache)
          completeCache filterServerNode accumulator
      else (viewCache, accumulator)
    else
      self.applyServerMergeTo writesCache viewCache ackPath
        (serverCacheMerge serverCache ackPath affectedTree) completeCache filterServerNode accumulator

/-- The new event cache of `revertUserWriteOn` where the path does not address a child. -/
def eventCacheAfterRevertAtRoot (viewCache : FViewCache K V) : FIndexedNode K V × List (FChange K V) :=
  let newNode :=
    if viewCache.cachedServerSnap.isFullyInitialized then
      writesCache.calculateCompleteEventCacheOfNode viewCache.cachedServerSnap.node
    else writesCache.calculateCompleteEventChildren (some viewCache.cachedServerSnap.node)
  self.filter.updateFullNode viewCache.cachedEventSnap.indexedNode (.ofNode newNode self.filter.index)

/-- The new event cache of `revertUserWriteOn` at or below a child. -/
def eventCacheAfterRevertAtChild (viewCache : FViewCache K V) (childKey : K) (affectedPath : FPath K)
    (source : FCompleteChildSource K V) : FIndexedNode K V × List (FChange K V) :=
  let oldEventCache := viewCache.cachedEventSnap.indexedNode
  let newChild :=
    match writesCache.calculateCompleteChild childKey viewCache.cachedServerSnap with
    | some newChild => some newChild
    | none =>
        if viewCache.cachedServerSnap.isCompleteForChild childKey then
          some (oldEventCache.node.getImmediateChild childKey)
        else none
  let newEventCache :=
    match newChild with
    | some newChild =>
        self.filter.updateChildIn oldEventCache childKey newChild affectedPath source
    | none =>
        if viewCache.cachedEventSnap.node.hasChild childKey then
          self.filter.updateChildIn oldEventCache childKey .empty affectedPath source
        else (oldEventCache, [])
  if newEventCache.1.node.isEmpty && viewCache.cachedServerSnap.isFullyInitialized then
    match writesCache.calculateCompleteEventCache viewCache.completeServerSnap with
    | some complete =>
        if complete.isLeafNode then
          let reverted := self.filter.updateFullNode newEventCache.1 (.ofNodeByPriority complete)
          (reverted.1, newEventCache.2 ++ reverted.2)
        else newEventCache
    | none => newEventCache
  else newEventCache

def revertUserWriteOn (viewCache : FViewCache K V) (path : FPath K)
    (completeCache : Option (FNode K V)) (accumulator : FChildChangeAccumulator K V) :
    FViewCache K V × FChildChangeAccumulator K V :=
  if (writesCache.shadowingWriteAtPath path).isSome then (viewCache, accumulator)
  else
    let source := writesCache.completeChildSource viewCache completeCache
    let newEventCache :=
      match path with
      | [] => self.eventCacheAfterRevertAtRoot writesCache viewCache
      | childKey :: affectedPath =>
          if childKey = DatabaseKey.priority then
            self.eventCacheAfterRevertAtRoot writesCache viewCache
          else
            self.eventCacheAfterRevertAtChild writesCache viewCache childKey affectedPath source
    let complete := viewCache.cachedServerSnap.isFullyInitialized ||
      (writesCache.shadowingWriteAtPath []).isSome
    (viewCache.updateEventSnap newEventCache.1 complete self.filter.filtersNodes,
      accumulator.track newEventCache.2)

/-- `listenCompleteOldCache` -/
def listenComplete (viewCache : FViewCache K V) (path : FPath K)
    (accumulator : FChildChangeAccumulator K V) : FViewCache K V × FChildChangeAccumulator K V :=
  let oldServerNode := viewCache.cachedServerSnap
  let newViewCache := viewCache.updateServerSnap oldServerNode.indexedNode
    (oldServerNode.isFullyInitialized || path.isEmpty) oldServerNode.isFiltered
  self.generateEventCacheAfterServerEvent writesCache newViewCache path .noCompleteChildSource accumulator

/-- The view cache and the tracked changes after an operation. -/
def processOperation (oldViewCache : FViewCache K V) (operation : FOperation K V Q)
    (completeCache : Option (FNode K V)) : FViewCache K V × FChildChangeAccumulator K V :=
  match operation.type with
  | .overwrite snap =>
      if operation.source.fromUser then
        self.applyUserOverwriteTo writesCache oldViewCache operation.path snap completeCache .initial
      else
        let filterServerNode := operation.source.isTagged ||
          (oldViewCache.cachedServerSnap.isFiltered && !operation.path.isEmpty)
        self.applyServerOverwriteTo writesCache oldViewCache operation.path snap completeCache
          filterServerNode .initial
  | .merge children =>
      if operation.source.fromUser then
        self.applyUserMergeTo writesCache oldViewCache operation.path children completeCache .initial
      else
        let filterServerNode :=
          operation.source.isTagged || oldViewCache.cachedServerSnap.isFiltered
        self.applyServerMergeTo writesCache oldViewCache operation.path children completeCache
          filterServerNode .initial
  | .ackUserWrite affectedTree revert =>
      if !revert then
        self.ackUserWriteOn writesCache oldViewCache operation.path affectedTree completeCache .initial
      else self.revertUserWriteOn writesCache oldViewCache operation.path completeCache .initial
  | .listenComplete => self.listenComplete writesCache oldViewCache operation.path .initial

/-- `maybeAddValueFromOldViewCache` -/
def maybeAddValue (oldViewCache newViewCache : FViewCache K V) (changes : List (FChange K V)) :
    List (FChange K V) :=
  let eventSnap := newViewCache.cachedEventSnap
  let isLeafOrEmpty := eventSnap.node.isLeafNode || eventSnap.node.isEmpty
  if eventSnap.isFullyInitialized ∧
      (changes ≠ [] ∨ oldViewCache.cachedEventSnap.isFullyInitialized = false ∨
        (isLeafOrEmpty = true ∧ some eventSnap.node ≠ oldViewCache.completeEventSnap) ∨
        some eventSnap.node.getPriority ≠ oldViewCache.completeEventSnap.map FNode.getPriority) then
    changes ++ [⟨.value, eventSnap.indexedNode, none, none, none⟩]
  else changes

/-- There is no result where the program stops. -/
def applyOperationOn (oldViewCache : FViewCache K V) (operation : FOperation K V Q)
    (completeCache : Option (FNode K V)) : Option (FViewProcessorResult K V) :=
  let (newViewCache, accumulator) :=
    self.processOperation writesCache oldViewCache operation completeCache
  if accumulator.trapped then none
  else some ⟨newViewCache, maybeAddValue oldViewCache newViewCache accumulator.changes⟩

end FViewProcessor

end FirebaseSwift.Database
