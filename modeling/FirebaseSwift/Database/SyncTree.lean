import FirebaseSwift.Database.View

/-! The sync tree. It has a sync point at every path with a view, and the tree of the pending writes.
Operations go to all sync points that they concern. When registrations come and go it keeps the listens
of the connection: a complete view shadows all listens at and below its path. The calls to the listen
provider are kept as a log. What persistence has for a query is a parameter. -/

namespace FirebaseSwift.Database

open FImmutableTree

variable {K V Q : Type} [DatabaseKey K]

/-! ### Operations -/

namespace FOperation

def overwrite (source : FOperationSource Q) (path : FPath K) (snap : FNode K V) : FOperation K V Q :=
  ⟨source, path, .overwrite snap⟩

def merge (source : FOperationSource Q) (path : FPath K) (children : FCompoundWrite K V) :
    FOperation K V Q :=
  ⟨source, path, .merge children⟩

def ackUserWrite (path : FPath K) (affectedTree : FImmutableTree K Bool) (revert : Bool) :
    FOperation K V Q :=
  ⟨.user, path, .ackUserWrite affectedTree revert⟩

/-- The source of the operation is the user's, whatever the parameter is. -/
def listenComplete (_source : FOperationSource Q) (path : FPath K) : FOperation K V Q :=
  ⟨.user, path, .listenComplete⟩

def operationForChild (self : FOperation K V Q) (childKey : K) : Option (FOperation K V Q) :=
  match self.type with
  | .overwrite snap =>
      if self.path.isEmpty then some (overwrite self.source [] (snap.getImmediateChild childKey))
      else some (overwrite self.source self.path.popFront snap)
  | .merge children =>
      if self.path.isEmpty then
        let childTree := children.childCompoundWriteAtPath [childKey]
        if childTree.isEmpty then none
        else
          match childTree.rootWrite with
          | some rootWrite => some (overwrite self.source [] rootWrite)
          | none => some (merge self.source [] childTree)
      else some (merge self.source self.path.popFront children)
  | .ackUserWrite affectedTree revert =>
      if !self.path.isEmpty then some (ackUserWrite self.path.popFront affectedTree revert)
      else if affectedTree.value.isSome then some self
      else some (ackUserWrite [] (affectedTree.subtree [childKey]) revert)
  | .listenComplete =>
      if self.path.isEmpty then some (listenComplete self.source [])
      else some (listenComplete self.source self.path.popFront)

end FOperation

def FWriteTreeRef.childWriteTreeRef (self : FWriteTreeRef K V) (childKey : K) : FWriteTreeRef K V :=
  ⟨self.path.childFromString childKey, self.writeTree⟩

section Apply

variable [DatabaseValue V] [QueryFilters K V]

abbrev FSyncPointTree (K V : Type) [DatabaseKey K] := FImmutableTree K (FSyncPoint K V)

/-- The server cache that a sync point passes on: the one from above, or else its own. -/
def resolveServerCache (serverCache : Option (FNode K V)) (syncPoint : Option (FSyncPoint K V)) :
    Option (FNode K V) :=
  match serverCache with
  | some serverCache => some serverCache
  | none => syncPoint.bind fun syncPoint => syncPoint.completeServerCacheAtPath []

/-- The sync point of one tree node after an operation. -/
def applyOperationToSyncPoint (operation : FOperation K V (FQueryParams K V))
    (writesCache : FWriteTreeRef K V) (serverCache : Option (FNode K V)) :
    Option (FSyncPoint K V) → Option (Option (FSyncPoint K V))
  | none => some none
  | some syncPoint => (syncPoint.applyOperation operation writesCache serverCache).map some

mutual

/-- The tree after an operation at its root. There is no result where the program stops. -/
def applyOperationDescendantsHelper (operation : FOperation K V (FQueryParams K V))
    (serverCache : Option (FNode K V)) (writesCache : FWriteTreeRef K V) :
    FSyncPointTree K V → Option (FSyncPointTree K V)
  | .node syncPoint children => do
      let resolvedServerCache := resolveServerCache serverCache syncPoint
      let newChildren ← applyOperationToChildTrees operation resolvedServerCache writesCache children
      let newSyncPoint ← applyOperationToSyncPoint operation writesCache resolvedServerCache syncPoint
      return .node newSyncPoint newChildren

def applyOperationToChildTrees (operation : FOperation K V (FQueryParams K V))
    (serverCache : Option (FNode K V)) (writesCache : FWriteTreeRef K V) :
    List (K × FSyncPointTree K V) → Option (List (K × FSyncPointTree K V))
  | [] => some []
  | (childKey, childTree) :: rest => do
      let newChildTree ←
        match operation.operationForChild childKey with
        | some childOperation =>
            applyOperationDescendantsHelper childOperation
              (serverCache.map fun serverCache => serverCache.getImmediateChild childKey)
              (writesCache.childWriteTreeRef childKey) childTree
        | none => some childTree
      let newRest ← applyOperationToChildTrees operation serverCache writesCache rest
      return (childKey, newChildTree) :: newRest

end

/-- The recursion is on the path of the operation. -/
def applyOperationHelper : FPath K → FOperation K V (FQueryParams K V) → FSyncPointTree K V →
    Option (FNode K V) → FWriteTreeRef K V → Option (FSyncPointTree K V)
  | [], operation, syncPointTree, serverCache, writesCache =>
      applyOperationDescendantsHelper operation serverCache writesCache syncPointTree
  | childKey :: rest, operation, syncPointTree, serverCache, writesCache => do
      let resolvedServerCache := resolveServerCache serverCache syncPointTree.value
      let newChildren ←
        match SortedDictionary.get childKey syncPointTree.children,
          operation.operationForChild childKey with
        | some childTree, some childOperation => do
            let newChildTree ← applyOperationHelper rest childOperation childTree
              (resolvedServerCache.map fun serverCache => serverCache.getImmediateChild childKey)
              (writesCache.childWriteTreeRef childKey)
            pure (SortedDictionary.set (· < ·) childKey newChildTree syncPointTree.children)
        | _, _ => pure syncPointTree.children
      let newSyncPoint ←
        applyOperationToSyncPoint operation writesCache resolvedServerCache syncPointTree.value
      return .node newSyncPoint newChildren

end Apply

/-! ### The sync tree -/

/-- A call to the listen provider, with the query as the provider sees it and its tag. A listen that
the provider has ended itself is `ended`. -/
inductive ListenCall (K V : Type) [DatabaseKey K] where
  | startListening (query : FQuerySpec K V) (tagId : Option Int)
  | stopListening (query : FQuerySpec K V) (tagId : Option Int)
  | ended (query : FQuerySpec K V) (tagId : Option Int)

structure FSyncTree (K V : Type) [DatabaseKey K] where
  syncPointTree : FSyncPointTree K V
  pendingWriteTree : FWriteTree K V
  tagToQueryMap : Int → Option (FQuerySpec K V)
  queryToTagMap : FQuerySpec K V → Option Int
  queryTagCounter : Int
  listenCalls : List (ListenCall K V)

namespace FSyncTree

/-- `FSyncTree(persistenceManager:listenProvider:)` -/
def initial : FSyncTree K V := ⟨FImmutableTree.empty, .initial, fun _ => none, fun _ => none, 1, []⟩

section Operations

variable [DatabaseValue V] [QueryFilters K V]

def applyOperationToSyncPoints (self : FSyncTree K V) (operation : FOperation K V (FQueryParams K V)) :
    Option (FSyncTree K V) :=
  (applyOperationHelper operation.path operation self.syncPointTree none
    (self.pendingWriteTree.childWritesForPath [])).map fun syncPointTree =>
      { self with syncPointTree := syncPointTree }

def applyUserOverwriteAtPath (self : FSyncTree K V) (path : FPath K) (newData : FNode K V)
    (writeId : Int) (isVisible : Bool) : Option (FSyncTree K V) :=
  let recorded := { self with
    pendingWriteTree := self.pendingWriteTree.addOverwriteAtPath path newData writeId isVisible }
  if !isVisible then some recorded
  else recorded.applyOperationToSyncPoints (.overwrite .user path newData)

def applyUserMergeAtPath (self : FSyncTree K V) (path : FPath K) (changedChildren : FCompoundWrite K V)
    (writeId : Int) : Option (FSyncTree K V) :=
  let recorded := { self with
    pendingWriteTree := self.pendingWriteTree.addMergeAtPath path changedChildren writeId }
  recorded.applyOperationToSyncPoints (.merge .user path changedChildren)

/-- The tree of the paths that a record writes, below its path. -/
def affectedTreeOf (record : WriteRecordKind K V) : FImmutableTree K Bool :=
  match record with
  | .overwrite _ => FImmutableTree.setValue (some true) [] .empty
  | .merge merge =>
      merge.enumerateWrites.foldl
        (fun affectedTree write => FImmutableTree.setValue (some true) write.1 affectedTree) .empty

def ackUserWriteWithWriteId (self : FSyncTree K V) (writeId : Int) (revert : Bool) :
    Option (FSyncTree K V) :=
  match self.pendingWriteTree.writeForId writeId with
  | none => some self
  | some write =>
      let (pendingWriteTree, needToReevaluate) := self.pendingWriteTree.removeWriteId writeId
      let removed := { self with pendingWriteTree := pendingWriteTree }
      if !needToReevaluate then some removed
      else
        removed.applyOperationToSyncPoints
          (.ackUserWrite write.path (affectedTreeOf write.record) revert)

def applyServerOverwriteAtPath (self : FSyncTree K V) (path : FPath K) (newData : FNode K V) :
    Option (FSyncTree K V) :=
  self.applyOperationToSyncPoints (.overwrite (.server none) path newData)

def applyServerMergeAtPath (self : FSyncTree K V) (path : FPath K)
    (changedChildren : FCompoundWrite K V) : Option (FSyncTree K V) :=
  self.applyOperationToSyncPoints (.merge (.server none) path changedChildren)

def applyListenCompleteAtPath (self : FSyncTree K V) (path : FPath K) : Option (FSyncTree K V) :=
  self.applyOperationToSyncPoints (.listenComplete (.server none) path)

def applyTaggedOperation (self : FSyncTree K V) (operation : FOperation K V (FQueryParams K V))
    (path : FPath K) : Option (FSyncTree K V) :=
  match self.syncPointTree.valueAt path with
  | none => some self
  | some syncPoint =>
      (syncPoint.applyOperation operation (self.pendingWriteTree.childWritesForPath path) none).map
        fun syncPoint =>
          { self with syncPointTree := self.syncPointTree.setValue (some syncPoint) path }

/-- The tagged operations differ in the operation that they make from the relative path. -/
def applyToTaggedQuery (self : FSyncTree K V) (path : FPath K) (tagId : Int)
    (operation : FOperationSource (FQueryParams K V) → FPath K →
      FOperation K V (FQueryParams K V)) : Option (FSyncTree K V) :=
  match self.tagToQueryMap tagId with
  | none => some self
  | some query =>
      self.applyTaggedOperation
        (operation (.server (some query.params)) (FPath.relativePath query.path path)) query.path

def applyTaggedQueryOverwriteAtPath (self : FSyncTree K V) (path : FPath K) (newData : FNode K V)
    (tagId : Int) : Option (FSyncTree K V) :=
  self.applyToTaggedQuery path tagId fun source relativePath => .overwrite source relativePath newData

def applyTaggedQueryMergeAtPath (self : FSyncTree K V) (path : FPath K)
    (changedChildren : FCompoundWrite K V) (tagId : Int) : Option (FSyncTree K V) :=
  self.applyToTaggedQuery path tagId fun source relativePath =>
    .merge source relativePath changedChildren

def applyTaggedListenCompleteAtPath (self : FSyncTree K V) (path : FPath K) (tagId : Int) :
    Option (FSyncTree K V) :=
  self.applyToTaggedQuery path tagId .listenComplete

def removeAllWrites (self : FSyncTree K V) : Option (FSyncTree K V) :=
  let (pendingWriteTree, removedWrites) := self.pendingWriteTree.removeAllWrites
  let removed := { self with pendingWriteTree := pendingWriteTree }
  if !removedWrites.isEmpty then
    removed.applyOperationToSyncPoints
      (.ackUserWrite [] (FImmutableTree.setValue (some true) [] .empty) true)
  else some removed

end Operations

/-! ### Caches -/

section Caches

variable [DatabaseValue V]

/-- The block of `serverCacheForQuery` for one sync point on the path. -/
def visitServerCache (path pathToSyncPoint : FPath K) (syncPoint : FSyncPoint K V)
    (_ : Option (FNode K V)) : Option (FNode K V) × Bool :=
  let serverCacheNode := syncPoint.completeServerCacheAtPath (FPath.relativePath pathToSyncPoint path)
  (serverCacheNode, serverCacheNode.isNone)

/-- What is known of the children where no complete cache is held at or above the path. -/
def availableChildren (self : FSyncTree K V) (path : FPath K)
    (persistenceServerCache : Option (FCacheNode K V)) : FNode K V :=
  let fromSyncPoints := (self.syncPointTree.subtree path).children.foldl
    (fun (node : FNode K V) childTree =>
      match childTree.2.value.bind fun childSyncPoint => childSyncPoint.completeServerCacheAtPath [] with
      | some completeCache => node.updateImmediateChild childTree.1 completeCache
      | none => node) .empty
  match persistenceServerCache with
  | none => fromSyncPoints
  | some persisted =>
      persisted.node.enumerateChildren.foldl
        (fun node child =>
          if node.hasChild child.1 then node else node.updateImmediateChild child.1 child.2)
        fromSyncPoints

def serverCacheForQuery (self : FSyncTree K V) (query : FQuerySpec K V)
    (persistenceServerCache : Option (FCacheNode K V)) : FCacheNode K V :=
  match self.syncPointTree.forEachOn (visitServerCache query.path) query.path [] none with
  | some serverCacheNode => ⟨true, false, .ofNode serverCacheNode query.index⟩
  | none =>
      match persistenceServerCache.filter FCacheNode.isFullyInitialized with
      | some persisted => persisted
      | none =>
          ⟨false, false,
            .ofNode (self.availableChildren query.path persistenceServerCache) query.index⟩

def calcCompleteEventCacheAtPath (self : FSyncTree K V) (path : FPath K)
    (excludeWriteIds : List Int) : Option (FNode K V) :=
  let serverCache := FImmutableTree.find
    (fun pathSoFar (syncPoint : FSyncPoint K V) =>
      syncPoint.completeServerCacheAtPath (FPath.relativePath pathSoFar path))
    path [] self.syncPointTree
  self.pendingWriteTree.calculateCompleteEventCacheAtPath path serverCache (some excludeWriteIds) true

/-- The block of `getServerValue` for one sync point on the path. The state is the cache and the
target. -/
def visitEventCache (path pathToSyncPoint : FPath K) (syncPoint : FSyncPoint K V)
    (_ : Option (FNode K V) × Option (FSyncPoint K V)) :
    (Option (FNode K V) × Option (FSyncPoint K V)) × Bool :=
  let serverCacheNode := syncPoint.completeEventCacheAtPath (FPath.relativePath pathToSyncPoint path)
  ((serverCacheNode, some syncPoint), serverCacheNode.isNone)

variable [QueryFilters K V]

/-- The view of `getServerValue` for the target of the search. -/
def serverValueView (self : FSyncTree K V) (query : FQuerySpec K V) (target : FSyncPoint K V)
    (serverCacheNode : Option (FNode K V)) : FView K V :=
  target.getView query (self.pendingWriteTree.childWritesForPath query.path)
    ⟨serverCacheNode.isSome, false, .ofNode (serverCacheNode.getD .empty) query.index⟩

def getServerValue (self : FSyncTree K V) (query : FQuerySpec K V) : FSyncTree K V × Option (FNode K V) :=
  match self.syncPointTree.forEachOn (visitEventCache query.path) query.path [] (none, none) with
  | (serverCacheNode, some targetSyncPoint) =>
      (self, (self.serverValueView query targetSyncPoint
        (serverCacheNode.or (targetSyncPoint.completeServerCacheAtPath []))).completeEventCache)
  | (serverCacheNode, none) =>
      ({ self with syncPointTree := self.syncPointTree.setValue (some .empty) query.path },
        (self.serverValueView query .empty serverCacheNode).completeEventCache)

end Caches

/-! ### Registrations and listens -/

section Registrations

variable [DatabaseValue V]

def queryForListening (query : FQuerySpec K V) : FQuerySpec K V :=
  if query.loadsAllData && !query.isDefault then .defaultQueryAtPath query.path else query

/-- `tag(for:)` -/
def tagFor (self : FSyncTree K V) (query : FQuerySpec K V) : Option Int := self.queryToTagMap query

def startListening (self : FSyncTree K V) (query : FQuerySpec K V) : FSyncTree K V :=
  { self with
    listenCalls := self.listenCalls ++ [.startListening (queryForListening query) (self.tagFor query)] }

def stopListening (self : FSyncTree K V) (query : FQuerySpec K V) : FSyncTree K V :=
  { self with
    listenCalls := self.listenCalls ++ [.stopListening (queryForListening query) (self.tagFor query)] }

/-- The block of the fold in `setupListenerOnQuery`. -/
def queriesToStopBlock (relativePath : FPath K) (maybeChildSyncPoint : Option (FSyncPoint K V))
    (childMap : List (K × List (FQuerySpec K V))) : List (FQuerySpec K V) :=
  match (maybeChildSyncPoint.bind FSyncPoint.completeView).filter fun _ => !relativePath.isEmpty with
  | some completeView => [completeView.query]
  | none =>
      ((maybeChildSyncPoint.map FSyncPoint.queryViews).getD []).map FView.query ++
        childMap.flatMap Prod.snd

def setupListenerOnQuery (self : FSyncTree K V) (query : FQuerySpec K V) : FSyncTree K V :=
  let started := self.startListening query
  if (self.tagFor query).isSome then started
  else
    let queriesToStop := (self.syncPointTree.subtree query.path).fold queriesToStopBlock []
    queriesToStop.foldl stopListening started

/-- Whether a sync point at or above the path has a complete view. -/
def foundAncestorDefaultView (self : FSyncTree K V) (path : FPath K) : Bool :=
  self.syncPointTree.forEachOn
    (fun _ (syncPoint : FSyncPoint K V) found =>
      (found || syncPoint.hasCompleteView, !(found || syncPoint.hasCompleteView)))
    path [] false

/-- The tags after a view for the query was missing. -/
def addTag (self : FSyncTree K V) (query : FQuerySpec K V) : FSyncTree K V :=
  if query.loadsAllData then self
  else
    { self with
      queryToTagMap := Function.update self.queryToTagMap query (some self.queryTagCounter)
      tagToQueryMap := Function.update self.tagToQueryMap self.queryTagCounter (some query)
      queryTagCounter := self.queryTagCounter + 1 }

variable [QueryFilters K V]

def addEventRegistration (self : FSyncTree K V) (eventRegistration : FEventRegistration)
    (query : FQuerySpec K V) (persistenceServerCache : Option (FCacheNode K V)) : FSyncTree K V :=
  let path := query.path
  let foundAncestorDefaultView := self.foundAncestorDefaultView path
  let syncPoint := (self.syncPointTree.valueAt path).getD .empty
  let withSyncPoint := { self with
    syncPointTree := self.syncPointTree.setValue (some syncPoint) path }
  let setSyncPoint := fun (self : FSyncTree K V) syncPoint => { self with
    syncPointTree := self.syncPointTree.setValue (some syncPoint) path }
  if syncPoint.viewExistsForQuery query then
    setSyncPoint withSyncPoint (syncPoint.addToExistingView eventRegistration query)
  else
    let tagged := withSyncPoint.addTag query
    let added := setSyncPoint tagged (syncPoint.addToNewView eventRegistration query
      (tagged.pendingWriteTree.childWritesForPath path)
      (tagged.serverCacheForQuery query persistenceServerCache))
    if !foundAncestorDefaultView then added.setupListenerOnQuery query else added

/-- The block of the fold in `collectDistinctViewsForSubTree`. -/
def distinctViewsBlock (_relativePath : FPath K) (maybeChildSyncPoint : Option (FSyncPoint K V))
    (childMap : List (K × List (FView K V))) : List (FView K V) :=
  match maybeChildSyncPoint.bind FSyncPoint.completeView with
  | some completeView => [completeView]
  | none => (maybeChildSyncPoint.map FSyncPoint.queryViews).getD [] ++ childMap.flatMap Prod.snd

def collectDistinctViewsForSubTree (subtree : FSyncPointTree K V) : List (FView K V) :=
  subtree.fold distinctViewsBlock []

def removeTags (self : FSyncTree K V) (queries : List (FQuerySpec K V)) : FSyncTree K V :=
  queries.foldl (fun self removedQuery =>
    if removedQuery.loadsAllData then self
    else
      match self.queryToTagMap removedQuery with
      | none => self
      | some removedQueryTag =>
          { self with
            queryToTagMap := Function.update self.queryToTagMap removedQuery none
            tagToQueryMap := Function.update self.tagToQueryMap removedQueryTag none }) self

/-- What a removal finds out about the first sync point on the path. -/
def covered (self : FSyncTree K V) (path : FPath K) : Bool :=
  (FImmutableTree.find (fun _ (syncPoint : FSyncPoint K V) => some syncPoint.hasCompleteView)
    path [] self.syncPointTree).getD false

/-- The listens after the removal of queries at a path: first those below start, then those of the
queries stop. -/
def updateListens (self : FSyncTree K V) (query : FQuerySpec K V) (removed : List (FQuerySpec K V))
    (cancelError : Bool) : FSyncTree K V :=
  let removingDefault := removed.any fun removedQuery => removedQuery.loadsAllData
  let covered := self.covered query.path
  let started :=
    if removingDefault && !covered then
      (collectDistinctViewsForSubTree (self.syncPointTree.subtree query.path)).foldl
        (fun self view => self.startListening view.query) self
    else self
  if !covered && !removed.isEmpty && !cancelError then
    if removingDefault then
      { started with
        listenCalls := started.listenCalls ++ [.stopListening (queryForListening query) none] }
    else removed.foldl stopListening started
  else started

/-- There is no result where the program stops. -/
def removeEventRegistration (self : FSyncTree K V) (matcher : FEventRegistrationMatcher)
    (query : FQuerySpec K V) (cancelError : Bool) : Option (FSyncTree K V) :=
  let path := query.path
  match (self.syncPointTree.valueAt path).filter
      fun syncPoint => query.isDefault || syncPoint.viewExistsForQuery query with
  | none => some self
  | some syncPoint =>
      (syncPoint.removeEventRegistration matcher query cancelError).map fun (syncPoint, removed) =>
        let withoutViews := { self with
          syncPointTree :=
            if syncPoint.isEmpty then self.syncPointTree.removeValue path
            else self.syncPointTree.setValue (some syncPoint) path }
        (withoutViews.updateListens query removed cancelError).removeTags removed

end Registrations

end FSyncTree

end FirebaseSwift.Database
