import FirebaseSwift.Database.ViewProcessor

/-! Queries, views and sync points. A query is a path with parameters: an index, a limit, and a start
and an end. A view holds the caches of one query and the event registrations on it. A sync point holds
the views of all queries at one path. The order of its dictionary is unspecified in the source; here
it is the order of the list. -/

namespace FirebaseSwift.Database

variable {K V : Type} [DatabaseKey K]

/-! ### Queries -/

/-- Query parameters up to their `==`. With a limit they have its direction `isViewFromLeft`; without
one the direction follows from the start. -/
@[ext]
structure FQueryParams (K V : Type) [DatabaseKey K] where
  index : FIndex K
  limit : Option (Int × Bool)
  indexStart : Option (FNode K V × Option K)
  indexEnd : Option (FNode K V × Option K)

namespace FQueryParams

instance [DatabaseValue V] : DecidableEq (FQueryParams K V) := fun params params' =>
  decidable_of_iff (params.index = params'.index ∧ params.limit = params'.limit ∧
    params.indexStart = params'.indexStart ∧ params.indexEnd = params'.indexEnd) FQueryParams.ext_iff.symm

def defaultInstance : FQueryParams K V := ⟨.priority, none, none, none⟩

def loadsAllData (params : FQueryParams K V) : Bool :=
  !(params.indexStart.isSome || params.indexEnd.isSome || params.limit.isSome)

def isDefault (params : FQueryParams K V) : Bool :=
  params.loadsAllData && decide (params.index = .priority)

theorem isDefault_iff {params : FQueryParams K V} : params.isDefault = true ↔ params = defaultInstance := by
  obtain ⟨index, limit, indexStart, indexEnd⟩ := params
  cases limit <;> cases indexStart <;> cases indexEnd <;>
    simp [isDefault, loadsAllData, defaultInstance]

end FQueryParams

/-- The filters of the queries that do not load all data, by ranges and limits. -/
class QueryFilters (K V : Type) [DatabaseKey K] where
  filterOf : FQueryParams K V → FNodeFilter K V

def FQueryParams.nodeFilter [DatabaseValue V] [QueryFilters K V] (params : FQueryParams K V) :
    FNodeFilter K V :=
  if params.loadsAllData then FIndexedFilter.ofIndex params.index else QueryFilters.filterOf params

@[ext]
structure FQuerySpec (K V : Type) [DatabaseKey K] where
  path : FPath K
  params : FQueryParams K V

namespace FQuerySpec

instance [DatabaseValue V] : DecidableEq (FQuerySpec K V) := fun query query' =>
  decidable_of_iff (query.path = query'.path ∧ query.params = query'.params) FQuerySpec.ext_iff.symm

def defaultQueryAtPath (path : FPath K) : FQuerySpec K V := ⟨path, .defaultInstance⟩

def index (query : FQuerySpec K V) : FIndex K := query.params.index

def isDefault (query : FQuerySpec K V) : Bool := query.params.isDefault

def loadsAllData (query : FQuerySpec K V) : Bool := query.params.loadsAllData

end FQuerySpec

/-! ### Views -/

inductive FEventRegistration where
  | handle (value : Nat)
  | keepSynced
  deriving DecidableEq

inductive FEventRegistrationMatcher where
  | handle (value : Nat)
  | all
  | keepSynced
  | allRegular
  deriving DecidableEq

def FEventRegistration.matches (registration : FEventRegistration) : FEventRegistrationMatcher → Bool
  | .all => true
  | .handle other =>
      match registration with
      | .handle value => other == value
      | .keepSynced => false
  | .keepSynced => decide (registration = .keepSynced)
  | .allRegular => decide (registration ≠ .keepSynced)

structure FView (K V : Type) [DatabaseKey K] where
  query : FQuerySpec K V
  viewCache : FViewCache K V
  eventRegistrations : List FEventRegistration

namespace FView

variable [DatabaseValue V]

/-- `FView(query:initialViewCache:)` -/
def ofQuery [QueryFilters K V] (query : FQuerySpec K V) (initialViewCache : FViewCache K V) :
    FView K V :=
  let emptyIndexedNode := FIndexedNode.ofNode .empty query.index
  let indexFilter : FNodeFilter K V := FIndexedFilter.ofIndex query.index
  let filter := query.params.nodeFilter
  let serverSnap :=
    (indexFilter.updateFullNode emptyIndexedNode initialViewCache.cachedServerSnap.indexedNode).1
  let eventSnap :=
    (filter.updateFullNode emptyIndexedNode initialViewCache.cachedEventSnap.indexedNode).1
  ⟨query,
    ⟨⟨initialViewCache.cachedEventSnap.isFullyInitialized, filter.filtersNodes, eventSnap⟩,
      ⟨initialViewCache.cachedServerSnap.isFullyInitialized, indexFilter.filtersNodes, serverSnap⟩⟩,
    []⟩

/-- The part of a complete cache at a path. A filtered cache is complete for the children it has. -/
def partOfCache (view : FView K V) (cache : FNode K V) (path : FPath K) : Option (FNode K V) :=
  if view.query.loadsAllData then some (cache.getChild path)
  else
    match path.getFront with
    | some front =>
        if (cache.getImmediateChild front).isEmpty then none else some (cache.getChild path)
    | none => none

/-- `completeServerCache(for:)` -/
def completeServerCacheFor (view : FView K V) (path : FPath K) : Option (FNode K V) :=
  view.viewCache.completeServerSnap.bind fun cache => view.partOfCache cache path

/-- `completeEventCache(for:)` -/
def completeEventCacheFor (view : FView K V) (path : FPath K) : Option (FNode K V) :=
  view.viewCache.completeEventSnap.bind fun cache => view.partOfCache cache path

def completeEventCache (view : FView K V) : Option (FNode K V) := view.viewCache.completeEventSnap

def serverCache (view : FView K V) : FNode K V := view.viewCache.cachedServerSnap.node

def isEmpty (view : FView K V) : Bool := view.eventRegistrations.isEmpty

def addEventRegistration (view : FView K V) (registration : FEventRegistration) : FView K V :=
  { view with eventRegistrations := view.eventRegistrations ++ [registration] }

/-- With a cancel error every registration gets a cancel event. A registration that keeps data synced
has none, there the program stops. -/
def removeEventRegistration (view : FView K V) (matcher : FEventRegistrationMatcher)
    (cancelError : Bool) : Option (FView K V) :=
  if cancelError ∧ .keepSynced ∈ view.eventRegistrations then none
  else
    some { view with
      eventRegistrations := view.eventRegistrations.filter (fun existing => !existing.matches matcher) }

/-- There is no result where the program stops. -/
def applyOperation [QueryFilters K V] (view : FView K V)
    (operation : FOperation K V (FQueryParams K V)) (writesCache : FWriteTreeRef K V)
    (optCompleteServerCache : Option (FNode K V)) : Option (FView K V) :=
  ((FViewProcessor.mk view.query.params.nodeFilter).applyOperationOn writesCache view.viewCache
    operation optCompleteServerCache).map fun result => { view with viewCache := result.viewCache }

end FView

/-! ### Sync points -/

structure FSyncPoint (K V : Type) [DatabaseKey K] where
  views : List (FQueryParams K V × FView K V)

namespace FSyncPoint

variable [DatabaseValue V]

def empty : FSyncPoint K V := ⟨[]⟩

def isEmpty (self : FSyncPoint K V) : Bool := self.views.isEmpty

def viewFor (self : FSyncPoint K V) (params : FQueryParams K V) : Option (FView K V) :=
  SortedDictionary.get params self.views

/-- Every view is replaced in its place; a new one comes last. -/
def setView (self : FSyncPoint K V) (params : FQueryParams K V) (view : FView K V) : FSyncPoint K V :=
  if (self.viewFor params).isSome then
    ⟨self.views.map fun entry => if entry.1 = params then (params, view) else entry⟩
  else ⟨self.views ++ [(params, view)]⟩

def viewForQuery (self : FSyncPoint K V) (query : FQuerySpec K V) : Option (FView K V) :=
  self.viewFor query.params

def viewExistsForQuery (self : FSyncPoint K V) (query : FQuerySpec K V) : Bool :=
  (self.viewFor query.params).isSome

def completeView (self : FSyncPoint K V) : Option (FView K V) :=
  (self.views.find? fun entry => entry.2.query.loadsAllData).map Prod.snd

def hasCompleteView (self : FSyncPoint K V) : Bool := self.completeView.isSome

def queryViews (self : FSyncPoint K V) : List (FView K V) :=
  (self.views.map Prod.snd).filter fun view => !view.query.loadsAllData

def completeServerCacheAtPath (self : FSyncPoint K V) (path : FPath K) : Option (FNode K V) :=
  self.views.findSome? fun entry => entry.2.completeServerCacheFor path

def completeEventCacheAtPath (self : FSyncPoint K V) (path : FPath K) : Option (FNode K V) :=
  self.views.findSome? fun entry => entry.2.completeEventCacheFor path

variable [QueryFilters K V]

/-- `applyOperation(_:writesCache:serverCache:)`. There is no result where the program stops. -/
def applyOperation (self : FSyncPoint K V) (operation : FOperation K V (FQueryParams K V))
    (writesCache : FWriteTreeRef K V) (serverCache : Option (FNode K V)) : Option (FSyncPoint K V) :=
  match operation.source with
  | .server (some queryParams) =>
      match self.viewFor queryParams with
      | none => some self
      | some view =>
          (view.applyOperation operation writesCache serverCache).map (self.setView queryParams)
  | _ =>
      (self.views.mapM fun entry : FQueryParams K V × FView K V =>
        (entry.2.applyOperation operation writesCache serverCache).map fun view =>
          (entry.1, view)).map FSyncPoint.mk

def getView (self : FSyncPoint K V) (query : FQuerySpec K V) (writesCache : FWriteTreeRef K V)
    (serverCache : FCacheNode K V) : FView K V :=
  match self.viewFor query.params with
  | some view => view
  | none =>
      let calculated := writesCache.calculateCompleteEventCache
        (if serverCache.isFullyInitialized then some serverCache.node else none)
      let eventCache := calculated.getD
        (writesCache.calculateCompleteEventChildren (some serverCache.node))
      FView.ofQuery query
        ⟨⟨calculated.isSome, false, .ofNode eventCache query.index⟩, serverCache⟩

/-- `addEventRegistration(_:forExistingViewForQuery:)` -/
def addToExistingView (self : FSyncPoint K V) (registration : FEventRegistration)
    (query : FQuerySpec K V) : FSyncPoint K V :=
  match self.viewFor query.params with
  | none => self
  | some view => self.setView query.params (view.addEventRegistration registration)

/-- `addEventRegistration(_:forNonExistingViewForQuery:writesCache:serverCache:)` -/
def addToNewView (self : FSyncPoint K V) (registration : FEventRegistration) (query : FQuerySpec K V)
    (writesCache : FWriteTreeRef K V) (serverCache : FCacheNode K V) : FSyncPoint K V :=
  (self.setView query.params (self.getView query writesCache serverCache)).addToExistingView
    registration query

/-- The views that a removal reaches: all of them for the default query, else the one of the query. -/
def removalReaches (query : FQuerySpec K V) (params : FQueryParams K V) : Bool :=
  query.isDefault || decide (params = query.params)

/-- The removed queries are the result. There is none where the program stops. -/
def removeEventRegistration (self : FSyncPoint K V) (matcher : FEventRegistrationMatcher)
    (query : FQuerySpec K V) (cancelError : Bool) :
    Option (FSyncPoint K V × List (FQuerySpec K V)) :=
  (self.views.mapM fun entry : FQueryParams K V × FView K V =>
    if removalReaches query entry.1 then
      (entry.2.removeEventRegistration matcher cancelError).map fun view => (entry.1, view)
    else some entry).map fun views =>
      let gone := fun entry : FQueryParams K V × FView K V =>
        removalReaches query entry.1 && entry.2.isEmpty
      let remaining : FSyncPoint K V := ⟨views.filter fun entry => !gone entry⟩
      let removedQueries := (views.filter fun entry =>
        gone entry && !entry.2.query.loadsAllData).map fun entry => entry.2.query
      (remaining,
        if self.hasCompleteView && !remaining.hasCompleteView then
          removedQueries ++ [.defaultQueryAtPath query.path]
        else removedQueries)

end FSyncPoint

end FirebaseSwift.Database
