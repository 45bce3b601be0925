import FirebaseSwift.Database.View
import FirebaseSwift.Library.Doubles
import Mathlib.Data.List.Sort

/-! The manager of the tracked queries. For every path it keeps the tracked queries by their parameters
in memory, and it writes every change through to the storage, which has one record for each id. A
restart makes a new manager from what the storage loads, in any order. Times are numbers of a clock. The
dictionaries of the source have no order; here the last entry that was set comes first. -/

namespace FirebaseSwift.Database

open SortedDictionary

variable {K V : Type} [DatabaseKey K]

/-! ### Tracked queries -/

structure FTrackedQuery (K V : Type) [DatabaseKey K] where
  queryId : Int
  query : FQuerySpec K V
  lastUse : Int
  isActive : Bool
  isComplete : Bool

namespace FTrackedQuery

/-- `FTrackedQuery(id:query:lastUse:isActive:)` -/
def ofQuery (queryId : Int) (query : FQuerySpec K V) (lastUse : Int) (isActive : Bool) :
    FTrackedQuery K V :=
  ⟨queryId, query, lastUse, isActive, false⟩

def updateLastUse (self : FTrackedQuery K V) (lastUse : Int) : FTrackedQuery K V :=
  ⟨self.queryId, self.query, lastUse, self.isActive, self.isComplete⟩

def setComplete (self : FTrackedQuery K V) : FTrackedQuery K V :=
  ⟨self.queryId, self.query, self.lastUse, self.isActive, true⟩

/-- The query is complete afterwards, whatever it was before. -/
def setActiveState (self : FTrackedQuery K V) (isActive : Bool) : FTrackedQuery K V :=
  ⟨self.queryId, self.query, self.lastUse, isActive, true⟩

end FTrackedQuery

/-! ### Prune forests -/

structure FPruneForest (K : Type) [DatabaseKey K] where
  pruneForest : FImmutableTree K Bool

namespace FPruneForest

def empty : FPruneForest K := ⟨.empty⟩

def prunesAnything (self : FPruneForest K) : Bool := self.pruneForest.forEach.any fun found => found.2

def kPruneTree : FImmutableTree K Bool := .ofValue (some true)

def kKeepTree : FImmutableTree K Bool := .ofValue (some false)

/-- There is no result where the program stops, at a path that is kept. -/
def prunePath (self : FPruneForest K) (path : FPath K) : Option (FPruneForest K) :=
  if (self.pruneForest.findRootMost (fun value => !value) path).isSome then none
  else if (self.pruneForest.findRootMost id path).isSome then some self
  else some ⟨FImmutableTree.setTree kPruneTree path self.pruneForest⟩

def keepPath (self : FPruneForest K) (path : FPath K) : FPruneForest K :=
  if (self.pruneForest.findRootMost (fun value => !value) path).isSome then self
  else ⟨FImmutableTree.setTree kKeepTree path self.pruneForest⟩

end FPruneForest

structure FCachePolicy where
  shouldPruneCache : Int → Int → Bool
  shouldCheckCacheSize : Int → Bool
  percentOfQueriesToPruneAtOnce : ℚ
  maxNumberOfQueriesToKeep : Int

/-! ### The manager -/

/-- `storage` are the tracked queries of the storage engine, by id. -/
structure FTrackedQueryManager (K V : Type) [DatabaseKey K] where
  storage : List (Int × FTrackedQuery K V)
  trackedQueryTree : FImmutableTree K (List (FQueryParams K V × FTrackedQuery K V))
  currentQueryId : Int

namespace FTrackedQueryManager

variable [DatabaseValue V]

def normalizeQuery (query : FQuerySpec K V) : FQuerySpec K V :=
  if query.loadsAllData then .defaultQueryAtPath query.path else query

def findTrackedQuery (self : FTrackedQueryManager K V) (query : FQuerySpec K V) :
    Option (FTrackedQuery K V) :=
  (self.trackedQueryTree.valueAt (normalizeQuery query).path).bind fun set =>
    get (normalizeQuery query).params set

/-- `storageEngine.saveTrackedQuery(_:)` -/
def saveTrackedQuery (self : FTrackedQueryManager K V) (query : FTrackedQuery K V) :
    FTrackedQueryManager K V :=
  { self with storage := set (· < ·) query.queryId query self.storage }

def cacheTrackedQuery (self : FTrackedQueryManager K V) (query : FTrackedQuery K V) :
    FTrackedQueryManager K V :=
  let trackedDict := (self.trackedQueryTree.valueAt query.query.path).getD []
  { self with
    trackedQueryTree := self.trackedQueryTree.setValue
      (some ((query.query.params, query) :: remove query.query.params trackedDict)) query.query.path }

/-- All tracked queries in memory, as `forEach` visits them. -/
def trackedQueries (self : FTrackedQueryManager K V) : List (FTrackedQuery K V) :=
  self.trackedQueryTree.forEach.flatMap fun found => found.2.map Prod.snd

/-- One query of the storage in the loop of `init`. -/
def loadTrackedQuery (lastUse : Int) (self : FTrackedQueryManager K V)
    (trackedQuery : FTrackedQuery K V) : FTrackedQueryManager K V :=
  let self := { self with currentQueryId := max trackedQuery.queryId self.currentQueryId }
  if trackedQuery.isActive then
    let newQuery := (trackedQuery.setActiveState false).updateLastUse lastUse
    (self.saveTrackedQuery newQuery).cacheTrackedQuery newQuery
  else self.cacheTrackedQuery trackedQuery

/-- `FTrackedQueryManager(storageEngine:clock:)`, where the storage engine loads the given queries. -/
def ofStorage (storage : List (Int × FTrackedQuery K V)) (trackedQueries : List (FTrackedQuery K V))
    (lastUse : Int) : FTrackedQueryManager K V :=
  trackedQueries.foldl (loadTrackedQuery lastUse) ⟨storage, .empty, 0⟩

/-- A query that is not tracked is left alone. -/
def removeTrackedQuery (self : FTrackedQueryManager K V) (query : FQuerySpec K V) :
    FTrackedQueryManager K V :=
  match self.findTrackedQuery query with
  | none => self
  | some trackedQuery =>
      let trackedQueries := (self.trackedQueryTree.valueAt (normalizeQuery query).path).getD []
      { self with
        trackedQueryTree := self.trackedQueryTree.setValue
          (some (remove (normalizeQuery query).params trackedQueries)) (normalizeQuery query).path
        storage := remove trackedQuery.queryId self.storage }

def setQueryComplete (self : FTrackedQueryManager K V) (query : FQuerySpec K V) :
    FTrackedQueryManager K V :=
  match self.findTrackedQuery query with
  | none => self
  | some trackedQuery =>
      if trackedQuery.isComplete then self
      else (self.saveTrackedQuery trackedQuery.setComplete).cacheTrackedQuery trackedQuery.setComplete

/-- One tracked query in the loop of `setQueriesCompleteAtPath`. -/
def completeTrackedQuery (self : FTrackedQueryManager K V) (trackedQuery : FTrackedQuery K V) :
    FTrackedQueryManager K V :=
  if !trackedQuery.isComplete then
    (self.saveTrackedQuery trackedQuery.setComplete).cacheTrackedQuery trackedQuery.setComplete
  else self

def setQueriesCompleteAtPath (self : FTrackedQueryManager K V) (path : FPath K) :
    FTrackedQueryManager K V :=
  ((self.trackedQueryTree.subtree path).forEach.flatMap fun found => found.2.map Prod.snd).foldl
    completeTrackedQuery self

/-- `setQueryActive(_:isActive:)` -/
def setQueryActiveState (self : FTrackedQueryManager K V) (query : FQuerySpec K V) (isActive : Bool)
    (lastUse : Int) : FTrackedQueryManager K V :=
  match self.findTrackedQuery query with
  | some trackedQuery =>
      let resultingQuery := (trackedQuery.updateLastUse lastUse).setActiveState isActive
      (self.saveTrackedQuery resultingQuery).cacheTrackedQuery resultingQuery
  | none =>
      let resultingQuery :=
        FTrackedQuery.ofQuery self.currentQueryId (normalizeQuery query) lastUse isActive
      ({ self with currentQueryId := self.currentQueryId + 1 }.saveTrackedQuery
        resultingQuery).cacheTrackedQuery resultingQuery

def setQueryActive (self : FTrackedQueryManager K V) (query : FQuerySpec K V) (lastUse : Int) :
    FTrackedQueryManager K V :=
  self.setQueryActiveState query true lastUse

def setQueryInactive (self : FTrackedQueryManager K V) (query : FQuerySpec K V) (lastUse : Int) :
    FTrackedQueryManager K V :=
  self.setQueryActiveState query false lastUse

def isIncludedInDefaultCompleteQuery (self : FTrackedQueryManager K V) (query : FQuerySpec K V) : Bool :=
  (self.trackedQueryTree.findRootMost
    (fun trackedQueries => ((get .defaultInstance trackedQueries).map FTrackedQuery.isComplete).getD false)
    query.path).isSome

def ensureCompleteTrackedQueryAtPath (self : FTrackedQueryManager K V) (path : FPath K)
    (currentTime : Int) : FTrackedQueryManager K V :=
  let query := .defaultQueryAtPath path
  if !self.isIncludedInDefaultCompleteQuery query then
    match self.findTrackedQuery query with
    | some trackedQuery =>
        (self.saveTrackedQuery trackedQuery.setComplete).cacheTrackedQuery trackedQuery.setComplete
    | none =>
        let resultingQuery := ⟨self.currentQueryId, query, currentTime, false, true⟩
        ({ self with currentQueryId := self.currentQueryId + 1 }.saveTrackedQuery
          resultingQuery).cacheTrackedQuery resultingQuery
  else self

/-! ### Pruning -/

def numberOfPrunableQueries (self : FTrackedQueryManager K V) : Int :=
  ((self.trackedQueries.filter fun trackedQuery => !trackedQuery.isActive).length : Nat)

/-- There is no result where the program stops: at a percentage that is no integer, or where the difference
is none. -/
def numberOfQueriesToPrune (cachePolicy : FCachePolicy) (numPrunable : Nat) : Option Int := do
  let numPercent ← Doubles.toInt
    (Doubles.round (Doubles.round numPrunable * cachePolicy.percentOfQueriesToPruneAtOnce))
  let maxToKeep := cachePolicy.maxNumberOfQueriesToKeep
  let numMax ←
    if numPrunable > maxToKeep then
      if numPrunable - maxToKeep < 2 ^ 63 then some (numPrunable - maxToKeep) else none
    else some 0
  some (min (max numMax numPercent) numPrunable)

/-- The tracked queries that are not active, those that were used least recently first. -/
def prunableQueries (self : FTrackedQueryManager K V) : List (FTrackedQuery K V) :=
  (self.trackedQueries.filter fun trackedQuery => !trackedQuery.isActive).mergeSort
    fun query query' => query.lastUse ≤ query'.lastUse

/-- There is no result where the program stops. -/
def pruneOldQueries (self : FTrackedQueryManager K V) (cachePolicy : FCachePolicy) :
    Option (FTrackedQueryManager K V × FPruneForest K) :=
  let prunableQueries := self.prunableQueries
  let unprunableQueries := self.trackedQueries.filter fun trackedQuery => trackedQuery.isActive
  (numberOfQueriesToPrune cachePolicy prunableQueries.length).bind fun numToPrune =>
  if numToPrune < 0 then none
  else
    let toPrune := prunableQueries.take numToPrune.toNat
    let toKeep := prunableQueries.drop numToPrune.toNat ++ unprunableQueries
    (toPrune.foldlM (fun (forest : FPruneForest K) trackedQuery => forest.prunePath trackedQuery.query.path)
      FPruneForest.empty).map fun forest =>
        (toPrune.foldl (fun self trackedQuery => self.removeTrackedQuery trackedQuery.query) self,
          toKeep.foldl (fun forest trackedQuery => forest.keepPath trackedQuery.query.path) forest)

end FTrackedQueryManager

end FirebaseSwift.Database
