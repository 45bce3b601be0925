import FirebaseSwift.Database.NodeEquality
import FirebaseSwift.Database.StoredUserWrites
import FirebaseSwift.Database.View

/-! The parameters of a query with the text that they are sent and stored as. A query is stored with its path,
with when it was used last and with its parameters as a dictionary. Nothing is written for what has its
default, so what is read depends on which keys the dictionary has. -/

namespace FirebaseSwift.Database

open UnicodeStrings SortedDictionary FSnapshotUtilities

variable {K D : Type} [StringKey K]

/-! ### Indices as strings -/

namespace FIndex

def queryDefinition : FIndex K → List Char
  | .key => ".key".toList
  | .value => ".value".toList
  | .priority => ".priority".toList
  | .path indexPath => indexPath.wireFormat

def fromQueryDefinition (definition : List Char) : FIndex K :=
  if definition = ".key".toList then .key
  else if definition = ".value".toList then .value
  else if definition = ".priority".toList then .priority
  else .path (FPath.ofString definition)

end FIndex

/-! ### The parameters -/

def kFQPIndexStartValue : List Char := "sp".toList

def kFQPIndexStartName : List Char := "sn".toList

def kFQPIndexEndValue : List Char := "ep".toList

def kFQPIndexEndName : List Char := "en".toList

def kFQPLimit : List Char := "l".toList

def kFQPViewFrom : List Char := "vf".toList

def kFQPViewFromLeft : List Char := "l".toList

def kFQPViewFromRight : List Char := "r".toList

def kFQPIndex : List Char := "i".toList

structure QueryParams (K D : Type) [StringKey K] where
  limitSet : Bool
  limit : Int64
  viewFrom : Option (List Char)
  indexStartValue : Option (FNode K (LeafValue D))
  indexStartKey : Option K
  indexEndValue : Option (FNode K (LeafValue D))
  indexEndKey : Option K
  index : FIndex K

/-- What may be the start and the end of a query. -/
abbrev IndexValue (K D : Type) [StringKey K] :=
  { indexValue : FNode K (LeafValue D) // (indexValue.isLeafNode || indexValue.isEmpty) = true }

namespace QueryParams

def defaultInstance : QueryParams K D := ⟨false, 0, none, none, none, none, none, .priority⟩

def hasStart (params : QueryParams K D) : Bool := params.indexStartValue.isSome

def hasEnd (params : QueryParams K D) : Bool := params.indexEndValue.isSome

def isViewFromLeft (params : QueryParams K D) : Bool :=
  match params.viewFrom with
  | some viewFrom => decide (viewFrom = kFQPViewFromLeft)
  | none => params.hasStart

/-- `==`. The direction counts, not whether it was set. -/
structure IsEqual [DoubleType D] (params params' : QueryParams K D) : Prop where
  limitSet : params.limitSet = params'.limitSet
  limit : params.limit = params'.limit
  index : params.index = params'.index
  indexStartKey : params.indexStartKey = params'.indexStartKey
  indexStartValue : Option.Rel FNode.Same params.indexStartValue params'.indexStartValue
  indexEndKey : params.indexEndKey = params'.indexEndKey
  indexEndValue : Option.Rel FNode.Same params.indexEndValue params'.indexEndValue
  isViewFromLeft : params.isViewFromLeft = params'.isViewFromLeft

def limitTo (params : QueryParams K D) (limit : Int64) : QueryParams K D :=
  { params with limit := limit, limitSet := true, viewFrom := none }

def limitToFirst (params : QueryParams K D) (limit : Int64) : QueryParams K D :=
  { params with limit := limit, limitSet := true, viewFrom := some kFQPViewFromLeft }

def limitToLast (params : QueryParams K D) (limit : Int64) : QueryParams K D :=
  { params with limit := limit, limitSet := true, viewFrom := some kFQPViewFromRight }

def startAt (params : QueryParams K D) (indexValue : IndexValue K D) (childKey : Option K) : QueryParams K D :=
  { params with indexStartValue := some indexValue.val, indexStartKey := childKey }

def endAt (params : QueryParams K D) (indexValue : IndexValue K D) (childKey : Option K) : QueryParams K D :=
  { params with indexEndValue := some indexValue.val, indexEndKey := childKey }

def orderBy (params : QueryParams K D) (index : FIndex K) : QueryParams K D := { params with index := index }

end QueryParams

/-- A call of a builder -/
inductive ParamsBuilder (K D : Type) [StringKey K] where
  | limitTo (limit : Int64)
  | limitToFirst (limit : Int64)
  | limitToLast (limit : Int64)
  | startAt (indexValue : IndexValue K D) (childKey : Option K)
  | endAt (indexValue : IndexValue K D) (childKey : Option K)
  | orderBy (index : FIndex K)

namespace QueryParams

def build (params : QueryParams K D) : ParamsBuilder K D → QueryParams K D
  | .limitTo limit => params.limitTo limit
  | .limitToFirst limit => params.limitToFirst limit
  | .limitToLast limit => params.limitToLast limit
  | .startAt indexValue childKey => params.startAt indexValue childKey
  | .endAt indexValue childKey => params.endAt indexValue childKey
  | .orderBy index => params.orderBy index

/-- The parameters that the builders lead to. -/
def built (builders : List (ParamsBuilder K D)) : QueryParams K D := builders.foldl build defaultInstance

/-! ### The wire form -/

/-- The entries of a dictionary in which only some keys are set. -/
def presentEntries (fields : List (List Char × Option (PlainValue K D))) : List (List Char × PlainValue K D) :=
  fields.filterMap fun field => field.2.map fun value => (field.1, value)

/-- `viewFrom`, or the side that the start tells -/
def anchor (params : QueryParams K D) : List Char :=
  params.viewFrom.getD (if params.hasStart then kFQPViewFromLeft else kFQPViewFromRight)

/-- The fields after the values of the start and the end were converted -/
def wireFields (params : QueryParams K D) (startValue endValue : Option (PlainValue K D)) :
    List (List Char × Option (PlainValue K D)) :=
  [(kFQPIndexStartValue, startValue),
    (kFQPIndexStartName, params.indexStartKey.map fun key => .string (text key)),
    (kFQPIndexEndValue, endValue),
    (kFQPIndexEndName, params.indexEndKey.map fun key => .string (text key)),
    (kFQPLimit, if params.limitSet then some (.number (.int64 params.limit)) else none),
    (kFQPViewFrom, if params.limitSet then some (.string params.anchor) else none),
    (kFQPIndex, if params.index ≠ .priority then some (.string params.index.queryDefinition) else none)]

def exportedValue [UnicodeVersion] :
    Option (FNode K (LeafValue D)) → Except Trap (Option (PlainValue K D))
  | none => .ok none
  | some value => do
      let exported ← value.val true
      .ok (some exported)

def wireProtocolParams [UnicodeVersion] (params : QueryParams K D) :
    Except Trap (List (List Char × PlainValue K D)) := do
  let startValue ← exportedValue params.indexStartValue
  let endValue ← exportedValue params.indexEndValue
  .ok (presentEntries (params.wireFields startValue endValue))

variable [DoubleType D]

/-- The value and the key of the start or of the end. The key is read only beside a value. -/
def readEndpoint (valueKey nameKey : List Char) (dict : List (List Char × PlainValue K D)) :
    Option (Option (FNode K (LeafValue D)) × Option K) :=
  match get valueKey dict with
  | none => some (none, none)
  | some val => do
      let node ← nodeFrom 0 val
      some (some node, (get nameKey dict).bind fun name => (WriteField.value name).asString.bind ofText)

/-- There is no result for an unknown side. -/
def readViewFrom (dict : List (List Char × PlainValue K D)) : Option (Option (List Char)) :=
  match (get kFQPViewFrom dict).bind fun vf => (WriteField.value vf).asString with
  | none => some none
  | some vf => if vf ≠ kFQPViewFromLeft ∧ vf ≠ kFQPViewFromRight then none else some (some vf)

def readLimit (dict : List (List Char × PlainValue K D)) : Option Int64 :=
  (get kFQPLimit dict).bind fun val => (WriteField.value val).asInt

def readIndex (dict : List (List Char × PlainValue K D)) : FIndex K :=
  match (get kFQPIndex dict).bind fun index => (WriteField.value index).asString with
  | some index => FIndex.fromQueryDefinition index
  | none => .priority

/-- The parameters of a dictionary. There is no result where the program stops. -/
def fromQueryObject (dict : List (List Char × PlainValue K D)) : Option (QueryParams K D) :=
  if dict.length = 0 then some defaultInstance
  else do
    let indexStart ← readEndpoint kFQPIndexStartValue kFQPIndexStartName dict
    let indexEnd ← readEndpoint kFQPIndexEndValue kFQPIndexEndName dict
    let viewFrom ← readViewFrom dict
    some ⟨(readLimit dict).isSome, (readLimit dict).getD 0, viewFrom, indexStart.1, indexStart.2, indexEnd.1,
      indexEnd.2, readIndex dict⟩

end QueryParams

/-! ### What queries may be made -/

namespace FValidation

def invalidPathCharacters : List Char := "[].#$".toList

def isValidPathString (pathString : List Char) : Bool :=
  !pathString.isEmpty && pathString.all fun c => !invalidPathCharacters.contains c

end FValidation

/-- The index of `queryOrderedByChild(_:)`. There is none for a string that is refused. -/
def childIndex (indexPathString : List Char) : Option (FIndex K) :=
  if indexPathString = "$key".toList ∨ indexPathString = ".key".toList then none
  else if indexPathString = "$priority".toList ∨ indexPathString = ".priority".toList then none
  else if indexPathString = "$value".toList ∨ indexPathString = ".value".toList then none
  else if !FValidation.isValidPathString indexPathString then none
  else some (.path (FPath.ofString indexPathString))

/-- `validateIndexValueType(_:fromMethod:)` -/
def isIndexValueType : PlainValue K D → Bool
  | .null | .bool _ | .number _ | .string _ => true
  | .dictionary _ | .array _ => false

/-- The node of the start or the end of a query. There is none for a value that is refused. -/
def endpointNode [DoubleType D] (value : PlainValue K D) : Option (FNode K (LeafValue D)) :=
  if isIndexValueType value then nodeFrom 0 value else none

/-! ### Tracked queries -/

def kFTrackedQueryId : List Char := "id".toList

def kFTrackedQueryPath : List Char := "path".toList

def kFTrackedQueryParams : List Char := "p".toList

def kFTrackedQueryLastUse : List Char := "lu".toList

def kFTrackedQueryIsComplete : List Char := "c".toList

def kFTrackedQueryIsActive : List Char := "a".toList

def kFTrackedQueriesPrefix : List Char := "/tracked_queries/".toList

def trackedQueryKey (trackedQueryId : Int64) : List Char := kFTrackedQueriesPrefix ++ writeRecordKey trackedQueryId

structure TrackedQueryRecord (K D : Type) [StringKey K] where
  queryId : Int64
  path : FPath K
  params : QueryParams K D
  lastUse : D
  isActive : Bool
  isComplete : Bool

/-- Times are doubles. `as? TimeInterval` -/
class TimeIntervalType (D : Type) extends DoubleType D where
  ofNumber : PlainNumber D → Option D
  ofNumber_double : ∀ value, ofNumber (.double value) = some value
  ofNumber_int64 : ∀ value number, exactly value = some number → ofNumber (.int64 number) = some value

namespace WriteField

/-- `as? Bool` -/
def asBool [DoubleType D] (field : WriteField K D) : Option Bool :=
  match field with
  | .value (.bool flag) => some flag
  | field => field.asInt.bind fun number => if number = 0 then some false else if number = 1 then some true else none

def asTimeInterval [TimeIntervalType D] : WriteField K D → Option D
  | .value (.number number) => TimeIntervalType.ofNumber number
  | _ => none

end WriteField

namespace TrackedQueryRecord

/-- The dictionary of `saveTrackedQuery(_:)` -/
def trackedQueryJSON [UnicodeVersion] (query : TrackedQueryRecord K D) : Except Trap (WriteJSON K D) := do
  let params ← query.params.wireProtocolParams
  .ok [(kFTrackedQueryId, .value (.number (.int64 query.queryId))),
    (kFTrackedQueryPath, .value (.string query.path.toStringWithTrailingSlash)),
    (kFTrackedQueryParams, .dictionary params), (kFTrackedQueryLastUse, .value (.number (.double query.lastUse))),
    (kFTrackedQueryIsComplete, .value (.bool query.isComplete)),
    (kFTrackedQueryIsActive, .value (.bool query.isActive))]

variable [TimeIntervalType D]

/-- The query of a dictionary. There is no result where the program stops. -/
def trackedQueryFrom (queryJSON : WriteJSON K D) : Option (TrackedQueryRecord K D) := do
  let queryId ← (get kFTrackedQueryId queryJSON).bind WriteField.asInt
  let pathString ← (get kFTrackedQueryPath queryJSON).bind WriteField.asString
  let queryObject ← (get kFTrackedQueryParams queryJSON).bind WriteField.asDictionary
  let params ← QueryParams.fromQueryObject queryObject
  let isComplete ← (get kFTrackedQueryIsComplete queryJSON).bind WriteField.asBool
  let isActive ← (get kFTrackedQueryIsActive queryJSON).bind WriteField.asBool
  let lastUse ← (get kFTrackedQueryLastUse queryJSON).bind WriteField.asTimeInterval
  some ⟨queryId, FPath.ofString pathString, params, lastUse, isActive, isComplete⟩

end TrackedQueryRecord

/-- A call that changes the stored queries -/
inductive TrackedQueryEvent (K D : Type) [StringKey K] where
  | saveTrackedQuery (query : TrackedQueryRecord K D)
  | removeTrackedQuery (queryId : Int64)

/-- The stored queries of the cache database by key, in the order of the keys. -/
abbrev TrackedQueriesDB (Data : Type) := List (List Char × Data)

namespace TrackedQueriesDB

variable {Data : Type}

/-- A query that cannot be serialized is not stored. -/
def saveTrackedQuery [UnicodeVersion] (json : JSONSerialization K D Data) (serverCacheDB : TrackedQueriesDB Data)
    (query : TrackedQueryRecord K D) : Except Trap (TrackedQueriesDB Data) := do
  let queryJSON ← query.trackedQueryJSON
  match json.data queryJSON with
  | some data => .ok (set (· < ·) (trackedQueryKey query.queryId) data serverCacheDB)
  | none => .ok serverCacheDB

def removeTrackedQuery (serverCacheDB : TrackedQueriesDB Data) (queryId : Int64) : TrackedQueriesDB Data :=
  remove (trackedQueryKey queryId) serverCacheDB

def perform [UnicodeVersion] (json : JSONSerialization K D Data) (serverCacheDB : TrackedQueriesDB Data) :
    TrackedQueryEvent K D → Except Trap (TrackedQueriesDB Data)
  | .saveTrackedQuery query => serverCacheDB.saveTrackedQuery json query
  | .removeTrackedQuery queryId => .ok (serverCacheDB.removeTrackedQuery queryId)

/-- One record of the loop, with the queries so far and the database. A record with a number that is not
finite is removed; any other error stops the program. -/
def readTrackedQuery [TimeIntervalType D] (json : JSONSerialization K D Data)
    (state : List (TrackedQueryRecord K D) × TrackedQueriesDB Data) (entry : List Char × Data) :
    Option (List (TrackedQueryRecord K D) × TrackedQueriesDB Data) :=
  match json.jsonObject entry.2 with
  | .ok none => none
  | .ok (some queryJSON) => do
      let trackedQuery ← TrackedQueryRecord.trackedQueryFrom queryJSON
      some (state.1 ++ [trackedQuery], state.2)
  | .error .nanFailure => some (state.1, remove entry.1 state.2)
  | .error .other => none

/-- The queries, and the database after reading them -/
def loadTrackedQueries [TimeIntervalType D] (json : JSONSerialization K D Data)
    (serverCacheDB : TrackedQueriesDB Data) :
    Option (List (TrackedQueryRecord K D) × TrackedQueriesDB Data) :=
  serverCacheDB.foldlM (readTrackedQuery json) ([], serverCacheDB)

end TrackedQueriesDB

end FirebaseSwift.Database
