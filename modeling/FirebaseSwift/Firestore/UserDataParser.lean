import FirebaseSwift.Firestore.ObjectValues

/-! Parsing user data, `UserDataParser`. A map becomes a map of the wire protocol without the sentinels in
it: an array for the fields is made first, with room for those that are no sentinels, and filled then. The
sentinels are collected as transforms, and the paths of a merge or an update in the field mask. -/

namespace FirebaseSwift.Firestore

open ParseContext BridgeFieldValue

variable {D : Type}

structure ParsedSetData (D : Type) where
  data : ObjectValue D
  fieldMask : FieldMask := []
  fieldTransforms : List (FieldTransform D)
  patch : Bool

structure ParsedUpdateData (D : Type) where
  data : ObjectValue D
  fieldMask : FieldMask
  fieldTransforms : List (FieldTransform D)

inductive SetOption where
  | overwrite | merge | mergeFields

structure UserDataParser where
  databaseId : DatabaseId

/-! ### Values of one field -/

/-- The map with one field -/
def singleFieldMap (key : Bytes) (value : Value D) : Value D := .map [(key, value)]

def parseVector (doubles : List D) : Value D :=
  .map [(kTypeValueFieldKey, .string (ascii "__vector__")), (kVectorValueFieldKey, .array (doubles.map .double))]

def NumericOperand.value : NumericOperand D → Value D
  | .integer value => .integer value
  | .double value => .double value

/-- The value of a scalar that is no reference -/
def scalarValue : BridgeFieldValue D → Option (Value D)
  | .null => some .null
  | .boolean value => some (.boolean value)
  | .integer value => some (.integer value)
  | .double value => some (.double value)
  | .string value => some (.string value)
  | .blob bytes => some (.bytes bytes)
  | .timestamp seconds nanoseconds => some (.timestamp seconds (nanoseconds / 1000 * 1000))
  | .geoPoint latitude longitude => some (.geoPoint latitude longitude)
  | .vector doubles => some (parseVector doubles)
  | .minKey => some (singleFieldMap kMinKeyTypeFieldValue .null)
  | .maxKey => some (singleFieldMap kMaxKeyTypeFieldValue .null)
  | .regex pattern options => some (singleFieldMap kRegexTypeFieldValue
      (.map [(kRegexTypePatternFieldValue, .string pattern), (kRegexTypeOptionsFieldValue, .string options)]))
  | .int32 value => some (singleFieldMap kInt32TypeFieldValue (.integer value.toInt64))
  | .decimal128 value => some (singleFieldMap kDecimal128TypeFieldValue (.string value))
  | .bsonObjectId value => some (singleFieldMap kBsonObjectIdTypeFieldValue (.string value))
  | .bsonTimestamp seconds increment => some (singleFieldMap kBsonTimestampTypeFieldValue
      (.map [(kBsonTimestampTypeSecondsFieldValue, .integer seconds.toUInt64.toInt64),
        (kBsonTimestampTypeIncrementFieldValue, .integer increment.toUInt64.toInt64)]))
  | .bsonBinaryData subtype bytes =>
      some (if subtype = 0 then .bytes bytes
        else singleFieldMap kBsonBinaryDataTypeFieldValue (.bytes (subtype :: bytes)))
  | _ => none

/-- The API call that created a sentinel -/
def methodName : BridgeFieldValue D → Bytes
  | .sentinelDelete => ascii "FieldValue.delete()"
  | .sentinelServerTimestamp => ascii "FieldValue.serverTimestamp()"
  | .sentinelArrayUnion _ => ascii "FieldValue.arrayUnion()"
  | .sentinelArrayRemove _ => ascii "FieldValue.arrayRemove()"
  | .sentinelIncrement _ => ascii "FieldValue.increment()"
  | .sentinelMinimum _ => ascii "FieldValue.minimum()"
  | .sentinelMaximum _ => ascii "FieldValue.maximum()"
  | _ => []

/-! ### The parts of the parser -/

/-- Fills an entry of an array that was made before. -/
def writeAt {α : Type} (array : List α) (index : Nat) (entry : α) : ParseM D (List α) :=
  if index < array.length then pure (array.set index entry) else throw .outOfBounds

/-- Adds the path of the context to the field mask where there is one. -/
def addOwnPath (context : ParseContext) : ParseM D Unit :=
  match context.path with
  | none => pure ()
  | some path => addToFieldMask path

/-- Adds the path of an empty map that is not the root. -/
def addEmptyMapPath (context : ParseContext) : ParseM D Unit :=
  match context.path with
  | none => pure ()
  | some [] => pure ()
  | some path => addToFieldMask path

/-- Sentinels are only supported with writes, and not within arrays. -/
def sentinelPath (context : ParseContext) (value : BridgeFieldValue D) : ParseM D FieldPath :=
  if ¬context.write then
    throwInvalidArgument (methodName value ++ ascii " can only be used with updateData() and setData()" ++
      context.fieldDescription)
  else
    match context.path with
    | none => throwInvalidArgument (methodName value ++ ascii " is not currently supported inside arrays")
    | some path => pure path

def parseDelete (context : ParseContext) : ParseM D Unit := do
  let path ← sentinelPath context (.sentinelDelete : BridgeFieldValue D)
  match context.dataSource with
  | .mergeSet => addToFieldMask path
  | .update =>
      if path = [] then throw .hardAssert
      else throwInvalidArgument (ascii "FieldValue.delete() can only appear at the top level of your update data" ++
        context.fieldDescription)
  | _ => throwInvalidArgument (ascii ("FieldValue.delete() can only be used with updateData() and " ++
      "setData() with merge:true") ++ context.fieldDescription)

namespace UserDataParser

def parseScalar (parser : UserDataParser) (context : ParseContext) : BridgeFieldValue D → ParseM D (Value D)
  | .reference database document =>
      if database.projectId ≠ parser.databaseId.projectId ∨ database.databaseId ≠ parser.databaseId.databaseId then
        throwInvalidArgument (ascii "Document Reference is for database " ++ database.projectId ++ ascii "/" ++
          database.databaseId ++ ascii " but should be for database " ++ parser.databaseId.projectId ++
          ascii "/" ++ parser.databaseId.databaseId ++ context.fieldDescription)
      else
        match DocumentKey.fromPathString document.toString with
        | some key => pure (.reference (referenceName parser.databaseId key))
        | none => throw .hardAssert
  | .unsupported typeName =>
      throwInvalidArgument (ascii "Unsupported type: " ++ typeName ++ context.fieldDescription)
  | value =>
      match scalarValue value with
      | some scalar => pure scalar
      | none => throw .hardAssert

/-- `ParseMap`, given the loop that fills the fields -/
def parseMapWith (context : ParseContext) (entries : List (Bytes × BridgeFieldValue D))
    (fill : List (Bytes × Value D) → ParseM D (List (Bytes × Value D))) : ParseM D (Value D) :=
  if entries.isEmpty then do
    addEmptyMapPath context
    return .map []
  else do
    let count := entries.countP fun entry => !entry.2.isSentinel
    return .map (← fill (List.replicate count ([], .unset)))

/-- A transform's elements are parsed with an accumulator of their own. -/
def withAccumulator {α : Type} (parse : ParseM D α) : ParseM D α := fun accumulator =>
  match parse {} with
  | .ok (result, _) => .ok (result, accumulator)
  | .error failure => .error failure

mutual

/-- The parsed value, or none for a sentinel -/
def parseData (parser : UserDataParser) (context : ParseContext) : BridgeFieldValue D → ParseM D (Option (Value D))
  | .map entries => do
      return some (← parseMapWith context entries fun fields => parseFields parser context entries fields 0)
  | .sentinelDelete => do
      parseDelete context
      return none
  | .sentinelServerTimestamp => do
      let path ← sentinelPath context (.sentinelServerTimestamp : BridgeFieldValue D)
      addToFieldTransforms path .serverTimestamp
      return none
  | .sentinelArrayUnion elements => do
      let path ← sentinelPath context (.sentinelArrayUnion elements)
      let values ← withAccumulator
        (parseTransformElements parser elements (List.replicate elements.length .unset) 0)
      addToFieldTransforms path (.arrayUnion values)
      return none
  | .sentinelArrayRemove elements => do
      let path ← sentinelPath context (.sentinelArrayRemove elements)
      let values ← withAccumulator
        (parseTransformElements parser elements (List.replicate elements.length .unset) 0)
      addToFieldTransforms path (.arrayRemove values)
      return none
  | .sentinelIncrement operand => do
      let path ← sentinelPath context (.sentinelIncrement operand)
      addToFieldTransforms path (.numericIncrement operand.value)
      return none
  | .sentinelMinimum operand => do
      let path ← sentinelPath context (.sentinelMinimum operand)
      addToFieldTransforms path (.numericMinimum operand.value)
      return none
  | .sentinelMaximum operand => do
      let path ← sentinelPath context (.sentinelMaximum operand)
      addToFieldTransforms path (.numericMaximum operand.value)
      return none
  | .array elements => do
      addOwnPath context
      if context.arrayElement ∧ context.dataSource ≠ .arrayArgument then
        throwInvalidArgument (ascii "Nested arrays are not supported")
      else
        return some (.array (← parseElements parser context elements (List.replicate elements.length .unset) 0))
  | value => do
      addOwnPath context
      return some (← parseScalar parser context value)

/-- Fills the fields of a map from an index on. -/
def parseFields (parser : UserDataParser) (context : ParseContext) :
    List (Bytes × BridgeFieldValue D) → List (Bytes × Value D) → Nat → ParseM D (List (Bytes × Value D))
  | [], fields, _ => pure fields
  | (key, value) :: entries, fields, index => do
      match ← parseData parser (← context.childField key) value with
      | some parsed => parseFields parser context entries (← writeAt fields index (key, parsed)) (index + 1)
      | none => parseFields parser context entries fields index

/-- Fills the values of an array from an index on. -/
def parseElements (parser : UserDataParser) (context : ParseContext) :
    List (BridgeFieldValue D) → List (Value D) → Nat → ParseM D (List (Value D))
  | [], values, _ => pure values
  | value :: elements, values, index => do
      let parsed ← parseData parser context.element value
      parseElements parser context elements (← writeAt values index (parsed.getD .null)) (index + 1)

/-- Fills the elements of a transform from an index on. -/
def parseTransformElements (parser : UserDataParser) :
    List (BridgeFieldValue D) → List (Value D) → Nat → ParseM D (List (Value D))
  | [], values, _ => pure values
  | value :: elements, values, index => do
      let parsed ← parseData parser (ParseContext.root .argument).element value
      let accumulator ← get
      match parsed with
      | some parsed =>
          if accumulator.fieldTransforms.isEmpty then
            parseTransformElements parser elements (← writeAt values index parsed) (index + 1)
          else throw .hardAssert
      | none => throw .hardAssert

end

def parseMap (parser : UserDataParser) (context : ParseContext) (entries : List (Bytes × BridgeFieldValue D)) :
    ParseM D (Value D) :=
  parseMapWith context entries fun fields => parseFields parser context entries fields 0

/-! ### Parsing the data of a call -/

def objectValue (value : Value D) : ParseM D (ObjectValue D) :=
  match ObjectValue.ofValue value with
  | some object => pure object
  | none => throw .hardAssert

/-- `ParseSetData` with the data only -/
def parseSetData (parser : UserDataParser) (data : List (Bytes × BridgeFieldValue D)) :
    Except ParseFailure (ParsedSetData D) := do
  let parse : ParseM D (ObjectValue D) := do objectValue (← parser.parseMap (ParseContext.root .set) data)
  let (object, accumulator) ← parse.run {}
  return { data := object, fieldTransforms := accumulator.fieldTransforms, patch := false }

/-- `ParseAccumulator::Contains` -/
def contains (accumulator : ParseAccumulator D) (path : FieldPath) : Bool :=
  accumulator.fieldMask.any path.isPrefixOf || accumulator.fieldTransforms.any fun transform =>
    path.isPrefixOf transform.path

/-- The paths of a field mask that the user gave, each of which has to be in the data -/
def validatedPaths (accumulator : ParseAccumulator D) (fieldMask : List FieldPath) : Except ParseFailure FieldMask :=
  fieldMask.foldlM (fun paths path =>
    if ¬contains accumulator path then
      .error (.invalidArgument (ascii "Field '" ++ path.canonicalString ++
        ascii "' is specified in your field mask but missing from your input data."))
    else
      match ComparedSets.insert FieldPath.compareTo path paths with
      | some paths => .ok paths
      | none => .error .unreadableNumber) []

def parseMergeData (parser : UserDataParser) (data : List (Bytes × BridgeFieldValue D))
    (fieldMask : Option (List FieldPath)) : Except ParseFailure (ParsedSetData D) := do
  let parse : ParseM D (ObjectValue D) := do objectValue (← parser.parseMap (ParseContext.root .mergeSet) data)
  let (object, accumulator) ← parse.run {}
  match fieldMask with
  | none =>
      return { data := object, fieldMask := accumulator.fieldMask, fieldTransforms := accumulator.fieldTransforms,
               patch := true }
  | some fieldMask =>
      let paths ← validatedPaths accumulator fieldMask
      return { data := object, fieldMask := paths,
               fieldTransforms := accumulator.fieldTransforms.filter fun transform => FieldMask.covers paths transform.path,
               patch := true }

/-- `ParseSetData` with an option -/
def parseSetDataWith (parser : UserDataParser) (data : List (Bytes × BridgeFieldValue D)) (option : SetOption)
    (mergeFields : List FieldPath) : Except ParseFailure (ParsedSetData D) :=
  match option with
  | .overwrite => parser.parseSetData data
  | .merge => parser.parseMergeData data none
  | .mergeFields => parser.parseMergeData data (some mergeFields)

/-- The loop over the entries of an update. A delete is not parsed. -/
def parseUpdates (parser : UserDataParser) :
    List (FieldPath × BridgeFieldValue D) → ObjectValue D → ParseM D (ObjectValue D)
  | [], updateData => pure updateData
  | (path, .sentinelDelete) :: entries, updateData => do
      addToFieldMask path
      parseUpdates parser entries updateData
  | (path, value) :: entries, updateData => do
      match ← parser.parseData (← (ParseContext.root .update).childPath path) value with
      | some parsed =>
          addToFieldMask path
          match updateData.set path parsed with
          | some updateData => parseUpdates parser entries updateData
          | none => throw .hardAssert
      | none => parseUpdates parser entries updateData

def parseUpdateData (parser : UserDataParser) (data : List (FieldPath × BridgeFieldValue D)) :
    Except ParseFailure (ParsedUpdateData D) := do
  let (updateData, accumulator) ← (parser.parseUpdates data {}).run {}
  return { data := updateData, fieldMask := accumulator.fieldMask, fieldTransforms := accumulator.fieldTransforms }

/-- `ParseQueryValue`, which takes no sentinels -/
def parseQueryValue (parser : UserDataParser) (value : BridgeFieldValue D) (allowArrays : Bool) :
    Except ParseFailure (Value D) := do
  let source : UserDataSource := if allowArrays then .arrayArgument else .argument
  let (parsed, accumulator) ← (parser.parseData (ParseContext.root source) value).run {}
  match parsed with
  | some parsed => if accumulator.fieldTransforms.isEmpty then .ok parsed else .error .hardAssert
  | none => .error .hardAssert

end UserDataParser

end FirebaseSwift.Firestore
