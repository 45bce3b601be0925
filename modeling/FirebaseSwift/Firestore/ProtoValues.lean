import FirebaseSwift.Firestore.BridgeFieldValues
import Mathlib.Data.List.Sort

/-! The values of the wire protocol, `google_firestore_v1_Value`. Special types are maps with reserved keys
and are recognised by their shape. -/

namespace FirebaseSwift.Firestore

/-- A value of a document. An entry of a new array is unset until it is filled. -/
inductive Value (D : Type) where
  | unset
  | null
  | boolean (value : Bool)
  | integer (value : Int64)
  | double (value : D)
  | timestamp (seconds : Int64) (nanos : Int32)
  | string (value : Bytes)
  | bytes (value : Bytes)
  | reference (name : Bytes)
  | geoPoint (latitude longitude : D)
  | array (values : List (Value D))
  | map (fields : List (Bytes × Value D))

inductive MapType where
  | normal | serverTimestamp | internalMaxValue | vector | minKey | maxKey | regex | int32 | decimal128
  | bsonObjectId | bsonTimestamp | bsonBinaryData
deriving DecidableEq

inductive TypeOrder where
  | null | minKey | boolean | number | timestamp | bsonTimestamp | serverTimestamp | string | blob
  | reference | bsonObjectId | geoPoint | regex | array | vector | map | maxKey | internalMaxValue
deriving DecidableEq

/-! ### Reserved keys -/

def kTypeValueFieldKey : Bytes := ascii "__type__"
def kInternalMaxValueFieldValue : Bytes := ascii "__max__"
def kVectorTypeFieldValue : Bytes := ascii "__vector__"
def kVectorValueFieldKey : Bytes := ascii "value"
def kMinKeyTypeFieldValue : Bytes := ascii "__min__"
def kMaxKeyTypeFieldValue : Bytes := ascii "__max__"
def kRegexTypeFieldValue : Bytes := ascii "__regex__"
def kRegexTypePatternFieldValue : Bytes := ascii "pattern"
def kRegexTypeOptionsFieldValue : Bytes := ascii "options"
def kInt32TypeFieldValue : Bytes := ascii "__int__"
def kDecimal128TypeFieldValue : Bytes := ascii "__decimal128__"
def kBsonObjectIdTypeFieldValue : Bytes := ascii "__oid__"
def kBsonTimestampTypeFieldValue : Bytes := ascii "__request_timestamp__"
def kBsonTimestampTypeSecondsFieldValue : Bytes := ascii "seconds"
def kBsonTimestampTypeIncrementFieldValue : Bytes := ascii "increment"
def kBsonBinaryDataTypeFieldValue : Bytes := ascii "__binary__"
def kServerTimestampSentinel : Bytes := ascii "server_timestamp"
def kLocalWriteTimeKey : Bytes := ascii "__local_write_time__"
def kPreviousValueKey : Bytes := ascii "__previous_value__"

namespace Value

variable {D : Type}

/-! ### Kinds of values -/

def isNull : Value D → Bool
  | .null => true
  | _ => false

def isInteger : Value D → Bool
  | .integer _ => true
  | _ => false

def isString : Value D → Bool
  | .string _ => true
  | _ => false

def isArray : Value D → Bool
  | .array _ => true
  | _ => false

/-- A value that is a certain string -/
def isText (text : Bytes) : Value D → Bool
  | .string value => value == text
  | _ => false

/-! ### Special maps -/

/-- The first field with a key -/
def indexOfKey (fields : List (Bytes × Value D)) (key : Bytes) : Option Nat :=
  fields.findIdx? fun field => field.1 == key

/-- The value at the index of a key that was found -/
def valueAt (fields : List (Bytes × Value D)) (index : Nat) : Value D := (fields[index]?.map Prod.snd).getD .unset

/-- Whether a map has a key, and the value there is of a kind. -/
def hasField (fields : List (Bytes × Value D)) (key : Bytes) (kind : Value D → Bool) : Bool :=
  match indexOfKey fields key with
  | some index => kind (valueAt fields index)
  | none => false

/-- Whether a map has one field, with a key and a value of a kind. -/
def isSingleField (fields : List (Bytes × Value D)) (key : Bytes) (kind : Value D → Bool) : Bool :=
  fields.length == 1 && hasField fields key kind

def isServerTimestamp : Value D → Bool
  | .map fields => decide (fields.length ≤ 3) && hasField fields kTypeValueFieldKey (isText kServerTimestampSentinel)
  | _ => false

def isInternalMaxValue : Value D → Bool
  | .map fields => isSingleField fields kTypeValueFieldKey (isText kInternalMaxValueFieldValue)
  | _ => false

/-- Other fields may stand beside the two of a vector. -/
def isVectorValue : Value D → Bool
  | .map fields => decide (2 ≤ fields.length) && hasField fields kTypeValueFieldKey (isText kVectorTypeFieldValue) &&
      hasField fields kVectorValueFieldKey isArray
  | _ => false

def isMinKeyValue : Value D → Bool
  | .map fields => isSingleField fields kMinKeyTypeFieldValue isNull
  | _ => false

def isMaxKeyValue : Value D → Bool
  | .map fields => isSingleField fields kMaxKeyTypeFieldValue isNull
  | _ => false

/-- A map of two fields, each with a key and of a kind -/
def isPair (kind : Value D → Bool) (first second : Bytes) : Value D → Bool
  | .map fields => fields.length == 2 && hasField fields first kind && hasField fields second kind
  | _ => false

def isRegexValue : Value D → Bool
  | .map fields => isSingleField fields kRegexTypeFieldValue
      (isPair isString kRegexTypePatternFieldValue kRegexTypeOptionsFieldValue)
  | _ => false

def isBsonObjectId : Value D → Bool
  | .map fields => isSingleField fields kBsonObjectIdTypeFieldValue isString
  | _ => false

def isBsonTimestamp : Value D → Bool
  | .map fields => isSingleField fields kBsonTimestampTypeFieldValue
      (isPair isInteger kBsonTimestampTypeSecondsFieldValue kBsonTimestampTypeIncrementFieldValue)
  | _ => false

/-- Bytes with a subtype in front that is not zero -/
def hasSubtype : Value D → Bool
  | .bytes (subtype :: _) => subtype != 0
  | _ => false

def isBsonBinaryData : Value D → Bool
  | .map fields => isSingleField fields kBsonBinaryDataTypeFieldValue hasSubtype
  | _ => false

def isInt32Value : Value D → Bool
  | .map fields => isSingleField fields kInt32TypeFieldValue isInteger
  | _ => false

def isDecimal128Value : Value D → Bool
  | .map fields => isSingleField fields kDecimal128TypeFieldValue isString
  | _ => false

def detectMapType : Value D → MapType
  | .map fields =>
      if fields.length == 0 then .normal
      else if isServerTimestamp (.map fields) then .serverTimestamp
      else if isInternalMaxValue (.map fields) then .internalMaxValue
      else if isVectorValue (.map fields) then .vector
      else if fields.length != 1 then .normal
      else if isMinKeyValue (.map fields) then .minKey
      else if isMaxKeyValue (.map fields) then .maxKey
      else if isRegexValue (.map fields) then .regex
      else if isDecimal128Value (.map fields) then .decimal128
      else if isInt32Value (.map fields) then .int32
      else if isBsonObjectId (.map fields) then .bsonObjectId
      else if isBsonTimestamp (.map fields) then .bsonTimestamp
      else if isBsonBinaryData (.map fields) then .bsonBinaryData
      else .normal
  | _ => .normal

/-- `GetTypeOrder` fails hard on a value that is not set. -/
def getTypeOrder : Value D → Option TypeOrder
  | .unset => none
  | .null => some .null
  | .boolean _ => some .boolean
  | .integer _ => some .number
  | .double _ => some .number
  | .timestamp _ _ => some .timestamp
  | .string _ => some .string
  | .bytes _ => some .blob
  | .reference _ => some .reference
  | .geoPoint _ _ => some .geoPoint
  | .array _ => some .array
  | .map fields =>
      match detectMapType (.map fields) with
      | .serverTimestamp => some .serverTimestamp
      | .internalMaxValue => some .internalMaxValue
      | .vector => some .vector
      | .minKey => some .minKey
      | .maxKey => some .maxKey
      | .regex => some .regex
      | .int32 => some .number
      | .decimal128 => some .number
      | .bsonObjectId => some .bsonObjectId
      | .bsonTimestamp => some .bsonTimestamp
      | .bsonBinaryData => some .blob
      | .normal => some .map

/-! ### Server timestamps -/

/-- `GetLocalWriteTime` fails hard where there is none. -/
def getLocalWriteTime : List (Bytes × Value D) → Option (Int64 × Int32)
  | [] => none
  | (key, .timestamp seconds nanos) :: fields =>
      if key = kLocalWriteTimeKey then some (seconds, nanos) else getLocalWriteTime fields
  | _ :: fields => getLocalWriteTime fields

/-- The value before a server timestamp, and before the server timestamps below it -/
def getPreviousValue : List (Bytes × Value D) → Option (Value D)
  | [] => none
  | (key, value) :: fields =>
      if key = kPreviousValueKey then
        match value with
        | .map inner => if isServerTimestamp (.map inner) then getPreviousValue inner else some (.map inner)
        | value => some value
      else getPreviousValue fields

/-! ### The order of fields -/

/-- The fields of a map by their keys -/
def sortByKey (fields : List (Bytes × Value D)) : List (Bytes × Value D) :=
  fields.insertionSort fun field field' => field.1 ≤ field'.1

mutual

/-- Sorts the fields of every map. -/
def sortFields : Value D → Value D
  | .map fields => .map (sortByKey (sortFieldsOfEntries fields))
  | .array values => .array (sortFieldsOfValues values)
  | value => value

def sortFieldsOfEntries : List (Bytes × Value D) → List (Bytes × Value D)
  | [] => []
  | (key, value) :: fields => (key, sortFields value) :: sortFieldsOfEntries fields

def sortFieldsOfValues : List (Value D) → List (Value D)
  | [] => []
  | value :: values => sortFields value :: sortFieldsOfValues values

end

end Value

end FirebaseSwift.Firestore
