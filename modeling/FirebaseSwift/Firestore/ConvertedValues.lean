import FirebaseSwift.Firestore.ParsedData

/-! Reading the values of the wire protocol, `ConvertProtoValue`. What was parsed without sentinels is read
back as it was, with timestamps in microseconds, references by their paths, and binary data of the subtype
zero as bytes, as long as no map of the user has the shape of a special type. -/

namespace FirebaseSwift.Firestore

open Value BridgeFieldValue ParseContext

variable {D : Type}

/-! ### Reading -/

/-- What the member of a double holds in a value of another type -/
class DoubleMember (D : Type) where
  reinterpret : Value D → D

/-- The string in a BSON map such as `{"__oid__": "..."}`, or the empty string -/
def singleStringField : List (Bytes × Value D) → Bytes
  | [(_, .string value)] => value
  | _ => []

/-- The fields of the inner map of a BSON map -/
def innerFields : List (Bytes × Value D) → List (Bytes × Value D)
  | [(_, .map inner)] => inner
  | _ => []

/-- The last string with a key in the inner map -/
def innerString (fields : List (Bytes × Value D)) (key : Bytes) : Bytes :=
  (innerFields fields).foldl (fun text field =>
    match field.2 with
    | .string value => if field.1 = key then value else text
    | _ => text) []

/-- The last integer with a key in the inner map, as an unsigned one of 32 bits -/
def innerInteger (fields : List (Bytes × Value D)) (key : Bytes) : UInt32 :=
  (innerFields fields).foldl (fun n field =>
    match field.2 with
    | .integer value => if field.1 = key then value.toUInt64.toUInt32 else n
    | _ => n) 0

/-- A BSON binary: the bytes, with the subtype in front -/
def binaryField : List (Bytes × Value D) → BridgeFieldValue D
  | [(_, .bytes (subtype :: data))] => .bsonBinaryData subtype data
  | _ => .bsonBinaryData 0 []

/-- The integer in the first field -/
def firstInteger : List (Bytes × Value D) → Int64
  | (_, .integer value) :: _ => value
  | _ => 0

def doubleMember [DoubleMember D] : Value D → D
  | .double value => value
  | value => DoubleMember.reinterpret value

/-- The doubles of all arrays with the key of a vector's values -/
def vectorDoubles [DoubleMember D] (fields : List (Bytes × Value D)) : List D :=
  fields.flatMap fun field =>
    match field.2 with
    | .array values => if field.1 = ascii "value" then values.map doubleMember else []
    | _ => []

section Reading

variable [DoubleMember D]

mutual

/-- `ConvertProtoValue`. It fails hard where a value is not set, a reference is no name of a document, or a
server timestamp has no time. -/
def convertProtoValue (serverTsBehavior : Int32) : Value D → Option (BridgeFieldValue D)
  | .unset => none
  | .null => some .null
  | .boolean value => some (.boolean value)
  | .integer value => some (.integer value)
  | .double value => some (.double value)
  | .timestamp seconds nanos => some (.timestamp seconds nanos)
  | .string value => some (.string value)
  | .bytes value => some (.blob value)
  | .reference name => (DocumentKey.fromName name).map fromDocumentPath
  | .geoPoint latitude longitude => some (.geoPoint latitude longitude)
  | .array values => (convertProtoArray serverTsBehavior values).map .array
  | .map fields =>
      match getTypeOrder (.map fields) with
      | none => none
      | some .number =>
          if isInt32Value (.map fields) then some (.int32 (firstInteger fields).toInt32)
          else if isDecimal128Value (.map fields) then some (.decimal128 (singleStringField fields))
          else some .null
      | some .minKey => some .minKey
      | some .maxKey => some .maxKey
      | some .regex => some (.regex (innerString fields kRegexTypePatternFieldValue)
          (innerString fields kRegexTypeOptionsFieldValue))
      | some .bsonObjectId => some (.bsonObjectId (singleStringField fields))
      | some .bsonTimestamp => some (.bsonTimestamp (innerInteger fields kBsonTimestampTypeSecondsFieldValue)
          (innerInteger fields kBsonTimestampTypeIncrementFieldValue))
      | some .blob => some (binaryField fields)
      | some .map => (convertProtoMap serverTsBehavior fields).map .map
      | some .vector => some (.vector (vectorDoubles fields))
      | some .serverTimestamp =>
          if serverTsBehavior = 1 then (getLocalWriteTime fields).map fun time => .timestamp time.1 time.2
          else if serverTsBehavior = 2 then convertPreviousValue serverTsBehavior fields
          else some .null
      | some _ => some .null

def convertProtoMap (serverTsBehavior : Int32) :
    List (Bytes × Value D) → Option (List (Bytes × BridgeFieldValue D))
  | [] => some []
  | (key, value) :: fields => do
      return (key, ← convertProtoValue serverTsBehavior value) :: (← convertProtoMap serverTsBehavior fields)

def convertProtoArray (serverTsBehavior : Int32) : List (Value D) → Option (List (BridgeFieldValue D))
  | [] => some []
  | value :: values => do
      return (← convertProtoValue serverTsBehavior value) :: (← convertProtoArray serverTsBehavior values)

/-- The value that `GetPreviousValue` finds, converted, or null -/
def convertPreviousValue (serverTsBehavior : Int32) : List (Bytes × Value D) → Option (BridgeFieldValue D)
  | [] => some .null
  | (key, value) :: fields =>
      if key = kPreviousValueKey then
        match value with
        | .map inner =>
            if isServerTimestamp (.map inner) then convertPreviousValue serverTsBehavior inner
            else convertProtoValue serverTsBehavior (.map inner)
        | value => convertProtoValue serverTsBehavior value
      else convertPreviousValue serverTsBehavior fields

end

/-- The previous value of a server timestamp is converted where there is one. -/
theorem convertPreviousValue_eq (serverTsBehavior : Int32) :
    ∀ fields : List (Bytes × Value D), convertPreviousValue serverTsBehavior fields =
      (getPreviousValue fields).elim (some .null) (convertProtoValue serverTsBehavior)
  | [] => by rw [convertPreviousValue, getPreviousValue, Option.elim_none]
  | (key, .map inner) :: fields => by
      rw [convertPreviousValue, getPreviousValue]
      split_ifs with hkey htimestamp
      · exact convertPreviousValue_eq serverTsBehavior inner
      · rw [Option.elim_some]
      · exact convertPreviousValue_eq serverTsBehavior fields
  | (key, .unset) :: fields | (key, .null) :: fields | (key, .boolean _) :: fields | (key, .integer _) :: fields
  | (key, .double _) :: fields | (key, .timestamp _ _) :: fields | (key, .string _) :: fields
  | (key, .bytes _) :: fields | (key, .reference _) :: fields | (key, .geoPoint _ _) :: fields
  | (key, .array _) :: fields => by
      rw [convertPreviousValue, getPreviousValue]
      · split_ifs with hkey
        · rw [Option.elim_some]
        · exact convertPreviousValue_eq serverTsBehavior fields
      · simp
      · simp

end Reading

/-! ### What is read back -/

mutual

/-- A value after it was stored: timestamps lose what is below a microsecond, references their database, and
binary data of the subtype zero becomes bytes. -/
def BridgeFieldValue.readBack : BridgeFieldValue D → BridgeFieldValue D
  | .timestamp seconds nanoseconds => .timestamp seconds (nanoseconds / 1000 * 1000)
  | .reference _ document => fromDocumentPath document
  | .bsonBinaryData subtype data => if subtype = 0 then .blob data else .bsonBinaryData subtype data
  | .array elements => .array (readBackElements elements)
  | .map entries => .map (readBackEntries entries)
  | value => value

def readBackEntries : List (Bytes × BridgeFieldValue D) → List (Bytes × BridgeFieldValue D)
  | [] => []
  | (key, value) :: entries => (key, value.readBack) :: readBackEntries entries

def readBackElements : List (BridgeFieldValue D) → List (BridgeFieldValue D)
  | [] => []
  | value :: elements => value.readBack :: readBackElements elements

end

/-- Whether a map of the user would be taken for a value of a special type. -/
def IsSpecialMap (entries : List (Bytes × BridgeFieldValue D)) : Prop :=
  detectMapType (.map (fieldsWithoutSentinels entries)) ≠ .normal

mutual

/-- Whether a value can be told from the values of other types after it was stored: no map in it is taken
for a special one, and the database of a reference can be named. -/
def BridgeFieldValue.Restorable (databaseId : DatabaseId) : BridgeFieldValue D → Prop
  | .map entries => ¬IsSpecialMap entries ∧ RestorableEntries databaseId entries
  | .array elements => RestorableElements databaseId elements
  | .reference _ _ => databaseId.IsNameable
  | _ => True

def RestorableEntries (databaseId : DatabaseId) : List (Bytes × BridgeFieldValue D) → Prop
  | [] => True
  | (_, value) :: entries => value.Restorable databaseId ∧ RestorableEntries databaseId entries

def RestorableElements (databaseId : DatabaseId) : List (BridgeFieldValue D) → Prop
  | [] => True
  | value :: elements => value.Restorable databaseId ∧ RestorableElements databaseId elements

end

/-! ### Reading scalars -/

section RoundTrip

variable [DoubleMember D] {behavior : Int32}

theorem convert_parseVector (doubles : List D) :
    convertProtoValue behavior (parseVector doubles) = some (.vector doubles) := by
  have hread : convertProtoValue behavior (parseVector doubles) =
      some (.vector ((doubles.map Value.double).map doubleMember ++ [])) := rfl
  have hmember : (doubleMember ∘ Value.double : D → D) = id := rfl
  rw [hread, List.append_nil, List.map_map, hmember, List.map_id]

theorem convert_int32 (value : Int32) :
    convertProtoValue behavior (singleFieldMap kInt32TypeFieldValue (.integer value.toInt64) : Value D) =
      some (.int32 value) := by
  have hread : convertProtoValue behavior (singleFieldMap kInt32TypeFieldValue (.integer value.toInt64) : Value D) =
      some (.int32 value.toInt64.toInt32) := rfl
  rw [hread, Int32.toInt32_toInt64]

theorem convert_bsonTimestamp (seconds increment : UInt32) :
    convertProtoValue behavior (singleFieldMap kBsonTimestampTypeFieldValue
      (.map [(kBsonTimestampTypeSecondsFieldValue, .integer seconds.toUInt64.toInt64),
        (kBsonTimestampTypeIncrementFieldValue, .integer increment.toUInt64.toInt64)]) : Value D) =
      some (.bsonTimestamp seconds increment) := by
  have hread : convertProtoValue behavior (singleFieldMap kBsonTimestampTypeFieldValue
      (.map [(kBsonTimestampTypeSecondsFieldValue, .integer seconds.toUInt64.toInt64),
        (kBsonTimestampTypeIncrementFieldValue, .integer increment.toUInt64.toInt64)]) : Value D) =
      some (.bsonTimestamp seconds.toUInt64.toInt64.toUInt64.toUInt32
        increment.toUInt64.toInt64.toUInt64.toUInt32) := rfl
  have hcast : ∀ n : UInt32, n.toUInt64.toInt64.toUInt64.toUInt32 = n := fun n => by simp
  rw [hread, hcast, hcast]

theorem convert_bsonBinaryData {subtype : UInt8} (h : subtype ≠ 0) (data : Bytes) :
    convertProtoValue behavior (singleFieldMap kBsonBinaryDataTypeFieldValue (.bytes (subtype :: data)) : Value D) =
      some (.bsonBinaryData subtype data) := by
  have htype : detectMapType (singleFieldMap kBsonBinaryDataTypeFieldValue (.bytes (subtype :: data)) : Value D) =
      if subtype != 0 then .bsonBinaryData else .normal := rfl
  rw [bne_iff_ne.mpr h, if_pos rfl] at htype
  have horder : getTypeOrder (singleFieldMap kBsonBinaryDataTypeFieldValue (.bytes (subtype :: data)) : Value D) =
      some .blob := by
    rw [singleFieldMap, getTypeOrder, ← singleFieldMap, htype]
  rw [singleFieldMap, convertProtoValue, ← singleFieldMap, horder]
  rfl

theorem convert_scalarValue {value : BridgeFieldValue D} {scalar : Value D} (h : scalarValue value = some scalar) :
    convertProtoValue behavior scalar = some value.readBack := by
  cases value with
  | vector doubles =>
      cases h
      exact convert_parseVector doubles
  | int32 value =>
      cases h
      exact convert_int32 value
  | bsonTimestamp seconds increment =>
      cases h
      exact convert_bsonTimestamp seconds increment
  | bsonBinaryData subtype data =>
      cases h
      rw [readBack]
      split_ifs with hsubtype
      · rfl
      · exact convert_bsonBinaryData hsubtype data
  | null => cases h; rfl
  | boolean value => cases h; rfl
  | integer value => cases h; rfl
  | double value => cases h; rfl
  | string value => cases h; rfl
  | blob data => cases h; rfl
  | timestamp seconds nanoseconds => cases h; rfl
  | geoPoint latitude longitude => cases h; rfl
  | minKey => cases h; rfl
  | maxKey => cases h; rfl
  | regex pattern options => cases h; rfl
  | decimal128 value => cases h; rfl
  | bsonObjectId value => cases h; rfl
  | array elements => cases h
  | map entries => cases h
  | reference database document => cases h
  | unsupported typeName => cases h
  | sentinelDelete => cases h
  | sentinelServerTimestamp => cases h
  | sentinelArrayUnion elements => cases h
  | sentinelArrayRemove elements => cases h
  | sentinelIncrement operand => cases h
  | sentinelMinimum operand => cases h
  | sentinelMaximum operand => cases h

/-! ### The round trip -/

omit [DoubleMember D] in
theorem not_isSentinel_of_accepted {databaseId : DatabaseId} {context : ParseContext} {value : BridgeFieldValue D}
    (hwrite : context.write = false) (h : ¬Offends databaseId (context, value)) : value.isSentinel = false := by
  have hnot : ¬context.write := by rw [hwrite]; exact nofun
  cases value with
  | sentinelDelete =>
      refine absurd (Or.inr fun hsource => ?_) h
      rw [write, hsource] at hwrite
      cases hwrite
  | sentinelServerTimestamp => exact absurd ⟨rfl, .inl hnot⟩ h
  | sentinelArrayUnion elements => exact absurd ⟨rfl, .inl hnot⟩ h
  | sentinelArrayRemove elements => exact absurd ⟨rfl, .inl hnot⟩ h
  | sentinelIncrement operand => exact absurd ⟨rfl, .inl hnot⟩ h
  | sentinelMinimum operand => exact absurd ⟨rfl, .inl hnot⟩ h
  | sentinelMaximum operand => exact absurd ⟨rfl, .inl hnot⟩ h
  | _ => rfl

/-- A map that is not taken for a special one is read as a map. -/
theorem convert_map {fields : List (Bytes × Value D)} (h : detectMapType (.map fields) = .normal) :
    convertProtoValue behavior (.map fields) = (convertProtoMap behavior fields).map .map := by
  have horder : getTypeOrder (.map fields) = some .map := by rw [getTypeOrder, h]
  rw [convertProtoValue, horder]

mutual

/-- What is parsed without sentinels is read back. -/
theorem convert_withoutSentinels {databaseId : DatabaseId} {context : ParseContext} (hwrite : context.write = false) :
    ∀ value : BridgeFieldValue D, (∀ part ∈ parts context value, ¬Offends databaseId part) →
      value.Restorable databaseId →
      (withoutSentinels value).bind (convertProtoValue behavior) = some value.readBack
  | .map entries => fun haccepted hrestorable => by
      rw [parts] at haccepted
      have hentries := convert_entries hwrite entries (List.forall_mem_cons.mp haccepted).2 hrestorable.2
      rw [withoutSentinels, Option.bind_some, convert_map (not_ne_iff.mp hrestorable.1), hentries, readBack,
        Option.map_some]
  | .array elements => fun haccepted hrestorable => by
      rw [parts] at haccepted
      have helement : context.element.write = false := hwrite
      have helements := convert_elements helement elements (List.forall_mem_cons.mp haccepted).2 hrestorable
      rw [withoutSentinels, Option.bind_some, convertProtoValue, helements, readBack, Option.map_some]
  | .reference database document => fun haccepted hrestorable => by
      have hdatabase : database = databaseId := not_ne_iff.mp (haccepted _ (mem_parts_self _ _))
      rw [withoutSentinels, Option.bind_some, convertProtoValue, hdatabase,
        DocumentKey.fromName_referenceName hrestorable, readBack, Option.map_some]
  | .unsupported typeName => fun haccepted _ => absurd trivial (haccepted _ (mem_parts_self _ _))
  | .sentinelDelete | .sentinelServerTimestamp | .sentinelArrayUnion _ | .sentinelArrayRemove _
  | .sentinelIncrement _ | .sentinelMinimum _ | .sentinelMaximum _ => fun haccepted _ =>
      nomatch not_isSentinel_of_accepted hwrite (haccepted _ (mem_parts_self _ _))
  | .null | .boolean _ | .integer _ | .double _ | .string _ | .blob _ | .timestamp _ _ | .geoPoint _ _
  | .minKey | .maxKey | .regex _ _ | .int32 _ | .decimal128 _ | .bsonObjectId _ | .bsonTimestamp _ _
  | .bsonBinaryData _ _ | .vector _ => fun _ _ => convert_scalarValue rfl

theorem convert_entries {databaseId : DatabaseId} {context : ParseContext} (hwrite : context.write = false) :
    ∀ entries : List (Bytes × BridgeFieldValue D),
      (∀ part ∈ partsOfEntries context entries, ¬Offends databaseId part) → RestorableEntries databaseId entries →
      convertProtoMap behavior (fieldsWithoutSentinels entries) = some (readBackEntries entries)
  | [] => fun _ _ => by rw [fieldsWithoutSentinels, convertProtoMap, readBackEntries]
  | (key, value) :: entries => fun haccepted hrestorable => by
      rw [partsOfEntries] at haccepted
      obtain ⟨hvalue, hrest⟩ := List.forall_mem_append.mp haccepted
      have hentries := convert_entries hwrite entries hrest hrestorable.2
      have hfield : (context.field key).write = false := hwrite
      have hread := convert_withoutSentinels hfield value hvalue hrestorable.1
      obtain ⟨parsed, hparsed, hconverted⟩ := Option.bind_eq_some_iff.mp hread
      rw [fieldsWithoutSentinels, hparsed]
      show convertProtoMap behavior ((key, parsed) :: fieldsWithoutSentinels entries) = _
      rw [convertProtoMap, hconverted, hentries, readBackEntries]
      rfl

theorem convert_elements {databaseId : DatabaseId} {context : ParseContext} (hwrite : context.write = false) :
    ∀ elements : List (BridgeFieldValue D),
      (∀ part ∈ partsOfElements context elements, ¬Offends databaseId part) → RestorableElements databaseId elements →
      convertProtoArray behavior (valuesWithoutSentinels elements) = some (readBackElements elements)
  | [] => fun _ _ => by rw [valuesWithoutSentinels, convertProtoArray, readBackElements]
  | value :: elements => fun haccepted hrestorable => by
      rw [partsOfElements] at haccepted
      obtain ⟨hvalue, hrest⟩ := List.forall_mem_append.mp haccepted
      have helements := convert_elements hwrite elements hrest hrestorable.2
      have hread := convert_withoutSentinels hwrite value hvalue hrestorable.1
      obtain ⟨parsed, hparsed, hconverted⟩ := Option.bind_eq_some_iff.mp hread
      rw [valuesWithoutSentinels, hparsed, Option.getD_some, convertProtoArray, hconverted, helements,
        readBackElements]
      rfl

end

end RoundTrip

/-! ### Values of queries -/

/-- The context of a query's value, which no sentinel may be in -/
def queryContext (allowArrays : Bool) : ParseContext :=
  ParseContext.root (if allowArrays then .arrayArgument else .argument)

theorem write_queryContext (allowArrays : Bool) : (queryContext allowArrays).write = false := by
  cases allowArrays <;> rfl

theorem filterMap_partTransform_query {databaseId : DatabaseId} {context : ParseContext} {value : BridgeFieldValue D}
    (hwrite : context.write = false) (haccepted : ∀ part ∈ parts context value, ¬Offends databaseId part) :
    (parts context value).filterMap partTransform = [] := by
  refine List.filterMap_eq_nil_iff.mpr fun part hpart => ?_
  have hsentinel : part.2.isSentinel = false :=
    not_isSentinel_of_accepted (inherited_write.parts hwrite value part hpart) (haccepted part hpart)
  have hnone : transformOperation part.2 = none := by
    cases hvalue : part.2 <;> rw [hvalue] at hsentinel <;> first | rfl | cases hsentinel
  rw [partTransform, hnone]
  cases part.1.path <;> rfl

/-- A query's value is refused where a part of it is, or where the numbers of its field names cannot be read. -/
theorem UserDataParser.parseQueryValue_eq_ok_iff (parser : UserDataParser) (value : BridgeFieldValue D)
    (allowArrays : Bool) (proto : Value D) : parser.parseQueryValue value allowArrays = .ok proto ↔
      (∀ part ∈ parts (queryContext allowArrays) value, ¬Offends parser.databaseId part) ∧
      ((parts (queryContext allowArrays) value).filterMap maskPath).Pairwise
        (fun path other => other.compareTo path ≠ none) ∧
      withoutSentinels value = some proto := by
  have hparse : parser.parseQueryValue value allowArrays =
      (parser.parseData (queryContext allowArrays) value).run {} >>= fun output =>
        output.1.elim (.error .hardAssert) fun parsed =>
          if output.2.fieldTransforms.isEmpty then .ok parsed else .error .hardAssert := by
    cases allowArrays <;>
    · show Except.bind _ _ = Except.bind _ _
      congr 1
      funext output
      rcases output with ⟨_ | parsed, accumulator⟩ <;> rfl
  have hpaths := FieldPath.comparison.insertAll_ne_none_iff
    ((parts (queryContext allowArrays) value).filterMap maskPath) ComparedSets.isSet_nil
  have hok := (parsesData parser (queryContext allowArrays) value).ok_iff {}
  rw [hparse, ExceptLoops.bind_eq_ok]
  constructor
  · rintro ⟨output, houtput, hresult⟩
    obtain ⟨haccepted, mask, hmask, rfl⟩ := (hok output).mp houtput
    refine ⟨haccepted, (hpaths.mp (Option.ne_none_iff_exists'.mpr ⟨mask, hmask⟩)).1, ?_⟩
    rw [filterMap_partTransform_query (write_queryContext allowArrays) haccepted] at hresult
    cases hvalue : withoutSentinels value with
    | none =>
        rw [hvalue] at hresult
        cases hresult
    | some parsed =>
        rw [hvalue] at hresult
        exact congrArg some (Except.ok.inj hresult)
  · rintro ⟨haccepted, hcomparable, hvalue⟩
    obtain ⟨mask, hmask⟩ := Option.ne_none_iff_exists'.mp
      (hpaths.mpr ⟨hcomparable, fun _ _ _ hpath => absurd hpath List.not_mem_nil⟩)
    refine ⟨_, (hok _).mpr ⟨haccepted, mask, hmask, rfl⟩, ?_⟩
    rw [filterMap_partTransform_query (write_queryContext allowArrays) haccepted, hvalue]
    rfl

/-- What a query's value was made into is read back as the value. -/
theorem UserDataParser.convertProtoValue_parseQueryValue [DoubleMember D] (parser : UserDataParser)
    (serverTsBehavior : Int32) (value : BridgeFieldValue D) (hrestorable : value.Restorable parser.databaseId) :
    ((∃ proto, parser.parseQueryValue value true = .ok proto) ↔
      (∀ part ∈ parts (queryContext true) value, ¬Offends parser.databaseId part) ∧
      ((parts (queryContext true) value).filterMap maskPath).Pairwise fun path other => other.compareTo path ≠ none) ∧
    ∀ proto, parser.parseQueryValue value true = .ok proto →
      convertProtoValue serverTsBehavior proto = some value.readBack := by
  constructor
  · simp only [parser.parseQueryValue_eq_ok_iff]
    constructor
    · rintro ⟨proto, haccepted, hcomparable, -⟩
      exact ⟨haccepted, hcomparable⟩
    · rintro ⟨haccepted, hcomparable⟩
      have hsome : (withoutSentinels value).isSome := by
        rw [isSome_withoutSentinels,
          not_isSentinel_of_accepted (write_queryContext true) (haccepted _ (mem_parts_self _ value))]
        rfl
      obtain ⟨proto, hproto⟩ := Option.isSome_iff_exists.mp hsome
      exact ⟨proto, haccepted, hcomparable, hproto⟩
  · intro proto hproto
    obtain ⟨haccepted, -, hvalue⟩ := (parser.parseQueryValue_eq_ok_iff value true proto).mp hproto
    have hread : (withoutSentinels value).bind (convertProtoValue serverTsBehavior) = some value.readBack :=
      convert_withoutSentinels (write_queryContext true) value haccepted hrestorable
    rw [hvalue] at hread
    exact hread

/-! ### Maps that are taken for something else -/

section Examples

/-- Rationals as doubles -/
@[reducible] def rationalMember : DoubleMember Rat := ⟨fun _ => 0⟩

attribute [local instance] rationalMember

def ownParser : UserDataParser := ⟨⟨ascii "project", ascii "(default)"⟩⟩

def document : DocumentKey where
  path := ⟨[ascii "rooms", ascii "first"], by decide⟩
  isDocumentKey := rfl

/-- A map with a time, a vector and a reference -/
def stay : BridgeFieldValue Rat := .map [(ascii "from", .timestamp 5 1234567),
  (ascii "places", .array [.vector [1, 2], .reference ownParser.databaseId document])]

theorem convertProtoValue_stay : ∃ proto, ownParser.parseQueryValue stay true = .ok proto ∧
    convertProtoValue 0 proto = some stay.readBack :=
  ⟨_, rfl, (ownParser.convertProtoValue_parseQueryValue 0 stay
    ⟨not_not_intro rfl, trivial, ⟨trivial, ⟨by decide, by decide⟩, trivial⟩, trivial⟩).2 _ rfl⟩

/-- A map of the user that has the type of a server timestamp in it, beside another field -/
def timestampLike : BridgeFieldValue Rat :=
  .map [(ascii "__type__", .string (ascii "server_timestamp")), (ascii "x", .integer 1)]

theorem timestampLike_changed :
    (∃ proto, ownParser.parseQueryValue timestampLike true = .ok proto ∧ convertProtoValue 0 proto = some .null) ∧
    ∃ proto, UserDataParser.parseQueryValue ⟨⟨[], ascii "(default)"⟩⟩
        (.reference ⟨[], ascii "(default)"⟩ document : BridgeFieldValue Rat) true = .ok proto ∧
      convertProtoValue 0 proto = none :=
  ⟨⟨_, rfl, rfl⟩, _, rfl, rfl⟩

end Examples

end FirebaseSwift.Firestore
