import FirebaseSwift.Functions.FunctionsSerializer

/-! What is encoded is decoded to equal values. Encoding fails exactly on what is not supported, and keeps the shape
of everything else: strings stay strings, and only numbers become dictionaries, which are unwrapped again. So a
dictionary is taken for a number after encoding only if it was one to begin with. -/

namespace FirebaseSwift.Functions

open Database (parseInt)

variable {F : Type}

namespace Value

/-! ### Shapes of values -/

mutual

/-- The types of the objects in a value that are not supported -/
def unsupportedTypes : Value F → List String
  | .object typeName => [typeName]
  | .dictionary entries => unsupportedTypesOfEntries entries
  | .array elements => unsupportedTypesOfElements elements
  | _ => []

def unsupportedTypesOfEntries : List (String × Value F) → List String
  | [] => []
  | (_, value) :: rest => value.unsupportedTypes ++ unsupportedTypesOfEntries rest

def unsupportedTypesOfElements : List (Value F) → List String
  | [] => []
  | element :: rest => element.unsupportedTypes ++ unsupportedTypesOfElements rest

end

mutual

/-- Every dictionary in a value has each of its keys once. -/
def DistinctKeys : Value F → Prop
  | .dictionary entries => (entries.map Prod.fst).Nodup ∧ DistinctKeysOfEntries entries
  | .array elements => DistinctKeysOfElements elements
  | _ => True

def DistinctKeysOfEntries : List (String × Value F) → Prop
  | [] => True
  | (_, value) :: rest => value.DistinctKeys ∧ DistinctKeysOfEntries rest

def DistinctKeysOfElements : List (Value F) → Prop
  | [] => True
  | element :: rest => element.DistinctKeys ∧ DistinctKeysOfElements rest

end

mutual

/-- No dictionary in a value has the shape of a wrapped number. -/
def NoneWrapped : Value F → Prop
  | .dictionary entries => WrappedNumber.ofDictionary entries = none ∧ NoneWrappedOfEntries entries
  | .array elements => NoneWrappedOfElements elements
  | _ => True

def NoneWrappedOfEntries : List (String × Value F) → Prop
  | [] => True
  | (_, value) :: rest => value.NoneWrapped ∧ NoneWrappedOfEntries rest

def NoneWrappedOfElements : List (Value F) → Prop
  | [] => True
  | element :: rest => element.NoneWrapped ∧ NoneWrappedOfElements rest

end

mutual

/-- Values are equal if their numbers are, whatever their Objective-C types. -/
def Same : Value F → Value F → Prop
  | .null, .null => True
  | Value.number x, Value.number y => x.value = y.value
  | .string s, .string s' => s = s'
  | .dictionary entries, .dictionary entries' => SameEntries entries entries'
  | .array elements, .array elements' => SameElements elements elements'
  | .object typeName, .object typeName' => typeName = typeName'
  | _, _ => False

def SameEntries : List (String × Value F) → List (String × Value F) → Prop
  | [], [] => True
  | (key, value) :: rest, (key', value') :: rest' => key = key' ∧ value.Same value' ∧ SameEntries rest rest'
  | _, _ => False

def SameElements : List (Value F) → List (Value F) → Prop
  | [], [] => True
  | element :: rest, element' :: rest' => element.Same element' ∧ SameElements rest rest'
  | _, _ => False

end

theorem set_of_not_mem {key : String} {entries : List (String × Value F)} (h : key ∉ entries.map Prod.fst)
    (value : Value F) : set key value entries = entries ++ [(key, value)] := by
  induction entries with
  | nil => rfl
  | cons entry rest ih =>
      obtain ⟨key', value'⟩ := entry
      obtain ⟨hne, hrest⟩ := not_or.mp (mt List.mem_cons.mpr h)
      rw [set, if_neg (Ne.symm hne), ih hrest, List.cons_append]

end Value

/-! ### Digits -/

section Numbers

variable [Foundation F]
variable {number : NSNumber F}

theorem parseInt_description {v : ℤ} (h : number.value = .integer v) :
    parseInt number.description.toList = some v := by
  unfold NSNumber.description
  rw [h]
  dsimp only
  split_ifs with hneg
  · have hvalue : -(v.natAbs : ℤ) = v := by omega
    rw [String.toList_ofList, parseInt, Database.WebSocketFrames.decimalValue_toDigits]
    exact congrArg some hvalue
  · rw [String.toList_ofList, Database.WebSocketFrames.parseInt_toDigits]
    congr 1
    omega

theorem unwrapNumber_long (h : number.objCType = "q") :
    ∃ number' : NSNumber F, FunctionsSerializer.unwrapNumber { type := .long, value := number.description } =
      .ok number' ∧ number'.value = number.value := by
  obtain ⟨v, hv, hlow, hhigh⟩ := number.long h
  have hparsed : parsedInt number.description = some (Int64.ofInt v) := by
    rw [parsedInt, parseInt_description hv, Option.bind_some, if_pos ⟨hlow, hhigh⟩]
  refine ⟨.ofInt (Int64.ofInt v), by rw [FunctionsSerializer.unwrapNumber, hparsed], ?_⟩
  rw [hv]
  exact congrArg NumberValue.integer (Int64.toInt_ofInt_of_le hlow hhigh)

theorem unwrapNumber_unsignedLong (h : number.objCType = "Q") :
    ∃ number' : NSNumber F, FunctionsSerializer.unwrapNumber { type := .unsignedLong, value := number.description } =
      .ok number' ∧ number'.value = number.value := by
  obtain ⟨v, hv, hlow, hhigh⟩ := number.unsignedLong h
  have hparsed : parsedUInt number.description = some (UInt64.ofNat v.toNat) := by
    rw [parsedUInt, parseInt_description hv, Option.bind_some, if_pos ⟨hlow, hhigh⟩]
  refine ⟨.ofUInt (UInt64.ofNat v.toNat), by rw [FunctionsSerializer.unwrapNumber, hparsed], ?_⟩
  have hvalue : ((UInt64.ofNat v.toNat).toNat : ℤ) = v := by
    rw [UInt64.toNat_ofNat_of_lt' (by show v.toNat < 2 ^ 64; omega)]
    omega
  rw [hv]
  exact congrArg NumberValue.integer hvalue

/-! ### Encoding -/

namespace Value

mutual

/-- What a value is encoded to if all of it is supported -/
def encoded : Value F → Value F
  | .number n => FunctionsSerializer.wrapNumberIfNeeded n
  | .dictionary entries => .dictionary (encodedEntries entries)
  | .array elements => .array (encodedElements elements)
  | value => value

def encodedEntries : List (String × Value F) → List (String × Value F)
  | [] => []
  | (key, value) :: rest => (key, value.encoded) :: encodedEntries rest

def encodedElements : List (Value F) → List (Value F)
  | [] => []
  | element :: rest => element.encoded :: encodedElements rest

end

/-- Only strings are encoded to strings. -/
theorem asString_encoded (value : Value F) : value.encoded.asString = value.asString := by
  cases value with
  | number n =>
      rw [encoded, FunctionsSerializer.wrapNumberIfNeeded]
      split_ifs <;> rfl
  | _ => rfl

theorem lookup_encodedEntries (key : String) (entries : List (String × Value F)) :
    lookup key (encodedEntries entries) = (lookup key entries).map encoded := by
  induction entries with
  | nil => rfl
  | cons entry rest ih =>
      obtain ⟨key', value⟩ := entry
      rw [encodedEntries, lookup, lookup, ih]
      split_ifs <;> rfl

/-- A dictionary has the shape of a wrapped number after it was encoded if it had it before. -/
theorem ofDictionary_encodedEntries (entries : List (String × Value F)) :
    WrappedNumber.ofDictionary (encodedEntries entries) = WrappedNumber.ofDictionary entries := by
  have hstring : ∀ key, (lookup key (encodedEntries entries)).bind asString = (lookup key entries).bind asString := by
    intro key
    rw [lookup_encodedEntries]
    cases lookup key entries with
    | none => rfl
    | some value => exact asString_encoded value
  rw [WrappedNumber.ofDictionary, WrappedNumber.ofDictionary, hstring, hstring]

end Value

omit [Foundation F] in
theorem WrappedNumber.ofDictionary_encoded (wrapped : WrappedNumber) :
    ofDictionary [("@type", (.string wrapped.type.rawValue : Value F)), ("value", .string wrapped.value)] =
      some wrapped := by
  obtain ⟨type, value⟩ := wrapped
  cases type <;> rfl

namespace FunctionsSerializer

open Value

/-- The outcome of encoding something with these types that are not supported -/
def outcome {α : Type} (types : List String) (result : α) : Except Error α :=
  match types with
  | [] => .ok result
  | typeName :: _ => .error (.unsupportedType typeName)

theorem map_outcome {α β : Type} (f : α → β) (types : List String) (result : α) :
    (outcome types result).map f = outcome types (f result) := by
  cases types <;> rfl

mutual

theorem encode_eq : ∀ x : Value F, x.DistinctKeys → encode x = outcome x.unsupportedTypes x.encoded
  | .null, _ | .number _, _ | .string _, _ | .object _, _ => rfl
  | .dictionary entries, hkeys => by
      have hentries := encodeEntries_eq entries [] hkeys.1 hkeys.2
      rw [encode, hentries, map_outcome]
      rfl
  | .array elements, hkeys => by
      rw [encode, encodeElements_eq elements hkeys, map_outcome]
      rfl

/-- What was encoded so far has other keys. -/
theorem encodeEntries_eq : ∀ entries encoded : List (String × Value F),
    (encoded.map Prod.fst ++ entries.map Prod.fst).Nodup → DistinctKeysOfEntries entries →
      encodeEntries entries encoded = outcome (unsupportedTypesOfEntries entries) (encoded ++ encodedEntries entries)
  | [], encoded, _, _ => by
      rw [encodeEntries, encodedEntries, List.append_nil]
      rfl
  | (key, value) :: rest, encoded, hnodup, hkeys => by
      have hfresh : key ∉ encoded.map Prod.fst := fun hmem =>
        (List.nodup_append.mp hnodup).2.2 key hmem key List.mem_cons_self rfl
      rw [encodeEntries, encode_eq value hkeys.1, unsupportedTypesOfEntries]
      cases value.unsupportedTypes with
      | cons typeName types => rfl
      | nil =>
          have hrest := encodeEntries_eq rest (encoded ++ [(key, value.encoded)])
            (by simpa using hnodup) hkeys.2
          rw [List.append_assoc] at hrest
          dsimp only [outcome]
          rw [set_of_not_mem hfresh, hrest]
          rfl

theorem encodeElements_eq : ∀ elements : List (Value F), DistinctKeysOfElements elements →
    encodeElements elements = outcome (unsupportedTypesOfElements elements) (encodedElements elements)
  | [], _ => rfl
  | element :: rest, hkeys => by
      rw [encodeElements, encode_eq element hkeys.1, unsupportedTypesOfElements]
      cases element.unsupportedTypes with
      | cons typeName types => rfl
      | nil =>
          dsimp only [outcome]
          rw [encodeElements_eq rest hkeys.2, map_outcome]
          rfl

end

/-! ### Decoding -/

theorem decode_wrapped {wrapped : WrappedNumber} {number : NSNumber F} (h : unwrapNumber wrapped = .ok number) :
    decode (wrapped.encoded : Value F) = .ok (.number number) := by
  rw [WrappedNumber.encoded, decode, WrappedNumber.ofDictionary_encoded]
  dsimp only
  rw [h]
  rfl

/-- Wrapping a number and decoding it gives an equal number. -/
theorem decode_wrapNumberIfNeeded (number : NSNumber F) :
    ∃ y, decode (wrapNumberIfNeeded number) = .ok y ∧ y.Same (.number number) := by
  unfold wrapNumberIfNeeded
  split_ifs with hlong hunsigned
  · obtain ⟨number', hunwrap, hvalue⟩ := unwrapNumber_long hlong
    exact ⟨.number number', decode_wrapped hunwrap, hvalue⟩
  · obtain ⟨number', hunwrap, hvalue⟩ := unwrapNumber_unsignedLong hunsigned
    exact ⟨.number number', decode_wrapped hunwrap, hvalue⟩
  · exact ⟨.number number, rfl, rfl⟩

mutual

theorem decode_encoded : ∀ x : Value F, x.DistinctKeys → x.NoneWrapped → x.unsupportedTypes = [] →
    ∃ y, decode x.encoded = .ok y ∧ y.Same x
  | .null, _, _, _ => ⟨.null, rfl, trivial⟩
  | .number n, _, _, _ => decode_wrapNumberIfNeeded n
  | .string s, _, _, _ => ⟨.string s, rfl, rfl⟩
  | .object _, _, _, hsupported => nomatch hsupported
  | .dictionary entries, hkeys, hnone, hsupported => by
      obtain ⟨decoded, hdecode, hsame⟩ := decodeEntries_encoded entries [] hkeys.1 hkeys.2 hnone.2 hsupported
      refine ⟨.dictionary decoded, ?_, hsame⟩
      rw [encoded, decode, ofDictionary_encodedEntries, hnone.1]
      dsimp only
      rw [hdecode]
      rfl
  | .array elements, hkeys, hnone, hsupported => by
      obtain ⟨decoded, hdecode, hsame⟩ := decodeElements_encoded elements hkeys hnone hsupported
      refine ⟨.array decoded, ?_, hsame⟩
      rw [encoded, decode, hdecode]
      rfl

theorem decodeEntries_encoded : ∀ entries before : List (String × Value F),
    (before.map Prod.fst ++ entries.map Prod.fst).Nodup → DistinctKeysOfEntries entries →
      NoneWrappedOfEntries entries → unsupportedTypesOfEntries entries = [] →
        ∃ decoded, decodeEntries (encodedEntries entries) before = .ok (before ++ decoded) ∧
          SameEntries decoded entries
  | [], before, _, _, _, _ => ⟨[], by rw [encodedEntries, decodeEntries, List.append_nil], trivial⟩
  | (key, value) :: rest, before, hnodup, hkeys, hnone, hsupported => by
      have hfresh : key ∉ before.map Prod.fst := fun hmem =>
        (List.nodup_append.mp hnodup).2.2 key hmem key List.mem_cons_self rfl
      obtain ⟨hvalue, hrest⟩ := List.append_eq_nil_iff.mp hsupported
      obtain ⟨y, hdecode, hsame⟩ := decode_encoded value hkeys.1 hnone.1 hvalue
      obtain ⟨decoded, hdecodeRest, hsameRest⟩ := decodeEntries_encoded rest (before ++ [(key, y)])
        (by simpa using hnodup) hkeys.2 hnone.2 hrest
      refine ⟨(key, y) :: decoded, ?_, rfl, hsame, hsameRest⟩
      rw [encodedEntries, decodeEntries, hdecode]
      dsimp only
      rw [set_of_not_mem hfresh, hdecodeRest, List.append_assoc]
      rfl

theorem decodeElements_encoded : ∀ elements : List (Value F), DistinctKeysOfElements elements →
    NoneWrappedOfElements elements → unsupportedTypesOfElements elements = [] →
      ∃ decoded, decodeElements (encodedElements elements) = .ok decoded ∧ SameElements decoded elements
  | [], _, _, _ => ⟨[], rfl, trivial⟩
  | element :: rest, hkeys, hnone, hsupported => by
      obtain ⟨helement, hrest⟩ := List.append_eq_nil_iff.mp hsupported
      obtain ⟨y, hdecode, hsame⟩ := decode_encoded element hkeys.1 hnone.1 helement
      obtain ⟨decoded, hdecodeRest, hsameRest⟩ := decodeElements_encoded rest hkeys.2 hnone.2 hrest
      refine ⟨y :: decoded, ?_, hsame, hsameRest⟩
      rw [encodedElements, decodeElements, hdecode]
      dsimp only
      rw [hdecodeRest]
      rfl

end

/-- A value of supported types in which no dictionary looks like a wrapped number is encoded and decoded to an equal
one, and encoding fails exactly on values with something that is not supported. -/
theorem decode_encode_same {x : Value F} (hkeys : x.DistinctKeys) :
    (x.unsupportedTypes = [] → x.NoneWrapped →
      ∃ encoded decoded, encode x = .ok encoded ∧ decode encoded = .ok decoded ∧ decoded.Same x) ∧
    ((∃ error, encode x = .error error) ↔ ∃ typeName, typeName ∈ x.unsupportedTypes) := by
  rw [encode_eq x hkeys]
  constructor
  · intro hsupported hnone
    obtain ⟨decoded, hdecode, hsame⟩ := decode_encoded x hkeys hnone hsupported
    exact ⟨x.encoded, decoded, by rw [hsupported]; rfl, hdecode, hsame⟩
  · cases x.unsupportedTypes with
    | nil =>
        constructor
        · rintro ⟨error, herror⟩
          cases herror
        · rintro ⟨typeName, hmem⟩
          cases hmem
    | cons typeName types => exact iff_of_true ⟨_, rfl⟩ ⟨typeName, List.mem_cons_self⟩

end FunctionsSerializer

end Numbers

/-- Numbers that are integers or Booleans, where the type of an integer is that of its creation -/
@[reducible] def booleanNumbers : Foundation Bool where
  description value := if value then "1" else "0"
  objCTypeOfInt _ := "q"
  objCTypeOfUInt _ := "Q"
  unsigned_of_int _ h := absurd h (by decide)
  signed_of_uint _ h := absurd h (by decide)

/-- The limits of 64 bits in an array, in a dictionary that would be a wrapped number if its value were a string -/
def integerLimits : Value Bool :=
  letI := booleanNumbers
  .dictionary [("@type", .string NumberType.long.rawValue),
    ("value", .array [.number (.ofInt Int64.minValue), .number (.ofUInt (-1)), .null])]

theorem FunctionsSerializer.decode_encode_limits :
    letI := booleanNumbers
    ∃ encoded decoded, FunctionsSerializer.encode integerLimits = .ok encoded ∧
      FunctionsSerializer.decode encoded = .ok decoded ∧ decoded.Same integerLimits := by
  have hkeys : integerLimits.DistinctKeys :=
    ⟨by decide, trivial, ⟨trivial, trivial, trivial, trivial⟩, trivial⟩
  have hnone : integerLimits.NoneWrapped := ⟨rfl, trivial, ⟨trivial, trivial, trivial, trivial⟩, trivial⟩
  exact (@FunctionsSerializer.decode_encode_same Bool booleanNumbers integerLimits hkeys).1 rfl hnone

end FirebaseSwift.Functions
