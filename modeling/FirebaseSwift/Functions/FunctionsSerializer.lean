import FirebaseSwift.Database.WebSocketFrames

/-! The serializer of callable functions. A number whose Objective-C type is one of 64 bits is wrapped in a
dictionary with its type and its decimal digits, and a dictionary of that shape is unwrapped, at any depth. -/

namespace FirebaseSwift.Functions

open Database (parseInt)

/-! ### Values -/

/-- What a number stands for, over a type of the numbers that are no integers -/
inductive NumberValue (F : Type) where
  | integer (value : ℤ)
  | other (value : F)

/-- An `NSNumber`. Only signed integers of 64 bits have the Objective-C type "q", and only unsigned ones "Q". Smaller
integers may have these types or others. -/
structure NSNumber (F : Type) where
  value : NumberValue F
  objCType : String
  long : objCType = "q" → ∃ v, value = .integer v ∧ -2 ^ 63 ≤ v ∧ v < 2 ^ 63
  unsignedLong : objCType = "Q" → ∃ v, value = .integer v ∧ 0 ≤ v ∧ v < 2 ^ 64

/-- What `Any` holds. All that is not supported is an object of some type. -/
inductive Value (F : Type) where
  | null
  | number (number : NSNumber F)
  | string (string : String)
  | dictionary (entries : List (String × Value F))
  | array (elements : List (Value F))
  | object (typeName : String)

/-- The numbers of a platform. Where the type of a number follows its value, a small integer is no "q". -/
class Foundation (F : Type) where
  description : F → String
  objCTypeOfInt : Int64 → String
  objCTypeOfUInt : UInt64 → String
  unsigned_of_int : ∀ n, objCTypeOfInt n = "Q" → 0 ≤ n.toInt
  signed_of_uint : ∀ n, objCTypeOfUInt n = "q" → n.toNat < 2 ^ 63

namespace NSNumber

variable {F : Type} [Foundation F]

def description (number : NSNumber F) : String :=
  match number.value with
  | .integer v => if v < 0 then String.ofList ('-' :: Nat.toDigits 10 v.natAbs) else String.ofList (Nat.toDigits 10 v.natAbs)
  | .other v => Foundation.description v

/-- An `Int`, of 64 bits, as a number -/
def ofInt (n : Int64) : NSNumber F where
  value := .integer n.toInt
  objCType := Foundation.objCTypeOfInt F n
  long := fun _ => ⟨_, rfl, n.le_toInt, n.toInt_lt⟩
  unsignedLong := fun h => ⟨_, rfl, Foundation.unsigned_of_int n h, n.toInt_lt.trans (by norm_num)⟩

def ofUInt (n : UInt64) : NSNumber F where
  value := .integer n.toNat
  objCType := Foundation.objCTypeOfUInt F n
  long := fun h => ⟨_, rfl, by omega, by have := Foundation.signed_of_uint n h; omega⟩
  unsignedLong := fun _ => ⟨_, rfl, by omega, by have := n.toNat_lt; omega⟩

end NSNumber

/-- `Int(_:)` -/
def parsedInt (s : String) : Option Int64 :=
  (parseInt s.toList).bind fun v => if -2 ^ 63 ≤ v ∧ v < 2 ^ 63 then some (Int64.ofInt v) else none

/-- `UInt(_:)` -/
def parsedUInt (s : String) : Option UInt64 :=
  (parseInt s.toList).bind fun v => if 0 ≤ v ∧ v < 2 ^ 64 then some (UInt64.ofNat v.toNat) else none

/-! ### Wrapped numbers -/

inductive NumberType where
  | long
  | unsignedLong
deriving DecidableEq

namespace NumberType

def rawValue : NumberType → String
  | .long => "type.googleapis.com/google.protobuf.Int64Value"
  | .unsignedLong => "type.googleapis.com/google.protobuf.UInt64Value"

def ofRawValue (rawValue : String) : Option NumberType :=
  if rawValue = NumberType.long.rawValue then some .long
  else if rawValue = NumberType.unsignedLong.rawValue then some .unsignedLong
  else none

end NumberType

structure WrappedNumber where
  type : NumberType
  value : String

namespace Value

variable {F : Type}

def asString : Value F → Option String
  | .string s => some s
  | _ => none

/-- `subscript` of a dictionary -/
def lookup (key : String) : List (String × Value F) → Option (Value F)
  | [] => none
  | (key', value) :: rest => if key' = key then some value else lookup key rest

/-- `set(_:forKey:)` -/
def set (key : String) (value : Value F) : List (String × Value F) → List (String × Value F)
  | [] => [(key, value)]
  | (key', value') :: rest => if key' = key then (key', value) :: rest else (key', value') :: set key value rest

end Value

namespace WrappedNumber

variable {F : Type}

/-- `init?(from:)` -/
def ofDictionary (dictionary : List (String × Value F)) : Option WrappedNumber := do
  let typeString ← (Value.lookup "@type" dictionary).bind Value.asString
  let type ← NumberType.ofRawValue typeString
  let value ← (Value.lookup "value" dictionary).bind Value.asString
  return { type, value }

def encoded (wrapped : WrappedNumber) : Value F :=
  .dictionary [("@type", .string wrapped.type.rawValue), ("value", .string wrapped.value)]

end WrappedNumber

/-! ### Encoding and decoding -/

namespace FunctionsSerializer

inductive Error where
  | unsupportedType (typeName : String)
  | failedToParseWrappedNumber (value type : String)
deriving DecidableEq

variable {F : Type} [Foundation F]

def wrapNumberIfNeeded (number : NSNumber F) : Value F :=
  if number.objCType = "q" then WrappedNumber.encoded { type := .long, value := number.description }
  else if number.objCType = "Q" then WrappedNumber.encoded { type := .unsignedLong, value := number.description }
  else .number number

def unwrapNumber (wrapped : WrappedNumber) : Except Error (NSNumber F) :=
  match wrapped.type with
  | .long =>
      match parsedInt wrapped.value with
      | some n => .ok (.ofInt n)
      | none => .error (.failedToParseWrappedNumber wrapped.value wrapped.type.rawValue)
  | .unsignedLong =>
      match parsedUInt wrapped.value with
      | some n => .ok (.ofUInt n)
      | none => .error (.failedToParseWrappedNumber wrapped.value wrapped.type.rawValue)

mutual

def encode : Value F → Except Error (Value F)
  | .null => .ok .null
  | .number number => .ok (wrapNumberIfNeeded number)
  | .string s => .ok (.string s)
  | .dictionary entries => (encodeEntries entries []).map .dictionary
  | .array elements => (encodeElements elements).map .array
  | .object typeName => .error (.unsupportedType typeName)

/-- The loop over a dictionary, with what was encoded so far -/
def encodeEntries : List (String × Value F) → List (String × Value F) → Except Error (List (String × Value F))
  | [], encoded => .ok encoded
  | (key, value) :: rest, encoded =>
      match encode value with
      | .ok value => encodeEntries rest (Value.set key value encoded)
      | .error error => .error error

def encodeElements : List (Value F) → Except Error (List (Value F))
  | [] => .ok []
  | element :: rest =>
      match encode element with
      | .ok element => (encodeElements rest).map (element :: ·)
      | .error error => .error error

end

mutual

def decode : Value F → Except Error (Value F)
  | .dictionary entries =>
      match WrappedNumber.ofDictionary entries with
      | some wrapped => (unwrapNumber wrapped).map .number
      | none => (decodeEntries entries []).map .dictionary
  | .array elements => (decodeElements elements).map .array
  | .number number => .ok (.number number)
  | .string s => .ok (.string s)
  | .null => .ok .null
  | .object typeName => .error (.unsupportedType typeName)

def decodeEntries : List (String × Value F) → List (String × Value F) → Except Error (List (String × Value F))
  | [], decoded => .ok decoded
  | (key, value) :: rest, decoded =>
      match decode value with
      | .ok value => decodeEntries rest (Value.set key value decoded)
      | .error error => .error error

def decodeElements : List (Value F) → Except Error (List (Value F))
  | [] => .ok []
  | element :: rest =>
      match decode element with
      | .ok element => (decodeElements rest).map (element :: ·)
      | .error error => .error error

end

end FunctionsSerializer

end FirebaseSwift.Functions
