import FirebaseSwift.Database.KeySets
import FirebaseSwift.Database.NodeLeaves

/-! Plain values, the dictionaries, arrays, strings and numbers that a node is converted to. Children whose
keys are all integers may become an array. For export a priority is put beside the children, and beside
the value of a leaf, and nothing becomes an array. -/

namespace FirebaseSwift.Database

open UnicodeStrings FUtilities SortedDictionary

/-! ### Leaf values -/

/-- An `NSNumber` that is not a Boolean, over a type of doubles -/
inductive PlainNumber (D : Type) where
  | int64 (value : Int64)
  | uint64 (value : UInt64)
  | double (value : D)

/-- A number of a node -/
inductive LeafNumber (D : Type) where
  | int64 (value : Int64)
  | double (value : D)

inductive ServerValueOp (D : Type) where
  | timestamp
  | increment (delta : LeafNumber D)

inductive LeafValue (D : Type) where
  | bool (value : Bool)
  | number (value : LeafNumber D)
  | string (value : List Char)
  | deferredValue (op : ServerValueOp D)

/-- What is used of a type of doubles. -/
class DoubleType (D : Type) where
  ofUInt64 : UInt64 → D
  /-- `Int(exactly:)` -/
  exactly : D → Option Int64

instance : DoubleType Float where
  ofUInt64 := UInt64.toFloat
  exactly value := if value.toInt64.toFloat == value then some value.toInt64 else none

/-- `LeafValue.number(_:)`. Integers up to the greatest signed one stay integers. -/
def LeafNumber.ofNumber {D : Type} [DoubleType D] : PlainNumber D → LeafNumber D
  | .int64 value => .int64 value
  | .uint64 value =>
      if value.toNat < 2 ^ 63 then .int64 (Int64.ofNat value.toNat) else .double (DoubleType.ofUInt64 value)
  | .double value => .double value

def LeafNumber.foundationValue {D : Type} : LeafNumber D → PlainNumber D
  | .int64 value => .int64 value
  | .double value => .double value

/-! ### Keys and plain values -/

/-- Keys that are strings. There is a key for each position of an array, and for each part of a payload. -/
class StringKey (K : Type) extends DatabaseKey K where
  text : K → List Char
  ofText : List Char → Option K
  ofText_eq_some_iff : ∀ s key, ofText s = some key ↔ text key = s
  position : Nat → K
  text_position : ∀ i, text (position i) = Nat.toDigits 10 i
  payloadValue : K
  text_payloadValue : text payloadValue = ".value".toList
  text_priority : text priority = ".priority".toList
  serverValueSubKey : K
  text_serverValueSubKey : text serverValueSubKey = ".sv".toList
  incrementKey : K
  text_incrementKey : text incrementKey = "increment".toList

export StringKey (text ofText position payloadValue serverValueSubKey incrementKey)

theorem text_injective {K : Type} [StringKey K] : Function.Injective (text : K → List Char) := by
  intro key key' h
  have hkey := (StringKey.ofText_eq_some_iff (text key') key).mpr h
  rw [(StringKey.ofText_eq_some_iff (text key') key').mpr rfl] at hkey
  exact (Option.some.inj hkey).symm

instance : StringKey String where
  text := String.toList
  ofText s := some (String.ofList s)
  ofText_eq_some_iff s key := by
    rw [Option.some_inj, ← String.toList_inj, String.toList_ofList, eq_comm]
  position := Nat.repr
  text_position i := by rw [Nat.repr, String.toList_ofList]
  payloadValue := ".value"
  text_payloadValue := rfl
  text_priority := rfl
  serverValueSubKey := ".sv"
  text_serverValueSubKey := rfl
  incrementKey := "increment"
  text_incrementKey := rfl

inductive PlainValue (K D : Type) where
  | null
  | bool (value : Bool)
  | number (value : PlainNumber D)
  | string (value : List Char)
  | dictionary (entries : List (K × PlainValue K D))
  | array (values : List (PlainValue K D))

def timestampKey : List Char := "timestamp".toList

variable {K D : Type} [StringKey K]

def LeafValue.foundationValue : LeafValue D → PlainValue K D
  | .bool value => .bool value
  | .number value => .number value.foundationValue
  | .string value => .string value
  | .deferredValue .timestamp => .dictionary [(serverValueSubKey, .string timestampKey)]
  | .deferredValue (.increment delta) =>
      .dictionary [(serverValueSubKey, .dictionary [(incrementKey, .number delta.foundationValue)])]

/-! ### Converting a node -/

/-- What the loop over the children finds out about their keys. -/
structure KeyScan where
  numKeys : Nat := 0
  maxKey : Int := 0
  allIntegerKeys : Bool := true

section Scan

variable [UnicodeVersion]

/-- `key.key.first == "0" && key.key.count > 1` -/
def hasLeadingZero (key : List Char) : Bool :=
  decide (Equivalent ((characters key).headD []) ['0']) && decide (1 < (characters key).length)

def KeyScan.next (scan : KeyScan) (key : List Char) : Except Trap KeyScan :=
  let numKeys := scan.numKeys + 1
  if !scan.allIntegerKeys then .ok { scan with numKeys := numKeys }
  else if hasLeadingZero key then .ok { scan with numKeys := numKeys, allIntegerKeys := false }
  else do
    match ← tryParseStringToInt key with
    | some keyAsInt => .ok { scan with numKeys := numKeys, maxKey := max scan.maxKey keyAsInt }
    | none => .ok { scan with numKeys := numKeys, allIntegerKeys := false }

mutual

/-- `val(forExport:)` -/
def valOf : Bool → NodeData K (LeafValue D) → Except Trap (PlainValue K D)
  | _, .empty => .ok .null
  | exp, .leaf value priority =>
      if exp && !priority.isEmpty then do
        let priorityValue ← valOf false priority
        .ok (.dictionary
          [(payloadValue, value.foundationValue), (DatabaseKey.priority, priorityValue)])
      else .ok value.foundationValue
  | exp, .children dict priority =>
      if dict.isEmpty then .ok .null
      else do
        let (obj, scan) ← valOfChildren exp dict {}
        if !exp && scan.allIntegerKeys && decide (scan.maxKey < 2 * scan.numKeys) then
          .ok (.array ((List.range (scan.maxKey.toNat + 1)).map fun i => (get (position i) obj).getD .null))
        else if exp && !priority.isEmpty then do
          let priorityValue ← valOf false priority
          .ok (.dictionary (obj ++ [(DatabaseKey.priority, priorityValue)]))
        else .ok (.dictionary obj)

def valOfChildren (exp : Bool) : List (K × NodeData K (LeafValue D)) → KeyScan →
    Except Trap (List (K × PlainValue K D) × KeyScan)
  | [], scan => .ok ([], scan)
  | (key, childNode) :: rest, scan => do
      let value ← valOf exp childNode
      let scan ← scan.next (text key)
      let (obj, scan) ← valOfChildren exp rest scan
      .ok ((key, value) :: obj, scan)

end

def FNode.val (node : FNode K (LeafValue D)) (exp : Bool) : Except Trap (PlainValue K D) :=
  valOf exp node.data

end Scan

end FirebaseSwift.Database
