import FirebaseSwift.Database.PlainValues

/-! Making a node from a plain value. Values, priorities, keys and the depth are checked on the way; where
a check fails the program stops, and there is no node. Empty children are left out, and so are the
keys of a payload. -/

namespace FirebaseSwift.Database

open FUtilities SortedDictionary

variable {K D : Type} [StringKey K] [DoubleType D]

def kFirebaseMaxObjectDepth : Nat := 1000

def kFirebaseMaxLeafSize : Nat := 1024 * 1024 * 10

/-! ### Checks -/

namespace FValidation

def lengthOfBytes (s : List Char) : Nat := (s.map Char.utf8Size).sum

def invalidKeyCharacters : List Char := "[].#$/".toList

def isValidKey (key : List Char) : Bool := !key.isEmpty && key.all fun c => !invalidKeyCharacters.contains c

/-- The keys that are left are those of the children and of a payload. -/
def isValidDictionaryKey (key : K) : Bool :=
  decide (key = DatabaseKey.priority) || decide (key = payloadValue) || decide (key = serverValueSubKey) ||
    isValidKey (text key)

/-- There is no result where the program stops. -/
def isValidLeafValue : PlainValue K D → Option Bool
  | .null => some true
  | .bool _ => some true
  | .number _ => some true
  | .string s => if kFirebaseMaxLeafSize < lengthOfBytes s then none else some true
  | .dictionary dval =>
      if (get serverValueSubKey dval).isSome then if dval.length ≤ 1 then some true else none
      else some false
  | .array _ => some false

/-- Whether the program goes on with the priority. -/
def isValidPriorityValue : PlainValue K D → Bool
  | .dictionary dval => (get serverValueSubKey dval).isSome && decide (dval.length ≤ 1)
  | .array _ => false
  | _ => true

end FValidation

open FValidation

namespace FSnapshotUtilities

/-- The server value that a placeholder stands for. A Boolean is the number one or zero. -/
def serverValueOp : PlainValue K D → Option (ServerValueOp D)
  | .string scalar => if scalar = timestampKey then some .timestamp else none
  | .dictionary complex =>
      match get incrementKey complex with
      | some (.number delta) => some (.increment (.ofNumber delta))
      | some (.bool delta) => some (.increment (.int64 (if delta then 1 else 0)))
      | _ => none
  | _ => none

/-- The value of a leaf. -/
def leafValueFrom : PlainValue K D → Option (LeafValue D)
  | .bool value => some (.bool value)
  | .number value => some (.number (.ofNumber value))
  | .string value => some (.string value)
  | .dictionary dict => ((get serverValueSubKey dict).bind serverValueOp).map .deferredValue
  | _ => none

/-- A priority that passed the check is nothing, or the value of a leaf. -/
def priorityFrom (value : PlainValue K D) : Option (FNode K (LeafValue D)) :=
  if !isValidPriorityValue value then none
  else
    match value with
    | .null => some .empty
    | value => do
        let _ ← isValidLeafValue value
        let leafValue ← leafValueFrom value
        some (.leaf leafValue .empty)

/-- The priority of a dictionary -/
def dictionaryPriority (dict : List (K × PlainValue K D)) : Option (FNode K (LeafValue D)) :=
  match get DatabaseKey.priority dict with
  | some rawPriority => priorityFrom rawPriority
  | none => some .empty

/-- The node with the children. They are sorted, and none of them is empty. -/
def childrenNode (children : List (K × FNode K (LeafValue D))) (priority : FNode K (LeafValue D)) :
    FNode K (LeafValue D) :=
  (children.foldl (fun (node : FNode K (LeafValue D)) child => node.updateImmediateChild child.1 child.2)
    FNode.empty).updatePriority priority

mutual

/-- `internalNodeFrom` of a value without a separate priority -/
def nodeFrom (depth : Nat) : PlainValue K D → Option (FNode K (LeafValue D))
  | .null => if kFirebaseMaxObjectDepth < depth then none else some .empty
  | .dictionary dict =>
      if kFirebaseMaxObjectDepth < depth then none
      else do
        let priority ← dictionaryPriority dict
        match get payloadValue dict with
        | some payload => do
            if ← isValidLeafValue payload then
              let leafValue ← leafValueFrom payload
              some (.leaf leafValue priority)
            else none
        | none => do
            if ← isValidLeafValue (.dictionary dict) then
              let leafValue ← leafValueFrom (.dictionary dict)
              some (.leaf leafValue priority)
            else
              let children ← childrenFromDictionary depth dict
              some (childrenNode children priority)
  | .array aval =>
      if kFirebaseMaxObjectDepth < depth then none
      else do
        let children ← childrenFromArray depth 0 aval
        some (childrenNode children .empty)
  | value =>
      if kFirebaseMaxObjectDepth < depth then none
      else do
        let _ ← isValidLeafValue value
        let leafValue ← leafValueFrom value
        some (.leaf leafValue .empty)

def childrenFromDictionary (depth : Nat) :
    List (K × PlainValue K D) → Option (List (K × FNode K (LeafValue D)))
  | [] => some []
  | (key, value) :: rest => do
      if !isValidDictionaryKey key then none
      -- The keys of a payload start with a dot.
      else if (text key).head? = some '.' then childrenFromDictionary depth rest
      else
        let childNode ← nodeFrom (depth + 1) value
        let children ← childrenFromDictionary depth rest
        some (if childNode.isEmpty then children else (key, childNode) :: children)

def childrenFromArray (depth : Nat) :
    Nat → List (PlainValue K D) → Option (List (K × FNode K (LeafValue D)))
  | _, [] => some []
  | i, value :: rest => do
      let childNode ← nodeFrom (depth + 1) value
      let children ← childrenFromArray depth (i + 1) rest
      some (if childNode.isEmpty then children else (position i, childNode) :: children)

end

end FSnapshotUtilities

end FirebaseSwift.Database
