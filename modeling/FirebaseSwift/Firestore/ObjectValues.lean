import FirebaseSwift.Firestore.UserData

/-! The data of a document, `ObjectValue`: a map whose fields are in the order of their keys, at every
depth. -/

namespace FirebaseSwift.Firestore

open Value

variable {D : Type}

structure ObjectValue (D : Type) where
  fields : List (Bytes × Value D) := []

namespace ObjectValue

/-- An object made of a value, which has to be a map -/
def ofValue : Value D → Option (ObjectValue D)
  | .map fields =>
      match sortFields (.map fields) with
      | .map sorted => some ⟨sorted⟩
      | _ => none
  | _ => none

/-- `ApplyChanges` with one change. An existing entry is replaced, a new one put where its key belongs. -/
def applyChange (key : Bytes) (value : Value D) : List (Bytes × Value D) → List (Bytes × Value D)
  | [] => [(key, sortFields value)]
  | (sourceKey, source) :: fields =>
      if key = sourceKey then (sourceKey, sortFields value) :: fields
      else if sourceKey < key then (sourceKey, source) :: applyChange key value fields
      else (key, sortFields value) :: (sourceKey, source) :: fields

/-- The fields of a map, or none. `ParentMap` empties a value that is no map. -/
def mapFields : Value D → List (Bytes × Value D)
  | .map fields => fields
  | _ => []

/-- Changes the first entry with a key in its place. -/
def modifyEntry (key : Bytes) (f : Value D → Value D) : List (Bytes × Value D) → List (Bytes × Value D)
  | [] => []
  | (sourceKey, source) :: fields =>
      if sourceKey = key then (sourceKey, f source) :: fields else (sourceKey, source) :: modifyEntry key f fields

/-- `ParentMap` and the change there. A parent that is missing is made an empty map first. -/
def setAt : FieldPath → Value D → List (Bytes × Value D) → List (Bytes × Value D)
  | [], _, fields => fields
  | [last], value, fields => applyChange last value fields
  | segment :: next :: path, value, fields =>
      let parents := if fields.any (·.1 == segment) then fields else applyChange segment (.map []) fields
      modifyEntry segment (fun source => .map (setAt (next :: path) value (mapFields source))) parents

/-- `ObjectValue::Set`, which needs a path that is not empty -/
def set (object : ObjectValue D) (path : FieldPath) (value : Value D) : Option (ObjectValue D) :=
  if path = [] then none else some ⟨setAt path value object.fields⟩

end ObjectValue

end FirebaseSwift.Firestore
