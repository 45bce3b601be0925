import FirebaseSwift.Database.CompoundWrite
import FirebaseSwift.Database.SnapshotUtilities

/-! The pending writes in the persistent storage. A write is stored as a dictionary with its id, its path and
what it writes, in the export format, under the decimal text of its id. Reading goes through the records in
the order of these texts and sorts the writes by their ids. The serialization of a dictionary and the database
of sorted records are not part of the program. -/

namespace FirebaseSwift.Database

open SortedDictionary FSnapshotUtilities

variable {K D : Type} [StringKey K]

/-! ### Paths as strings -/

namespace FPath

/-- `toString(withTrailingSlash: true)` -/
def toStringWithTrailingSlash (path : FPath K) : List Char :=
  let pathString := path.flatMap fun piece => '/' :: text piece
  if pathString.isEmpty then ['/'] else pathString ++ ['/']

def wireFormat (path : FPath K) : List Char :=
  if path.isEmpty then ['/'] else List.intercalate ['/'] (path.map text)

/-- `FPath(with:)` -/
def ofString (path : List Char) : FPath K :=
  ((path.splitOn '/').filter fun piece => !piece.isEmpty).filterMap ofText

end FPath

/-! ### The dictionary of a write -/

def kFUserWriteId : List Char := "id".toList

def kFUserWritePath : List Char := "path".toList

def kFUserWriteOverwrite : List Char := "o".toList

def kFUserWriteMerge : List Char := "m".toList

/-- What the dictionary of a write contains: a plain value, or plain values by path. -/
inductive WriteField (K D : Type) where
  | value (value : PlainValue K D)
  | dictionary (entries : List (List Char × PlainValue K D))

abbrev WriteJSON (K D : Type) := List (List Char × WriteField K D)

namespace WriteField

/-- `as? Int` -/
def asInt [DoubleType D] : WriteField K D → Option Int64
  | .value (.bool flag) => some (if flag then 1 else 0)
  | .value (.number (.int64 number)) => some number
  | .value (.number (.uint64 number)) =>
      if number.toNat < 2 ^ 63 then some (Int64.ofNat number.toNat) else none
  | .value (.number (.double number)) => DoubleType.exactly number
  | _ => none

/-- `as? String` -/
def asString : WriteField K D → Option (List Char)
  | .value (.string s) => some s
  | _ => none

/-- `as? [String: Any]` -/
def asDictionary : WriteField K D → Option (List (List Char × PlainValue K D))
  | .value (.dictionary dict) => some (dict.map fun entry => (text entry.1, entry.2))
  | .value _ => none
  | .dictionary entries => some entries

def asValue : WriteField K D → PlainValue K D
  | .value plain => plain
  | .dictionary entries =>
      .dictionary (entries.filterMap fun entry => (ofText entry.1).map fun key => (key, entry.2))

end WriteField

section Saving

variable [UnicodeStrings.UnicodeVersion]

def FCompoundWrite.valForExport (self : FCompoundWrite K (LeafValue D)) (exportFormat : Bool) :
    Except Trap (List (List Char × PlainValue K D)) :=
  self.enumerateWrites.foldlM (fun dictionary write => do
    let value ← write.2.val exportFormat
    .ok (set (· < ·) write.1.wireFormat value dictionary)) []

def overwriteJSON (node : FNode K (LeafValue D)) (path : FPath K) (writeId : Int64) :
    Except Trap (WriteJSON K D) := do
  let overwrite ← node.val true
  .ok [(kFUserWriteId, .value (.number (.int64 writeId))),
    (kFUserWritePath, .value (.string path.toStringWithTrailingSlash)), (kFUserWriteOverwrite, .value overwrite)]

def mergeJSON (merge : FCompoundWrite K (LeafValue D)) (path : FPath K) (writeId : Int64) :
    Except Trap (WriteJSON K D) := do
  let dictionary ← merge.valForExport true
  .ok [(kFUserWriteId, .value (.number (.int64 writeId))),
    (kFUserWritePath, .value (.string path.toStringWithTrailingSlash)), (kFUserWriteMerge, .dictionary dictionary)]

end Saving

/-! ### Reading a write -/

/-- What a stored write writes. Nothing checks the tree of a merge. -/
inductive StoredRecord (K D : Type) [StringKey K] where
  | overwrite (node : FNode K (LeafValue D))
  | merge (writeTree : FImmutableTree K (FNode K (LeafValue D)))

structure StoredWrite (K D : Type) [StringKey K] where
  record : StoredRecord K D
  writeId : Int64
  path : FPath K
  visible : Bool

variable [DoubleType D]

/-- The tree of `compoundWrite(valueDictionary:)` -/
def compoundWriteTree (dictionary : List (List Char × PlainValue K D)) :
    Option (FImmutableTree K (FNode K (LeafValue D))) :=
  dictionary.foldlM (fun writeTree entry => do
    let node ← nodeFrom 0 entry.2
    some (FImmutableTree.setTree (.ofValue (some node)) (FPath.ofString entry.1) writeTree)) .empty

/-- The write of a dictionary. A dictionary without an id or a path is passed over. There is no result where
the program stops. -/
def userWriteFrom (writeJSON : WriteJSON K D) : Option (Option (StoredWrite K D)) :=
  match (get kFUserWriteId writeJSON).bind WriteField.asInt with
  | none => some none
  | some writeId =>
      match (get kFUserWritePath writeJSON).bind WriteField.asString with
      | none => some none
      | some pathString =>
          let path := FPath.ofString pathString
          match (get kFUserWriteMerge writeJSON).bind WriteField.asDictionary with
          | some dictionary => do
              let writeTree ← compoundWriteTree dictionary
              some (some ⟨.merge writeTree, writeId, path, true⟩)
          | none => do
              let overwrite ← get kFUserWriteOverwrite writeJSON
              let node ← nodeFrom 0 overwrite.asValue
              some (some ⟨.overwrite node, writeId, path, true⟩)

/-! ### The database -/

/-- `"\(writeId)"` -/
def writeRecordKey (writeId : Int64) : List Char :=
  if writeId.toInt < 0 then '-' :: Nat.toDigits 10 writeId.toInt.natAbs else Nat.toDigits 10 writeId.toInt.natAbs

/-- What reading a record can fail with -/
inductive JSONError where
  | nanFailure
  | other

/-- `JSONSerialization`. A record may be no dictionary. -/
structure JSONSerialization (K D Data : Type) where
  data : WriteJSON K D → Option Data
  jsonObject : Data → Except JSONError (Option (WriteJSON K D))

/-- The records by key, in the order of the keys. -/
abbrev WritesDB (Data : Type) := List (List Char × Data)

inductive UserWriteEvent (K D : Type) [StringKey K] where
  | saveUserOverwrite (node : FNode K (LeafValue D)) (path : FPath K) (writeId : Int64)
  | saveUserMerge (merge : FCompoundWrite K (LeafValue D)) (path : FPath K) (writeId : Int64)
  | removeUserWrite (writeId : Int64)

namespace WritesDB

variable {Data : Type}

/-- A write that cannot be serialized is not stored. -/
def save (json : JSONSerialization K D Data) (writesDB : WritesDB Data) (writeJSON : WriteJSON K D)
    (writeId : Int64) : WritesDB Data :=
  match json.data writeJSON with
  | some data => set (· < ·) (writeRecordKey writeId) data writesDB
  | none => writesDB

section Steps

variable [UnicodeStrings.UnicodeVersion]

def saveUserOverwrite (json : JSONSerialization K D Data) (writesDB : WritesDB Data)
    (node : FNode K (LeafValue D)) (path : FPath K) (writeId : Int64) : Except Trap (WritesDB Data) := do
  let write ← overwriteJSON node path writeId
  .ok (writesDB.save json write writeId)

def saveUserMerge (json : JSONSerialization K D Data) (writesDB : WritesDB Data)
    (merge : FCompoundWrite K (LeafValue D)) (path : FPath K) (writeId : Int64) : Except Trap (WritesDB Data) := do
  let write ← mergeJSON merge path writeId
  .ok (writesDB.save json write writeId)

def removeUserWrite (writesDB : WritesDB Data) (writeId : Int64) : WritesDB Data :=
  remove (writeRecordKey writeId) writesDB

def perform (json : JSONSerialization K D Data) (writesDB : WritesDB Data) :
    UserWriteEvent K D → Except Trap (WritesDB Data)
  | .saveUserOverwrite node path writeId => writesDB.saveUserOverwrite json node path writeId
  | .saveUserMerge merge path writeId => writesDB.saveUserMerge json merge path writeId
  | .removeUserWrite writeId => .ok (writesDB.removeUserWrite writeId)

def run (json : JSONSerialization K D Data) (events : List (UserWriteEvent K D)) : Except Trap (WritesDB Data) :=
  events.foldlM (perform json) []

end Steps

/-- One record of the loop, with the writes so far and the database. A record with a number that is not
finite is removed. -/
def readRecord (json : JSONSerialization K D Data) (state : List (StoredWrite K D) × WritesDB Data)
    (entry : List Char × Data) : Option (List (StoredWrite K D) × WritesDB Data) :=
  match json.jsonObject entry.2 with
  | .ok none => some state
  | .ok (some writeJSON) => do
      match ← userWriteFrom writeJSON with
      | some writeRecord => some (state.1 ++ [writeRecord], state.2)
      | none => some state
  | .error .nanFailure => some (state.1, remove entry.1 state.2)
  | .error .other => none

/-- The writes, sorted by their ids, and the database after reading them -/
def userWrites (json : JSONSerialization K D Data) (writesDB : WritesDB Data) :
    Option (List (StoredWrite K D) × WritesDB Data) := do
  let (writes, writesDB) ← writesDB.foldlM (readRecord json) ([], writesDB)
  some (writes.mergeSort fun write write' => decide (write.writeId ≤ write'.writeId), writesDB)

end WritesDB

end FirebaseSwift.Database
