import Mathlib.Data.List.Lex
import Mathlib.Tactic.SplitIfs

/-! The values that cross from Swift into C++, `BridgeFieldValue`, with the document keys that references
hold. A string is the list of its bytes. A tag and the members that belong to it are one constructor. -/

namespace FirebaseSwift.Firestore

/-! ### Bytes -/

/-- The bytes of a `std::string` -/
abbrev Bytes := List UInt8

/-- The bytes of an ASCII text -/
def ascii (text : String) : Bytes := text.toList.map fun c => UInt8.ofNat c.toNat

instance instLinearOrderUInt8 : LinearOrder UInt8 where
  le_refl _ := UInt8.le_refl _
  le_trans _ _ _ := UInt8.le_trans
  le_antisymm _ _ := UInt8.le_antisymm
  le_total := UInt8.le_total
  lt_iff_le_not_ge a b := by
    rw [UInt8.not_le]
    exact ⟨fun h => ⟨UInt8.le_of_lt h, h⟩, And.right⟩
  toDecidableLE := inferInstance

/-! ### Document keys -/

def slash : UInt8 := 47

/-- Whether a byte string can be a segment of a resource path. -/
def IsSegment (segment : Bytes) : Prop := segment ≠ [] ∧ slash ∉ segment

instance (segment : Bytes) : Decidable (IsSegment segment) := inferInstanceAs (Decidable (_ ∧ _))

@[ext]
structure ResourcePath where
  segments : List Bytes
  valid : ∀ segment ∈ segments, IsSegment segment

theorem not_mem_of_mem_splitOn {x : UInt8} {text piece : Bytes} (h : piece ∈ text.splitOn x) : x ∉ piece := by
  induction text generalizing piece with
  | nil =>
      rw [List.splitOn_nil, List.mem_singleton] at h
      rw [h]
      exact List.not_mem_nil
  | cons first rest ih =>
      rw [List.splitOn, List.splitOnP_cons_eq_if_modifyHead] at h
      split_ifs at h with hfirst
      · rcases List.mem_cons.mp h with rfl | h
        · exact List.not_mem_nil
        · exact ih h
      · rw [← List.splitOn] at h
        cases hsplit : rest.splitOn x with
        | nil => exact absurd hsplit (List.splitOnP_ne_nil _ _)
        | cons head tail =>
            rw [hsplit] at h
            rcases List.mem_cons.mp h with rfl | h
            · have hhead : x ∉ head := ih (hsplit ▸ List.mem_cons_self)
              exact fun hmem => (List.mem_cons.mp hmem).elim
                (fun heq => hfirst (beq_iff_eq.mpr heq.symm)) hhead
            · exact ih (hsplit ▸ List.mem_cons_of_mem _ h)

/-- `absl::StrContains(path, "//")` -/
def containsDoubleSlash : Bytes → Bool
  | first :: second :: rest => (first == slash && second == slash) || containsDoubleSlash (second :: rest)
  | _ => false

/-- Paths with `//` are refused, and a slash at either end is skipped. -/
def ResourcePath.fromString (path : Bytes) : Option ResourcePath :=
  if containsDoubleSlash path then none
  else some ⟨(path.splitOn slash).filter (· ≠ []), fun _ h =>
    ⟨of_decide_eq_true (List.mem_filter.mp h).2, not_mem_of_mem_splitOn (List.mem_filter.mp h).1⟩⟩

theorem ResourcePath.segments_fromString {path : Bytes} (h : containsDoubleSlash path = false) :
    (ResourcePath.fromString path).map segments = some ((path.splitOn slash).filter (· ≠ [])) := by
  rw [ResourcePath.fromString, h, if_neg Bool.false_ne_true, Option.map_some]

def ResourcePath.canonicalString (path : ResourcePath) : Bytes := [slash].intercalate path.segments

def ResourcePath.popFirst (path : ResourcePath) (n : Nat) : ResourcePath :=
  ⟨path.segments.drop n, fun segment h => path.valid segment (List.mem_of_mem_drop h)⟩

@[simp] theorem ResourcePath.segments_popFirst (path : ResourcePath) (n : Nat) :
    (path.popFirst n).segments = path.segments.drop n := rfl

/-- A path of a document, with an even number of segments -/
@[ext]
structure DocumentKey where
  path : ResourcePath
  isDocumentKey : path.segments.length % 2 = 0

def DocumentKey.ofPath (path : ResourcePath) : Option DocumentKey :=
  if h : path.segments.length % 2 = 0 then some ⟨path, h⟩ else none

def DocumentKey.toString (key : DocumentKey) : Bytes := key.path.canonicalString

def DocumentKey.fromPathString (path : Bytes) : Option DocumentKey := do
  DocumentKey.ofPath (← ResourcePath.fromString path)

/-- The key in the full name of a document -/
def DocumentKey.fromName (name : Bytes) : Option DocumentKey := do
  let resourceName ← ResourcePath.fromString name
  if 4 < resourceName.segments.length ∧ resourceName.segments[0]? = some (ascii "projects") ∧
      resourceName.segments[2]? = some (ascii "databases") ∧
      resourceName.segments[4]? = some (ascii "documents") then
    DocumentKey.ofPath (resourceName.popFirst 5)
  else none

structure DatabaseId where
  projectId : Bytes
  databaseId : Bytes
deriving DecidableEq

/-! ### Values -/

/-- The operand of a numeric transform. `FieldValue` is made with an `Int64` or a `Double` only. -/
inductive NumericOperand (D : Type) where
  | integer (value : Int64)
  | double (value : D)

/-- A value of user data, over a type of doubles -/
inductive BridgeFieldValue (D : Type) where
  | null
  | boolean (value : Bool)
  | integer (value : Int64)
  | double (value : D)
  | string (value : Bytes)
  | blob (bytes : Bytes)
  | timestamp (seconds : Int64) (nanoseconds : Int32)
  | geoPoint (latitude longitude : D)
  | array (elements : List (BridgeFieldValue D))
  | map (entries : List (Bytes × BridgeFieldValue D))
  | reference (database : DatabaseId) (document : DocumentKey)
  | unsupported (typeName : Bytes)
  | minKey
  | maxKey
  | regex (pattern options : Bytes)
  | int32 (value : Int32)
  | decimal128 (value : Bytes)
  | bsonObjectId (value : Bytes)
  | bsonTimestamp (seconds increment : UInt32)
  | bsonBinaryData (subtype : UInt8) (bytes : Bytes)
  | vector (doubles : List D)
  | sentinelDelete
  | sentinelServerTimestamp
  | sentinelArrayUnion (elements : List (BridgeFieldValue D))
  | sentinelArrayRemove (elements : List (BridgeFieldValue D))
  | sentinelIncrement (operand : NumericOperand D)
  | sentinelMinimum (operand : NumericOperand D)
  | sentinelMaximum (operand : NumericOperand D)

namespace BridgeFieldValue

variable {D : Type}

def isSentinel : BridgeFieldValue D → Bool
  | .sentinelDelete => true
  | .sentinelServerTimestamp => true
  | .sentinelArrayUnion _ => true
  | .sentinelArrayRemove _ => true
  | .sentinelIncrement _ => true
  | .sentinelMinimum _ => true
  | .sentinelMaximum _ => true
  | _ => false

/-- A document path without its database, as it is read back from a document -/
def fromDocumentPath (document : DocumentKey) : BridgeFieldValue D := .reference ⟨[], []⟩ document

end BridgeFieldValue

/-! ### The name of a document -/

/-- The name of a document in a database, as `RefValue` writes it -/
def referenceName (database : DatabaseId) (document : DocumentKey) : Bytes :=
  ascii "projects/" ++ database.projectId ++ ascii "/databases/" ++ database.databaseId ++
    ascii "/documents/" ++ document.toString

/-- Whether the names of a database can stand in the name of a document. -/
def DatabaseId.IsNameable (database : DatabaseId) : Prop :=
  IsSegment database.projectId ∧ IsSegment database.databaseId

variable {segment : Bytes} {segments : List Bytes} {database : DatabaseId}

/-- A segment in front changes nothing, also where it ends. -/
theorem containsDoubleSlash_append (h : slash ∉ segment) (rest : Bytes) :
    containsDoubleSlash (segment ++ rest) = containsDoubleSlash rest := by
  induction segment with
  | nil => rfl
  | cons first segment ih =>
      have hne : (first == slash) = false :=
        beq_eq_false_iff_ne.mpr fun heq => h (heq ▸ List.mem_cons_self)
      have hih := ih fun hmem => h (List.mem_cons_of_mem first hmem)
      rw [List.cons_append]
      cases hrest : segment ++ rest with
      | nil =>
          rw [hrest] at hih
          exact hih
      | cons second others =>
          rw [hrest] at hih
          rw [containsDoubleSlash, hne, Bool.false_and, Bool.false_or, hih]

theorem containsDoubleSlash_slash {rest : Bytes} (h : rest.head? ≠ some slash) :
    containsDoubleSlash (slash :: rest) = containsDoubleSlash rest := by
  cases rest with
  | nil => rfl
  | cons first rest =>
      have hne : (first == slash) = false :=
        beq_eq_false_iff_ne.mpr fun heq => h (congrArg some heq)
      rw [containsDoubleSlash, hne, Bool.and_false, Bool.false_or]

theorem IsSegment.head_append (h : IsSegment segment) (rest : Bytes) : (segment ++ rest).head? ≠ some slash := by
  obtain ⟨hne, hslash⟩ := h
  cases segment with
  | nil => exact absurd rfl hne
  | cons first segment =>
      intro heq
      exact hslash (Option.some.inj heq ▸ List.mem_cons_self)

/-- Joined segments have no double slash and do not start with a slash. The last may be empty. -/
theorem containsDoubleSlash_intercalate (h : ∀ segment ∈ segments, IsSegment segment) {last : Bytes}
    (hlast : slash ∉ last) : containsDoubleSlash ([slash].intercalate (segments ++ [last])) = false ∧
      ([slash].intercalate (segments ++ [last])).head? ≠ some slash := by
  induction segments with
  | nil =>
      rw [List.nil_append, List.intercalate_singleton]
      constructor
      · have hempty := containsDoubleSlash_append hlast []
        rw [List.append_nil] at hempty
        rw [hempty]
        rfl
      · exact fun hhead => hlast (List.mem_of_mem_head? hhead)
  | cons segment segments ih =>
      obtain ⟨hsegment, hsegments⟩ := List.forall_mem_cons.mp h
      obtain ⟨hdouble, hhead⟩ := ih hsegments
      have hne : segments ++ [last] ≠ [] := List.append_ne_nil_of_right_ne_nil _ (List.cons_ne_nil _ _)
      rw [List.cons_append, List.intercalate_cons_of_ne_nil hne, List.append_assoc]
      constructor
      · rw [containsDoubleSlash_append hsegment.2, List.singleton_append, containsDoubleSlash_slash hhead, hdouble]
      · exact hsegment.head_append _

/-- The segments in front of the key in the name of a document -/
def DatabaseId.nameSegments (database : DatabaseId) : List Bytes :=
  [ascii "projects", database.projectId, ascii "databases", database.databaseId, ascii "documents"]

theorem referenceName_eq (database : DatabaseId) (hne : segments ≠ []) :
    ascii "projects/" ++ database.projectId ++ ascii "/databases/" ++ database.databaseId ++
      ascii "/documents/" ++ [slash].intercalate segments =
    [slash].intercalate (database.nameSegments ++ segments) := by
  have hprojects : ascii "projects/" = ascii "projects" ++ [slash] := rfl
  have hdatabases : ascii "/databases/" = [slash] ++ ascii "databases" ++ [slash] := rfl
  have hdocuments : ascii "/documents/" = [slash] ++ ascii "documents" ++ [slash] := rfl
  rw [hprojects, hdatabases, hdocuments, DatabaseId.nameSegments]
  simp only [List.cons_append, List.nil_append, List.intercalate_cons_cons, List.intercalate_cons_of_ne_nil hne,
    List.append_assoc]

theorem DatabaseId.IsNameable.nameSegments (h : database.IsNameable) :
    ∀ segment ∈ database.nameSegments, IsSegment segment := by
  have hwords : IsSegment (ascii "projects") ∧ IsSegment (ascii "databases") ∧ IsSegment (ascii "documents") := by
    refine ⟨⟨?_, ?_⟩, ⟨?_, ?_⟩, ⟨?_, ?_⟩⟩ <;> decide
  obtain ⟨hprojects, hdatabases, hdocuments⟩ := hwords
  intro segment hsegment
  simp only [DatabaseId.nameSegments, List.mem_cons, List.not_mem_nil, or_false] at hsegment
  rcases hsegment with rfl | rfl | rfl | rfl | rfl
  · exact hprojects
  · exact h.1
  · exact hdatabases
  · exact h.2
  · exact hdocuments

/-- Joined segments are found again. The last may be empty and is skipped then. -/
theorem ResourcePath.fromString_intercalate (h : ∀ segment ∈ segments, IsSegment segment) {last : Bytes}
    (hlast : slash ∉ last) :
    (ResourcePath.fromString ([slash].intercalate (segments ++ [last]))).map ResourcePath.segments =
      some ((segments ++ [last]).filter (· ≠ [])) := by
  have hslash : ∀ segment ∈ segments ++ [last], slash ∉ segment := by
    intro segment hsegment
    rcases List.mem_append.mp hsegment with hsegment | hsegment
    · exact (h segment hsegment).2
    · rw [List.mem_singleton.mp hsegment]
      exact hlast
  have hne : segments ++ [last] ≠ [] := List.append_ne_nil_of_right_ne_nil _ (List.cons_ne_nil _ _)
  rw [ResourcePath.segments_fromString (containsDoubleSlash_intercalate h hlast).1,
    List.splitOn_intercalate slash hslash hne]

theorem filter_segments (h : ∀ segment ∈ segments, IsSegment segment) : segments.filter (· ≠ []) = segments :=
  List.filter_eq_self.mpr fun segment hsegment => decide_eq_true (h segment hsegment).1

/-- The name of a document has the segments of its database and of its key. -/
theorem fromString_referenceName (h : database.IsNameable) (document : DocumentKey) :
    (ResourcePath.fromString (referenceName database document)).map ResourcePath.segments =
      some (database.nameSegments ++ document.path.segments) := by
  rw [referenceName, DocumentKey.toString, ResourcePath.canonicalString]
  rcases List.eq_nil_or_concat document.path.segments with hsegments | ⟨init, last, hsegments⟩
  · -- The name ends with a slash.
    have hjoined := referenceName_eq database (List.cons_ne_nil [] [])
    rw [List.intercalate_singleton] at hjoined
    rw [hsegments, List.intercalate_nil, hjoined, ResourcePath.fromString_intercalate h.nameSegments List.not_mem_nil,
      List.filter_append, filter_segments h.nameSegments]
    rfl
  · have hvalid := document.path.valid
    rw [hsegments, List.concat_eq_append] at hvalid ⊢
    have hinit : ∀ segment ∈ database.nameSegments ++ init, IsSegment segment := by
      intro segment hsegment
      rcases List.mem_append.mp hsegment with hsegment | hsegment
      · exact h.nameSegments segment hsegment
      · exact hvalid segment (List.mem_append_left _ hsegment)
    have hlast := hvalid last (List.mem_append_right _ List.mem_cons_self)
    rw [referenceName_eq database (List.append_ne_nil_of_right_ne_nil _ (List.cons_ne_nil _ _)), ← List.append_assoc,
      ResourcePath.fromString_intercalate hinit hlast.2, List.filter_append, filter_segments hinit,
      List.filter_singleton, decide_eq_true hlast.1]
    rfl

theorem DocumentKey.fromName_referenceName (h : database.IsNameable) (document : DocumentKey) :
    DocumentKey.fromName (referenceName database document) = some document := by
  obtain ⟨resourceName, hname, hsegments⟩ := Option.map_eq_some_iff.mp (fromString_referenceName h document)
  have hlength : 4 < resourceName.segments.length := by
    rw [hsegments, List.length_append]
    exact Nat.lt_add_right _ (Nat.lt_succ_self 4)
  have hkey : resourceName.popFirst 5 = document.path := ResourcePath.ext (by
    rw [ResourcePath.segments_popFirst, hsegments]
    rfl)
  have hwords : resourceName.segments[0]? = some (ascii "projects") ∧
      resourceName.segments[2]? = some (ascii "databases") ∧
      resourceName.segments[4]? = some (ascii "documents") := by
    rw [hsegments]
    exact ⟨rfl, rfl, rfl⟩
  rw [DocumentKey.fromName, hname, Option.bind_eq_bind, Option.bind_some, if_pos ⟨hlength, hwords⟩, hkey,
    DocumentKey.ofPath, dif_pos document.isDocumentKey]

/-- A reference of another document does not change when it goes to a string and back. -/
theorem DocumentKey.fromPathString_toString (document : DocumentKey) :
    DocumentKey.fromPathString document.toString = some document := by
  have hpath : ResourcePath.fromString document.toString = some document.path := by
    rcases List.eq_nil_or_concat document.path.segments with hsegments | ⟨init, last, hsegments⟩
    · have hempty : document.path = ⟨[], fun _ h => absurd h List.not_mem_nil⟩ := ResourcePath.ext hsegments
      rw [DocumentKey.toString, hempty]
      rfl
    · have hvalid := document.path.valid
      rw [hsegments, List.concat_eq_append] at hvalid
      have hread := ResourcePath.fromString_intercalate
        (fun segment hsegment => hvalid segment (List.mem_append_left _ hsegment))
        (hvalid last (List.mem_append_right _ List.mem_cons_self)).2
      rw [filter_segments hvalid, ← List.concat_eq_append, ← hsegments] at hread
      obtain ⟨path, hpath, heq⟩ := Option.map_eq_some_iff.mp hread
      rw [DocumentKey.toString, ResourcePath.canonicalString, hpath, ResourcePath.ext heq]
  rw [DocumentKey.fromPathString, hpath, Option.bind_eq_bind, Option.bind_some, DocumentKey.ofPath,
    dif_pos document.isDocumentKey]

end FirebaseSwift.Firestore
