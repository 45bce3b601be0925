import FirebaseSwift.Firestore.UserDataParser
import FirebaseSwift.Library.UnicodeStrings

/-! The keys of an update: dot-separated strings and field paths. A field path of the public interface has a
name at least, and no name of it is empty. What is refused here is refused before the parser is called. -/

namespace FirebaseSwift.Firestore

open UnicodeStrings

variable {D : Type}

/-! ### Field paths of the public interface -/

/-- `std.string` of a name -/
def utf8 (text : List Char) : Bytes := text.flatMap String.utf8EncodeChar

/-- The class `FieldPath` of the public interface -/
@[ext]
structure PublicFieldPath where
  segments : List (List Char)
  ne_nil : segments ≠ []
  names : ∀ name ∈ segments, name ≠ []

namespace PublicFieldPath

def ofNames (fieldNames : List (List Char)) : Option PublicFieldPath :=
  if h : fieldNames ≠ [] ∧ ∀ name ∈ fieldNames, name ≠ [] then some ⟨fieldNames, h.1, h.2⟩ else none

def cppSegments (path : PublicFieldPath) : FieldPath := path.segments.map utf8

theorem cppSegments_ne_nil (path : PublicFieldPath) : path.cppSegments ≠ [] :=
  fun h => path.ne_nil (List.map_eq_nil_iff.mp h)

section Strings

variable [UnicodeVersion]

def invalidPathCharacters : List Char := "~*/[]".toList

/-- `init(dotSeparated:)` -/
def ofDotSeparated (path : List Char) : Option PublicFieldPath :=
  if (characters path).any fun c => invalidPathCharacters.any fun invalid => decide (Equivalent [invalid] c) then none
  else ofNames (((characters path).splitOnP fun c => decide (Equivalent ['.'] c)).map List.flatten)

/-- The base of a key of an update -/
inductive Key where
  | path (path : PublicFieldPath)
  | string (text : List Char)
  | other

/-- `FieldPath.from` -/
def ofKey : Key → Option PublicFieldPath
  | .path path => some path
  | .string text => ofDotSeparated text
  | .other => none

end Strings

end PublicFieldPath

section Updates

variable [UnicodeVersion]

/-- The data of an `updateData` call -/
def toBridgeUpdateData (fields : List (PublicFieldPath.Key × BridgeFieldValue D)) :
    Option (List (PublicFieldPath × BridgeFieldValue D)) :=
  fields.mapM fun field => do return (← PublicFieldPath.ofKey field.1, field.2)

end Updates

/-- The entries of an update as they are passed to the parser -/
def bridgeEntries (entries : List (PublicFieldPath × BridgeFieldValue D)) : List (FieldPath × BridgeFieldValue D) :=
  entries.map fun entry => (entry.1.cppSegments, entry.2)

end FirebaseSwift.Firestore
