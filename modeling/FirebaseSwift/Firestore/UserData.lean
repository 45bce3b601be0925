import FirebaseSwift.Firestore.ProtoValues
import FirebaseSwift.Library.ComparedSets
import FirebaseSwift.Library.ExceptLoops
import Mathlib.Algebra.Group.Int.Defs
import Mathlib.Data.Sum.Order
import Mathlib.Order.WithBot

/-! User data while it is parsed: where in it the parser is, `ParseContext`, and what it has collected,
`ParseAccumulator`. The paths of a field mask are an ordered set. Names such as `__id7__` are compared by
their number, which has to be readable then. -/

namespace FirebaseSwift.Firestore

open ComparedSets

/-! ### Field paths -/

abbrev FieldPath := List Bytes

def isLetter (c : UInt8) : Bool := c == 95 || (97 ≤ c && c ≤ 122) || (65 ≤ c && c ≤ 90)

def isDigit (c : UInt8) : Bool := 48 ≤ c && c ≤ 57

def isValidIdentifier : Bytes → Bool
  | [] => false
  | first :: rest => isLetter first && rest.all fun c => isLetter c || isDigit c

/-- Backslashes and backticks are escaped, and what is no identifier then stands in backticks. -/
def escapedSegment (segment : Bytes) : Bytes :=
  let escaped := segment.flatMap fun c => if c = 92 ∨ c = 96 then [92, c] else [c]
  if isValidIdentifier escaped then escaped else 96 :: escaped ++ [96]

def FieldPath.canonicalString (path : FieldPath) : Bytes := (ascii ".").intercalate (path.map escapedSegment)

/-! ### The order of field paths -/

def isNumericId (segment : Bytes) : Bool :=
  decide (6 < segment.length) && segment.take 4 == ascii "__id" && segment.drop (segment.length - 2) == ascii "__"

/-- `std::stol`: white space, a sign and digits. What follows the digits is not read. -/
def stol (text : Bytes) : Option ℤ :=
  let text := text.dropWhile fun c => c == 32 || (9 ≤ c && c ≤ 13)
  let negative := text.head? == some 45
  let digits := (if text.head? = some 45 ∨ text.head? = some 43 then text.tail else text).takeWhile isDigit
  let magnitude := digits.foldl (fun (n : ℕ) c => 10 * n + (c.toNat - 48)) 0
  let n : ℤ := if negative then -magnitude else magnitude
  if digits = [] ∨ n < -2 ^ 63 ∨ 2 ^ 63 ≤ n then none else some n

def extractNumericId (segment : Bytes) : Option ℤ := stol ((segment.drop 4).take (segment.length - 2))

/-- Numeric ids come first, by their number. -/
def compareSegments (lhs rhs : Bytes) : Option Ordering :=
  if isNumericId lhs ∧ ¬isNumericId rhs then some .lt
  else if ¬isNumericId lhs ∧ isNumericId rhs then some .gt
  else if isNumericId lhs ∧ isNumericId rhs then do
    let lhs ← extractNumericId lhs
    let rhs ← extractNumericId rhs
    some (compareKeys lhs rhs)
  else some (compareKeys lhs rhs)

/-- `FieldPath::CompareTo`, which throws where a number cannot be read -/
def FieldPath.compareTo : FieldPath → FieldPath → Option Ordering
  | [], [] => some .eq
  | [], _ :: _ => some .lt
  | _ :: _, [] => some .gt
  | lhs :: path, rhs :: other =>
      match compareSegments lhs rhs with
      | none => none
      | some .eq => compareTo path other
      | some order => some order

/-- A set of field paths in their order -/
abbrev FieldMask := List FieldPath

/-- Whether a path of the mask is in front of another path. -/
def FieldMask.covers (mask : FieldMask) (path : FieldPath) : Bool := mask.any fun other => other.isPrefixOf path

/-! ### What is collected -/

inductive UserDataSource where
  | set | mergeSet | update | argument | arrayArgument
deriving DecidableEq

/-- Why parsing stopped: an exception with its message, an assertion, a write outside of an array, or a
number in a field name that could not be read. -/
inductive ParseFailure where
  | invalidArgument (message : Bytes)
  | hardAssert
  | outOfBounds
  | unreadableNumber

inductive TransformOperation (D : Type) where
  | serverTimestamp
  | arrayUnion (elements : List (Value D))
  | arrayRemove (elements : List (Value D))
  | numericIncrement (operand : Value D)
  | numericMinimum (operand : Value D)
  | numericMaximum (operand : Value D)

structure FieldTransform (D : Type) where
  path : FieldPath
  transformation : TransformOperation D

structure ParseAccumulator (D : Type) where
  fieldMask : FieldMask := []
  fieldTransforms : List (FieldTransform D) := []

abbrev ParseM (D : Type) := StateT (ParseAccumulator D) (Except ParseFailure)

/-- Where in the data the parser is. There is no path inside of an array. -/
structure ParseContext where
  dataSource : UserDataSource
  path : Option FieldPath
  arrayElement : Bool

namespace ParseContext

variable {D : Type}

def root (dataSource : UserDataSource) : ParseContext := ⟨dataSource, some [], false⟩

def write (context : ParseContext) : Bool :=
  match context.dataSource with
  | .set => true
  | .mergeSet => true
  | .update => true
  | .argument => false
  | .arrayArgument => false

/-- What a message says about the field. -/
def fieldDescription (context : ParseContext) : Bytes :=
  match context.path with
  | none => []
  | some [] => []
  | some path => ascii " (found in field " ++ path.canonicalString ++ ascii ")"

def throwInvalidArgument {α : Type} (message : Bytes) : ParseM D α := throw (.invalidArgument message)

/-- Whether a name starts and ends with `__`. -/
def isReserved (segment : Bytes) : Bool := (ascii "__").isPrefixOf segment && (ascii "__").isSuffixOf segment

def validatePathSegment (context : ParseContext) (segment : Bytes) : ParseM D Unit :=
  if segment = [] then
    throwInvalidArgument (ascii "Invalid data. Document fields must not be empty" ++ context.fieldDescription)
  else if context.write ∧ isReserved segment then
    throwInvalidArgument (ascii "Invalid data. Document fields cannot begin and end with \"" ++ ascii "__" ++
      ascii "\"" ++ context.fieldDescription)
  else pure ()

def validatePath (context : ParseContext) : ParseM D Unit :=
  match context.path with
  | none => pure ()
  | some path => path.forM context.validatePathSegment

/-- The context of a field, not validated yet -/
def field (context : ParseContext) (name : Bytes) : ParseContext :=
  { context with path := context.path.map (· ++ [name]), arrayElement := false }

/-- The context of a field below, not validated yet -/
def below (context : ParseContext) (path : FieldPath) : ParseContext :=
  { context with path := context.path.map (· ++ path), arrayElement := false }

/-- The context of an element of an array -/
def element (context : ParseContext) : ParseContext := { context with path := none, arrayElement := true }

/-- `ChildContext(field_name)` -/
def childField (context : ParseContext) (name : Bytes) : ParseM D ParseContext := do
  (context.field name).validatePathSegment name
  return context.field name

/-- `ChildContext(field_path)` -/
def childPath (context : ParseContext) (path : FieldPath) : ParseM D ParseContext := do
  (context.below path).validatePath
  return context.below path

def addToFieldMask (path : FieldPath) : ParseM D Unit := fun accumulator =>
  match insert FieldPath.compareTo path accumulator.fieldMask with
  | none => .error .unreadableNumber
  | some fieldMask => .ok ((), { accumulator with fieldMask := fieldMask })

def addToFieldTransforms (path : FieldPath) (transformation : TransformOperation D) : ParseM D Unit :=
  modify fun accumulator =>
    { accumulator with fieldTransforms := accumulator.fieldTransforms ++ [⟨path, transformation⟩] }

end ParseContext

end FirebaseSwift.Firestore
