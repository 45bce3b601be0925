import FirebaseSwift.Library.SortedDictionary
import Mathlib.Data.List.Infix
import Mathlib.Data.String.Basic
import Mathlib.Order.Defs.LinearOrder

/-! Database keys and paths. A path is the list of the segments that are left of it: `FPath` keeps
all segments and the number of popped ones, and compares, hashes and enumerates only the rest. A key
is one segment, so `child(fromString:)` appends exactly one segment. -/

namespace FirebaseSwift.Database

/-- Keys are compared in two ways: trees of the client sort their children by the string order, the
children of a node are sorted by `FUtilities.compareKey`. The key `.priority` addresses the
priority of a node. -/
class DatabaseKey (K : Type) extends LinearOrder K where
  priority : K
  compareKey : K → K → Prop
  decidableCompareKey : DecidableRel compareKey
  strictCompareKey : IsStrictTotalOrder K compareKey

attribute [reducible, instance] DatabaseKey.decidableCompareKey
attribute [instance] DatabaseKey.strictCompareKey

/-- On keys that are not integers both orders are the one of the strings. -/
instance : DatabaseKey String :=
  { (inferInstance : LinearOrder String) with
    priority := ".priority"
    compareKey := (· < ·)
    decidableCompareKey := inferInstance
    strictCompareKey := inferInstance }

abbrev FPath (K : Type) := List K

namespace FPath

variable {K : Type}

def getFront (path : FPath K) : Option K := path.head?

def popFront (path : FPath K) : FPath K := path.tail

def getBack (path : FPath K) : Option K := path.getLast?

/-- The path without its last segment; the empty path has no parent. -/
def parent : FPath K → Option (FPath K)
  | [] => none
  | key :: rest => some (key :: rest).dropLast

def child (path childPathObj : FPath K) : FPath K := path ++ childPathObj

def childFromString (path : FPath K) (childPath : K) : FPath K := path ++ [childPath]

variable [DecidableEq K]

def contains (path other : FPath K) : Bool :=
  decide (path.length ≤ other.length) && (path.zip other).all fun pair => decide (pair.1 = pair.2)

/-- `relativePath(from:to:)`. When `inner` is not within `outer` the program stops; the callers
establish that it is. -/
def relativePath : FPath K → FPath K → FPath K
  | [], inner => inner
  | _ :: _, [] => []
  | outerFront :: outer, innerFront :: inner =>
      if outerFront = innerFront then relativePath outer inner else []

theorem contains_iff {path other : FPath K} : contains path other = true ↔ path <+: other := by
  induction path generalizing other with
  | nil => simp [contains]
  | cons key path ih =>
      cases other with
      | nil => simp [contains]
      | cons key' other =>
          rw [List.cons_prefix_cons, ← ih]
          simp only [contains, List.length_cons, Nat.add_le_add_iff_right, List.zip_cons_cons,
            List.all_cons, Bool.and_eq_true, decide_eq_true_eq]
          tauto

theorem contains_eq_false_iff {path other : FPath K} : contains path other = false ↔ ¬path <+: other := by
  rw [← Bool.not_eq_true, contains_iff]

@[simp] theorem relativePath_append (outer rest : FPath K) : relativePath outer (outer ++ rest) = rest := by
  induction outer with
  | nil => rfl
  | cons key outer ih => rw [List.cons_append, relativePath, if_pos rfl, ih]

@[simp] theorem relativePath_append_append (path outer inner : FPath K) :
    relativePath (path ++ outer) (path ++ inner) = relativePath outer inner := by
  induction path with
  | nil => rfl
  | cons key path ih => rw [List.cons_append, List.cons_append, relativePath, if_pos rfl, ih]

@[simp] theorem relativePath_self (path : FPath K) : relativePath path path = [] := by
  simpa using relativePath_append path []

end FPath

end FirebaseSwift.Database
