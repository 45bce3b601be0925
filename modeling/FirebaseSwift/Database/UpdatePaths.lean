import FirebaseSwift.Database.KeySets
import FirebaseSwift.Library.PrefixOrder
import FirebaseSwift.Library.StoppingSort

/-! Updates of many paths, `FSnapshotUtilities.compoundWriteFromDictionary`. The paths are sorted, and each is
compared with the next: one that is an ancestor of the next, or the same, is refused. Here keys are strings, as
they come from the dictionary, and are compared as strings and with `FUtilities.compareKey`. -/

namespace FirebaseSwift.Database

open UnicodeStrings StoppingSort

namespace UpdatePaths

abbrev StringPath := List (List Char)

/-- `FPath(with:)` -/
def pathWith (path : List Char) : StringPath := (path.splitOn '/').filter fun piece => !piece.isEmpty

def kPayloadPriority : List Char := ".priority".toList

def invalidKeyCharacters : List Char := "[].#$/".toList

def isValidKey (key : List Char) : Bool := !key.isEmpty && key.all fun c => !invalidKeyCharacters.contains c

/-! ### The keys of paths -/

variable {pieces : List (List Char)} {a : List Char}

theorem pathWith_intercalate (hpieces : ∀ piece ∈ pieces, '/' ∉ piece) (hne : pieces ≠ []) :
    pathWith (['/'].intercalate pieces) = pieces.filter fun piece => !piece.isEmpty := by
  rw [pathWith, List.splitOn_intercalate '/' hpieces hne]

/-- A key of an update: a valid key, or the one of priorities. -/
def IsUpdateKey (key : List Char) : Prop := isValidKey key = true ∨ key = kPayloadPriority

theorem IsUpdateKey.spec {key : List Char} (h : IsUpdateKey key) : '/' ∉ key ∧ (!key.isEmpty) = true := by
  rcases h with hvalid | rfl
  · rw [isValidKey, Bool.and_eq_true] at hvalid
    refine ⟨fun hslash => ?_, hvalid.1⟩
    exact absurd (List.all_eq_true.mp hvalid.2 '/' hslash) (by decide)
  · exact ⟨by decide, by decide⟩

theorem filter_keys (h : ∀ piece ∈ pieces, IsUpdateKey piece) :
    (pieces.filter fun piece => !piece.isEmpty) = pieces :=
  List.filter_eq_self.mpr fun piece hpiece => (h piece hpiece).spec.2

/-- The key of a path after a root, of one key, and of one key below another. -/
def rootedKey (a : List Char) : List Char := ['/'].intercalate [[], a]

def keyBelow (a b : List Char) : List Char := ['/'].intercalate [a, b]

theorem pathWith_key (ha : IsUpdateKey a) : pathWith a = [a] := by
  have hpieces : ∀ piece ∈ [a], '/' ∉ piece := by
    intro piece hpiece
    rw [List.mem_singleton.mp hpiece]
    exact ha.spec.1
  have hone := pathWith_intercalate hpieces (List.cons_ne_nil _ _)
  rw [filter_keys fun piece hpiece => List.mem_singleton.mp hpiece ▸ ha] at hone
  rw [← hone]
  exact congrArg pathWith (List.append_nil a).symm

theorem pathWith_rootedKey (ha : IsUpdateKey a) : pathWith (rootedKey a) = [a] := by
  rw [rootedKey, pathWith_intercalate ?_ (List.cons_ne_nil _ _)]
  · show [a].filter (fun piece => !piece.isEmpty) = [a]
    exact filter_keys fun piece hpiece => List.mem_singleton.mp hpiece ▸ ha
  · intro piece hpiece
    rcases List.mem_pair.mp hpiece with rfl | rfl
    · exact List.not_mem_nil
    · exact ha.spec.1

theorem pathWith_keyBelow {b : List Char} (ha : IsUpdateKey a) (hb : IsUpdateKey b) :
    pathWith (keyBelow a b) = [a, b] := by
  rw [keyBelow, pathWith_intercalate ?_ (List.cons_ne_nil _ _)]
  · refine filter_keys fun piece hpiece => ?_
    rcases List.mem_pair.mp hpiece with rfl | rfl
    · exact ha
    · exact hb
  · intro piece hpiece
    rcases List.mem_pair.mp hpiece with rfl | rfl
    · exact ha.spec.1
    · exact hb.spec.1

theorem slash_mem_keyBelow (a b : List Char) : '/' ∈ keyBelow a b := by
  have hpiece : ['/'] ∈ [a, ['/'], b] := List.mem_cons_of_mem _ List.mem_cons_self
  exact List.mem_flatten.mpr ⟨['/'], hpiece, List.mem_singleton_self _⟩

theorem slash_mem_rootedKey (a : List Char) : '/' ∈ rootedKey a := List.mem_cons_self

section Paths

variable [UnicodeVersion]

def contains (path other : StringPath) : Bool :=
  decide (path.length ≤ other.length) && (path.zip other).all fun pair => decide (Equivalent pair.1 pair.2)

/-- The loop over pairs of keys, with the first difference. -/
def firstDifference : List (List Char × List Char) → Except Trap (Option Ordering)
  | [] => .ok none
  | (a, b) :: rest => do
      let comparison ← FUtilities.compareKey a b
      if comparison ≠ .eq then .ok (some comparison) else firstDifference rest

def compare (path other : StringPath) : Except Trap Ordering := do
  match ← firstDifference (path.zip other) with
  | some comparison => .ok comparison
  | none =>
      if path.length < other.length then .ok .lt
      else if other.length < path.length then .ok .gt
      else .ok .eq

/-- `a.compare(b) == .orderedAscending` -/
def precedes (a b : StringPath) : Except Trap Bool := do
  let comparison ← compare a b
  .ok (decide (comparison = .lt))

/-! ### The check -/

/-- Why an update is refused, or the program stops. -/
inductive Refusal where
  | invalidKey (key : List Char)
  | invalidPriority
  | invalidValue
  | ancestor (prev path : StringPath)
  | trap (trap : Trap)

/-- Values, nodes and compound writes. The check of the paths does not look at them. -/
structure WriteBuilder (Value Node Write : Type) where
  isValidPriorityValue : Value → Bool
  nodeFrom : Value → Option Node
  emptyWrite : Write
  addWrite : Write → Node → StringPath → Write

variable {Value Node Write : Type} (builder : WriteBuilder Value Node Write)

/-- The loop over the components of a path. -/
def validateComponents (value : Value) (length : Nat) : List (List Char) → Nat → Except Refusal Unit
  | [], _ => .ok ()
  | key :: rest, keyNum =>
      if Equivalent key kPayloadPriority ∧ keyNum + 1 = length then
        if builder.isValidPriorityValue value then validateComponents value length rest keyNum
        else .error .invalidPriority
      else if isValidKey key then validateComponents value length rest (keyNum + 1)
      else .error (.invalidKey key)

def validUpdateDictionaryKey (keyId : List Char) (value : Value) : Except Refusal (List Char) := do
  let path := pathWith keyId
  validateComponents builder value path.length path 0
  .ok keyId

/-- The loop over the dictionary, with the paths so far. -/
def addEntry (state : List StringPath × Write) (entry : List Char × Value) :
    Except Refusal (List StringPath × Write) := do
  let key ← validUpdateDictionaryKey builder entry.1 entry.2
  let path := pathWith key
  match builder.nodeFrom entry.2 with
  | none => .error .invalidValue
  | some node => .ok (state.1 ++ [path], builder.addWrite state.2 node path)

/-- The loop over the sorted paths. -/
def checkPaths : Option StringPath → List StringPath → Except Refusal Unit
  | _, [] => .ok ()
  | none, path :: rest => checkPaths (some path) rest
  | some prev, path :: rest =>
      if contains prev path then .error (.ancestor prev path) else checkPaths (some path) rest

/-- The entries of the dictionary are in the order of its enumeration. -/
def compoundWriteFromDictionary (values : List (List Char × Value)) : Except Refusal Write := do
  let (updatePaths, compoundWrite) ← values.foldlM (addEntry builder) ([], builder.emptyWrite)
  let sorted ← (sortBy precedes updatePaths).mapError .trap
  checkPaths none sorted
  .ok compoundWrite

end Paths

end UpdatePaths

end FirebaseSwift.Database
