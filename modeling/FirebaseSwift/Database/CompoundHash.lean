import FirebaseSwift.Database.HashText
import FirebaseSwift.Database.IndexedNode

/-! Compound hashes, `FCompoundHash`. The builder goes through the leaves of a node in order, with the
priority of children among the children. It hashes a range whenever the split strategy asks for it after a
leaf. A priority is only visited before a child with a greater key: it is skipped if there is none. -/

namespace FirebaseSwift.Database

open UnicodeStrings

/-- The builder, with the strings that were hashed as a ledger. -/
structure FCompoundHashBuilder (K : Type) where
  currentPaths : List (FPath K) := []
  currentHashes : List (List Char) := []
  optHashValueBuilder : Option (List Char) := none
  /-- The path as a stack. The keys below the depth are those of the last leaf. -/
  pathKeys : List K := []
  lastLeafDepth : Int := -1
  currentPathDepth : Nat := 0
  needsComma : Bool := true
  hashedStrings : List (List Char) := []

namespace FCompoundHashBuilder

variable {K V : Type} [KeyText K] [UnicodeVersion]

def isBuildingRange (self : FCompoundHashBuilder K) : Bool := self.optHashValueBuilder.isSome

def currentPathWithDepth (self : FCompoundHashBuilder K) (depth : Int) : FPath K :=
  self.pathKeys.take depth.toNat

def append (self : FCompoundHashBuilder K) (text : List Char) : FCompoundHashBuilder K :=
  { self with optHashValueBuilder := self.optHashValueBuilder.map (· ++ text) }

/-- `appendKey` and the parenthesis after it -/
def keyText (key : K) : List Char :=
  FSnapshotUtilities.appendHashV2Representation (KeyText.text key) [] ++ [':', '(']

def ensureRange (self : FCompoundHashBuilder K) : FCompoundHashBuilder K :=
  if self.isBuildingRange then self
  else
    { self with
      optHashValueBuilder := some ('(' :: (self.pathKeys.take self.currentPathDepth).flatMap keyText)
      needsComma := false }

def endRange (self : FCompoundHashBuilder K) (base64EncodedSha1 : List Char → List Char) :
    FCompoundHashBuilder K :=
  let closed := (self.append (List.replicate self.currentPathDepth ')')).append [')']
  let string := closed.optHashValueBuilder.getD []
  { closed with
    currentHashes := closed.currentHashes ++ [base64EncodedSha1 string]
    currentPaths := closed.currentPaths ++ [closed.currentPathWithDepth closed.lastLeafDepth]
    optHashValueBuilder := none
    hashedStrings := closed.hashedStrings ++ [string] }

def startChild (self : FCompoundHashBuilder K) (key : K) : FCompoundHashBuilder K :=
  let ensured := self.ensureRange
  let separated := if ensured.needsComma then ensured.append [','] else ensured
  let keyed := separated.append (keyText key)
  { keyed with
    pathKeys :=
      if keyed.currentPathDepth = keyed.pathKeys.length then keyed.pathKeys ++ [key]
      else keyed.pathKeys.set keyed.currentPathDepth key
    currentPathDepth := keyed.currentPathDepth + 1
    needsComma := false }

def endChild (self : FCompoundHashBuilder K) : FCompoundHashBuilder K :=
  let left := { self with currentPathDepth := self.currentPathDepth - 1 }
  let closed := if left.isBuildingRange then left.append [')'] else left
  { closed with needsComma := true }

section

variable [HashedValue V] (splitStrategy : FCompoundHashBuilder K → Bool)
  (base64EncodedSha1 : List Char → List Char)

def processLeaf (self : FCompoundHashBuilder K) (leafNode : NodeData K V) :
    Option (FCompoundHashBuilder K) :=
  let ensured := self.ensureRange
  let left := { ensured with lastLeafDepth := ensured.currentPathDepth }
  (FSnapshotUtilities.appendHashRepresentation leafNode (left.optHashValueBuilder.getD [])).map fun string =>
    let appended := { left with optHashValueBuilder := some string, needsComma := true }
    if splitStrategy appended then appended.endRange base64EncodedSha1 else appended

variable [DatabaseKey K]

mutual

def processNode : NodeData K V → FCompoundHashBuilder K → Option (FCompoundHashBuilder K)
  | .empty, builder => some builder
  | .leaf value priority, builder => processLeaf splitStrategy base64EncodedSha1 builder (.leaf value priority)
  | .children dict priority, builder =>
      let priorityBlock (builder : FCompoundHashBuilder K) :=
        (processNode priority (builder.startChild DatabaseKey.priority)).map endChild
      enumerateChildrenAndPriority priorityBlock priority.isEmpty dict builder

/-- `enumerateChildrenAndPriority` with the block of `processNode`. Without a priority it is as if its key was
passed from the start. -/
def enumerateChildrenAndPriority
    (priorityBlock : FCompoundHashBuilder K → Option (FCompoundHashBuilder K)) (passedPriorityKey : Bool) :
    List (K × NodeData K V) → FCompoundHashBuilder K → Option (FCompoundHashBuilder K)
  | [], builder => some builder
  | (key, child) :: rest, builder =>
      if passedPriorityKey = false ∧ compareKeys key DatabaseKey.priority = .gt then do
        let builder ← priorityBlock builder
        let builder ← processNode child (builder.startChild key)
        enumerateChildrenAndPriority priorityBlock true rest builder.endChild
      else do
        let builder ← processNode child (builder.startChild key)
        enumerateChildrenAndPriority priorityBlock passedPriorityKey rest builder.endChild

end

def finishHashing (self : FCompoundHashBuilder K) : FCompoundHashBuilder K :=
  let ended := if self.isBuildingRange then self.endRange base64EncodedSha1 else self
  { ended with currentHashes := ended.currentHashes ++ [[]] }

end

end FCompoundHashBuilder

structure FCompoundHash (K : Type) where
  posts : List (FPath K)
  hashes : List (List Char)

namespace FCompoundHash

variable {K V : Type} [KeyText K] [UnicodeVersion] [HashedValue V] [DatabaseKey K]

/-- The builder at the end, for a node that is not empty. -/
def builtFromNode (node : FNode K V) (splitStrategy : FCompoundHashBuilder K → Bool)
    (base64EncodedSha1 : List Char → List Char) : Option (FCompoundHashBuilder K) :=
  (FCompoundHashBuilder.processNode splitStrategy base64EncodedSha1 node.data {}).map fun builder =>
    builder.finishHashing base64EncodedSha1

def fromNode (node : FNode K V) (splitStrategy : FCompoundHashBuilder K → Bool)
    (base64EncodedSha1 : List Char → List Char) : Option (FCompoundHash K) :=
  if node.isEmpty then some ⟨[], [[]]⟩
  else do
    let builder ← builtFromNode node splitStrategy base64EncodedSha1
    -- the initialiser stops with any other number of posts
    if builder.currentPaths.length + 1 = builder.currentHashes.length then
      some ⟨builder.currentPaths, builder.currentHashes⟩
    else none

end FCompoundHash

end FirebaseSwift.Database
