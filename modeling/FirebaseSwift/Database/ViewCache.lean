import FirebaseSwift.Database.IndexedNode

/-! The caches of a view and how its filter updates them. A view caches what the server sent and what
the user sees; for each of the two it knows whether the data is complete and whether it was filtered.
A filter updates a cache and tracks the changes of the children. It only writes to the accumulator of
the changes, so its methods return the changes that they track. -/

namespace FirebaseSwift.Database

open SortedDictionary

variable {K V : Type} [DatabaseKey K]

structure FCacheNode (K V : Type) [DatabaseKey K] where
  isFullyInitialized : Bool
  isFiltered : Bool
  indexedNode : FIndexedNode K V

namespace FCacheNode

def node (self : FCacheNode K V) : FNode K V := self.indexedNode.node

/-- `isComplete(forChild:)` -/
def isCompleteForChild (self : FCacheNode K V) (childKey : K) : Bool :=
  (self.isFullyInitialized && !self.isFiltered) || self.node.hasChild childKey

/-- `isComplete(forPath:)` -/
def isCompleteForPath (self : FCacheNode K V) (path : FPath K) : Bool :=
  match path.getFront with
  | some childKey => self.isCompleteForChild childKey
  | none => self.isFullyInitialized && !self.isFiltered

end FCacheNode

structure FViewCache (K V : Type) [DatabaseKey K] where
  cachedEventSnap : FCacheNode K V
  cachedServerSnap : FCacheNode K V

namespace FViewCache

def completeEventSnap (self : FViewCache K V) : Option (FNode K V) :=
  if self.cachedEventSnap.isFullyInitialized then some self.cachedEventSnap.node else none

def completeServerSnap (self : FViewCache K V) : Option (FNode K V) :=
  if self.cachedServerSnap.isFullyInitialized then some self.cachedServerSnap.node else none

def updateEventSnap (self : FViewCache K V) (eventSnap : FIndexedNode K V)
    (isComplete isFiltered : Bool) : FViewCache K V :=
  ⟨⟨isComplete, isFiltered, eventSnap⟩, self.cachedServerSnap⟩

def updateServerSnap (self : FViewCache K V) (serverSnap : FIndexedNode K V)
    (isComplete isFiltered : Bool) : FViewCache K V :=
  ⟨self.cachedEventSnap, ⟨isComplete, isFiltered, serverSnap⟩⟩

end FViewCache

inductive DataEventType where
  | childAdded
  | childRemoved
  | childChanged
  | childMoved
  | value
  deriving DecidableEq

structure FChange (K V : Type) [DatabaseKey K] where
  type : DataEventType
  indexedNode : FIndexedNode K V
  childKey : Option K
  prevKey : Option K
  oldIndexedNode : Option (FIndexedNode K V)

namespace FChange

def childAdded (childKey : K) (newChild : FNode K V) : FChange K V :=
  ⟨.childAdded, .ofNodeByPriority newChild, some childKey, none, none⟩

def childRemoved (childKey : K) (oldChild : FNode K V) : FChange K V :=
  ⟨.childRemoved, .ofNodeByPriority oldChild, some childKey, none, none⟩

def childChanged (childKey : K) (newChild oldChild : FNode K V) : FChange K V :=
  ⟨.childChanged, .ofNodeByPriority newChild, some childKey, none, some (.ofNodeByPriority oldChild)⟩

end FChange

/-- `trapped` says that an illegal combination of changes has stopped the program. -/
structure FChildChangeAccumulator (K V : Type) [DatabaseKey K] where
  changeMap : List (K × FChange K V)
  trapped : Bool

namespace FChildChangeAccumulator

def initial : FChildChangeAccumulator K V := ⟨[], false⟩

def changes (self : FChildChangeAccumulator K V) : List (FChange K V) := self.changeMap.map Prod.snd

/-- How a change is combined with the one that is already tracked for the same child. -/
def combine (childKey : K) (change oldChange : FChange K V) (self : FChildChangeAccumulator K V) :
    FChildChangeAccumulator K V :=
  let replace := fun newChange => { self with changeMap := set (· < ·) childKey newChange self.changeMap }
  match change.type, oldChange.type with
  | .childAdded, .childRemoved =>
      replace ⟨.childChanged, change.indexedNode, some childKey, none, some oldChange.indexedNode⟩
  | .childRemoved, .childAdded => { self with changeMap := remove childKey self.changeMap }
  | .childRemoved, .childChanged =>
      match oldChange.oldIndexedNode with
      | some oldIndexedNode => replace ⟨.childRemoved, oldIndexedNode, some childKey, none, none⟩
      | none => { self with trapped := true }
  | .childChanged, .childAdded =>
      replace ⟨.childAdded, change.indexedNode, some childKey, none, none⟩
  | .childChanged, .childChanged =>
      match oldChange.oldIndexedNode with
      | some oldIndexedNode =>
          replace ⟨.childChanged, change.indexedNode, some childKey, none, some oldIndexedNode⟩
      | none => { self with trapped := true }
  | _, _ => { self with trapped := true }

def trackChildChange (self : FChildChangeAccumulator K V) (change : FChange K V) :
    FChildChangeAccumulator K V :=
  match change.childKey with
  | none => self
  | some childKey =>
      match get childKey self.changeMap with
      | none => { self with changeMap := set (· < ·) childKey change self.changeMap }
      | some oldChange => self.combine childKey change oldChange

/-- The changes that a filter tracks. -/
def track (self : FChildChangeAccumulator K V) (changes : List (FChange K V)) :
    FChildChangeAccumulator K V :=
  changes.foldl trackChildChange self

end FChildChangeAccumulator

structure FCompleteChildSource (K V : Type) [DatabaseKey K] where
  completeChild : K → Option (FNode K V)
  childByIndex : FIndex K → FNamedNode K V → Bool → Option (FNamedNode K V)

/-- `FNoCompleteChildSource` -/
def FCompleteChildSource.noCompleteChildSource : FCompleteChildSource K V :=
  ⟨fun _ => none, fun _ _ _ => none⟩

/-- The methods of a filter. Every filter has as `indexedFilter` the one of its index. -/
structure FNodeFilter (K V : Type) [DatabaseKey K] where
  index : FIndex K
  filtersNodes : Bool
  updateChildIn : FIndexedNode K V → K → FNode K V → FPath K → FCompleteChildSource K V →
    FIndexedNode K V × List (FChange K V)
  updateFullNode : FIndexedNode K V → FIndexedNode K V → FIndexedNode K V × List (FChange K V)
  updatePriority : FNode K V → FIndexedNode K V → FIndexedNode K V

namespace FIndexedFilter

variable [DatabaseValue V]

def updateChildIn (indexedNode : FIndexedNode K V) (childKey : K) (newChildSnap : FNode K V)
    (affectedPath : FPath K) (_source : FCompleteChildSource K V) :
    FIndexedNode K V × List (FChange K V) :=
  let node := indexedNode.node
  let oldChildSnap := node.getImmediateChild childKey
  if oldChildSnap.getChild affectedPath = newChildSnap.getChild affectedPath ∧
      oldChildSnap.isEmpty = newChildSnap.isEmpty then
    (indexedNode, [])
  else
    let tracked :=
      if newChildSnap.isEmpty then
        if node.hasChild childKey then [.childRemoved childKey oldChildSnap] else []
      else if oldChildSnap.isEmpty then [.childAdded childKey newChildSnap]
      else [.childChanged childKey newChildSnap oldChildSnap]
    if node.isLeafNode && newChildSnap.isEmpty then (indexedNode, tracked)
    else (indexedNode.updateChild childKey newChildSnap, tracked)

def updateFullNode (oldSnap newSnap : FIndexedNode K V) : FIndexedNode K V × List (FChange K V) :=
  let removed := oldSnap.node.enumerateChildren.filterMap fun child =>
    if newSnap.node.hasChild child.1 then none else some (.childRemoved child.1 child.2)
  let present := newSnap.node.enumerateChildren.filterMap fun child =>
    if oldSnap.node.hasChild child.1 then
      let oldChildSnap := oldSnap.node.getImmediateChild child.1
      if oldChildSnap ≠ child.2 then some (.childChanged child.1 child.2 oldChildSnap) else none
    else some (.childAdded child.1 child.2)
  (newSnap, removed ++ present)

def updatePriority (priority : FNode K V) (oldSnap : FIndexedNode K V) : FIndexedNode K V :=
  if oldSnap.node.isEmpty then oldSnap else oldSnap.updatePriority priority

/-- `FIndexedFilter(index:)` -/
def ofIndex (index : FIndex K) : FNodeFilter K V where
  index := index
  filtersNodes := false
  updateChildIn := updateChildIn
  updateFullNode := updateFullNode
  updatePriority := updatePriority

end FIndexedFilter

def FNodeFilter.indexedFilter [DatabaseValue V] (filter : FNodeFilter K V) : FNodeFilter K V :=
  FIndexedFilter.ofIndex filter.index

end FirebaseSwift.Database
