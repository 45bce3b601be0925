import FirebaseSwift.Database.ViewCache
import FirebaseSwift.Database.WriteTree

/-! The write tree as a view sees it. A reference keeps the path of the view and passes it on, so that
the view asks with paths relative to its own. `shadowingWriteAtPath` does not: its parameter has the
name of the path of the reference, and so it looks at the given path twice over. -/

namespace FirebaseSwift.Database

variable {K V : Type} [DatabaseKey K]

namespace FWriteTree

def calculateCompleteChildAtPath (self : FWriteTree K V) (treePath : FPath K) (childKey : K)
    (existingServerCache : FCacheNode K V) : Option (FNode K V) :=
  let path := treePath.childFromString childKey
  match self.visibleWrites.completeNodeAtPath path with
  | some shadowingNode => some shadowingNode
  | none =>
      if existingServerCache.isCompleteForChild childKey then
        some ((self.visibleWrites.childCompoundWriteAtPath path).applyToNode
          (existingServerCache.node.getImmediateChild childKey))
      else none

/-- The loop of `calculateNextNodeAfterPost` over the children. -/
def nextNodeAfterPost [DatabaseValue V] (post : FNamedNode K V) (toIterate : FNode K V)
    (reverse : Bool) (index : FIndex K) : Option (FNamedNode K V) :=
  toIterate.enumerateChildren.foldl (fun currentNext child =>
    let node : FNamedNode K V := ⟨child.1, child.2⟩
    if index.compareReversed node post reverse = .gt ∧
        ∀ next ∈ currentNext, index.compareReversed node next reverse = .lt then
      some node
    else currentNext) none

def calculateNextNodeAfterPost [DatabaseValue V] (self : FWriteTree K V) (post : FNamedNode K V)
    (path : FPath K) (completeServerData : Option (FNode K V)) (reverse : Bool) (index : FIndex K) :
    Option (FNamedNode K V) :=
  let merge := self.visibleWrites.childCompoundWriteAtPath path
  match merge.completeNodeAtPath [], completeServerData with
  | some shadowingNode, _ => nextNodeAfterPost post shadowingNode reverse index
  | none, some completeServerData =>
      nextNodeAfterPost post (merge.applyToNode completeServerData) reverse index
  | none, none => none

end FWriteTree

structure FWriteTreeRef (K V : Type) [DatabaseKey K] where
  path : FPath K
  writeTree : FWriteTree K V

/-- `childWritesForPath` -/
def FWriteTree.childWritesForPath (self : FWriteTree K V) (path : FPath K) : FWriteTreeRef K V :=
  ⟨path, self⟩

namespace FWriteTreeRef

/-- `calculateCompleteEventCache` for an optional server cache. -/
def calculateCompleteEventCache (self : FWriteTreeRef K V) (completeServerCache : Option (FNode K V)) :
    Option (FNode K V) :=
  self.writeTree.calculateCompleteEventCacheAtPath self.path completeServerCache none false

/-- `calculateCompleteEventCache` for a server cache that is there. -/
def calculateCompleteEventCacheOfNode (self : FWriteTreeRef K V) (completeServerCache : FNode K V) :
    FNode K V :=
  self.writeTree.calculateCompleteEventCacheOfNode self.path completeServerCache none false

def calculateCompleteEventChildren (self : FWriteTreeRef K V)
    (completeServerChildren : Option (FNode K V)) : FNode K V :=
  self.writeTree.calculateCompleteEventChildrenAtPath self.path completeServerChildren

def calculateEventCacheAfterServerOverwrite (self : FWriteTreeRef K V) (childPath : FPath K)
    (existingServerSnap : FNode K V) : Option (FNode K V) :=
  self.writeTree.calculateEventCacheAfterServerOverwriteAtPath self.path childPath existingServerSnap

/-- In the source `path.child(path)` takes the parameter for both paths. -/
def shadowingWriteAtPath (self : FWriteTreeRef K V) (path : FPath K) : Option (FNode K V) :=
  self.writeTree.shadowingWriteAtPath (path.child path)

def calculateNextNodeAfterPost [DatabaseValue V] (self : FWriteTreeRef K V) (post : FNamedNode K V)
    (completeServerData : Option (FNode K V)) (reverse : Bool) (index : FIndex K) :
    Option (FNamedNode K V) :=
  self.writeTree.calculateNextNodeAfterPost post self.path completeServerData reverse index

def calculateCompleteChild (self : FWriteTreeRef K V) (childKey : K)
    (existingServerCache : FCacheNode K V) : Option (FNode K V) :=
  self.writeTree.calculateCompleteChildAtPath self.path childKey existingServerCache

end FWriteTreeRef

end FirebaseSwift.Database
