import FirebaseSwift.Database.View

/-! The filters of the queries with a start, an end or a limit. A ranged filter leaves the children
between two posts in the order of its index. A limited filter leaves at most as many of them as its
limit says, from one end of the range. A post has the value that its index compares and a name, both of
which can be less or greater than all others. -/

namespace FirebaseSwift.Database

variable {K V : Type} [DatabaseKey K]

/-! ### Posts -/

/-- `FNamedNode.min` has the least name; the greatest name is the one of the greatest posts. -/
inductive PostName (K : Type) where
  | min
  | key (key : K)
  | max

def PostName.compare : PostName K → K → Ordering
  | .min, _ => .lt
  | .key name, childKey => compareKeys name childKey
  | .max, _ => .gt

def PostName.compareTo (childKey : K) : PostName K → Ordering
  | .min => .gt
  | .key name => compareKeys childKey name
  | .max => .lt

/-- The value of a post in its index, where `max` is `FNode.max`. -/
inductive PostValue (K V : Type) [DatabaseKey K] where
  | node (node : FNode K V)
  | max

structure FPost (K V : Type) [DatabaseKey K] where
  name : PostName K
  value : PostValue K V

/-- The key that a leaf with a string has for `val() as? String ?? ""`. -/
class QueryValue (K V : Type) where
  keyOfValue : V → K
  emptyKey : K

instance : QueryValue String String := ⟨id, ""⟩

/-- The values are strings in their own order. -/
instance : DatabaseValue String where
  decidableEq := inferInstance
  compareLeafNodeValue := compare

section Posts

variable [DatabaseValue V]

def PostValue.compare (node : FNode K V) : PostValue K V → Ordering
  | .node value => value.compare node
  | .max => .gt

def PostValue.compareTo (node : FNode K V) : PostValue K V → Ordering
  | .node value => node.compare value
  | .max => .lt

namespace FIndex

/-- The value of a child that the index compares. The index of the keys has none. -/
def indexValue (index : FIndex K) (node : FNode K V) : FNode K V :=
  match index with
  | .key => .empty
  | .value => node
  | .priority => node.getPriority
  | .path childPath => node.getChild childPath

/-- `compare(lhs:rhs:)` of a post and a child -/
def comparePost (index : FIndex K) (post : FPost K V) (child : FNamedNode K V) : Ordering :=
  let indexCmp := if index = .key then .eq else post.value.compare (index.indexValue child.node)
  if indexCmp = .eq then post.name.compare child.name else indexCmp

/-- `compare(lhs:rhs:)` of a child and a post -/
def compareToPost (index : FIndex K) (child : FNamedNode K V) (post : FPost K V) : Ordering :=
  let indexCmp := if index = .key then .eq else post.value.compareTo (index.indexValue child.node)
  if indexCmp = .eq then post.name.compareTo child.name else indexCmp

def minPost (_index : FIndex K) : FPost K V := ⟨.min, .node .empty⟩

/-- What the path finds in the node that has only the value there. An empty node takes no priority. -/
def valueUnder (childPath : FPath K) (value : PostValue K V) : PostValue K V :=
  if DatabaseKey.priority ∈ childPath then .node .empty else value

/-- The greatest post of the values is an empty node. -/
def maxPost (index : FIndex K) : FPost K V :=
  match index with
  | .key => ⟨.max, .node .empty⟩
  | .value => ⟨.max, .node .empty⟩
  | .priority => ⟨.max, .max⟩
  | .path childPath => ⟨.max, valueUnder childPath .max⟩

def makePost [QueryValue K V] (index : FIndex K) (indexValue : FNode K V) (name : PostName K) : FPost K V :=
  match index with
  | .key =>
      ⟨.key ((indexValue.leafValue.map QueryValue.keyOfValue).getD (QueryValue.emptyKey V)), .node .empty⟩
  | .value => ⟨name, .node indexValue⟩
  | .priority => ⟨name, .node indexValue⟩
  | .path childPath => ⟨name, valueUnder childPath (.node indexValue)⟩

end FIndex

/-! ### The children of an indexed node -/

namespace FIndexedNode

/-- The children in the order of the index. -/
def children (self : FIndexedNode K V) : List (FNamedNode K V) :=
  match self.indexed with
  | .fallback => self.node.enumerateChildren.map fun child => ⟨child.1, child.2⟩
  | .indexed set => set

def firstChild (self : FIndexedNode K V) : Option (FNamedNode K V) :=
  if self.node.isLeafNode || self.node.isEmpty then none else self.children.head?

def lastChild (self : FIndexedNode K V) : Option (FNamedNode K V) :=
  if self.node.isLeafNode || self.node.isEmpty then none else self.children.getLast?

/-- The children that `enumerateChildrenReverse` visits. -/
def enumerateChildrenReverse (self : FIndexedNode K V) (reverse : Bool) : List (FNamedNode K V) :=
  if reverse then self.children.reverse else self.children

end FIndexedNode

end Posts

/-! ### Ranged filters -/

structure FRangedFilter (K V : Type) [DatabaseKey K] where
  index : FIndex K
  startPost : FPost K V
  endPost : FPost K V

variable [DatabaseValue V]

namespace FRangedFilter

def matchesKey (self : FRangedFilter K V) (key : K) (node : FNode K V) : Bool :=
  decide (self.index.comparePost self.startPost ⟨key, node⟩ ≠ .gt) &&
    decide (self.index.compareToPost ⟨key, node⟩ self.endPost ≠ .gt)

def updateChildIn (self : FRangedFilter K V) (oldSnap : FIndexedNode K V) (childKey : K)
    (newChildSnap : FNode K V) (affectedPath : FPath K) (source : FCompleteChildSource K V) :
    FIndexedNode K V × List (FChange K V) :=
  let newChildSnap := if !self.matchesKey childKey newChildSnap then .empty else newChildSnap
  FIndexedFilter.updateChildIn oldSnap childKey newChildSnap affectedPath source

def updateFullNode (self : FRangedFilter K V) (oldSnap newSnap : FIndexedNode K V) :
    FIndexedNode K V × List (FChange K V) :=
  let filtered : FIndexedNode K V :=
    if newSnap.node.isLeafNode then .ofNode .empty self.index
    else
      newSnap.node.enumerateChildren.foldl (fun filtered child =>
        if !self.matchesKey child.1 child.2 then filtered.updateChild child.1 .empty else filtered)
        (newSnap.updatePriority .empty)
  FIndexedFilter.updateFullNode oldSnap filtered

/-- Queries have no priorities. -/
def toNodeFilter (self : FRangedFilter K V) : FNodeFilter K V where
  index := self.index
  filtersNodes := true
  updateChildIn := self.updateChildIn
  updateFullNode := self.updateFullNode
  updatePriority := fun _ oldSnap => oldSnap

end FRangedFilter

/-! ### Limited filters -/

structure FLimitedFilter (K V : Type) [DatabaseKey K] where
  rangedFilter : FRangedFilter K V
  limit : Int
  reverse : Bool

namespace FLimitedFilter

def index (self : FLimitedFilter K V) : FIndex K := self.rangedFilter.index

/-- The child that may take the place of one that leaves the window. -/
def nextChild (self : FLimitedFilter K V) (oldIndexed : FIndexedNode K V) (childKey : K)
    (source : FCompleteChildSource K V) (windowBoundary : FNamedNode K V) : Option (FNamedNode K V) :=
  match source.childByIndex self.index windowBoundary self.reverse with
  | some next =>
      if next.name = childKey ∨ oldIndexed.node.hasChild next.name then
        source.childByIndex self.index next self.reverse
      else some next
  | none => none

/-- An update of a full window. The limit is positive, so the window has a boundary. -/
def fullLimitUpdateNode (self : FLimitedFilter K V) (oldIndexed : FIndexedNode K V) (childKey : K)
    (newChildSnap : FNode K V) (source : FCompleteChildSource K V) :
    FIndexedNode K V × List (FChange K V) :=
  match if self.reverse then oldIndexed.firstChild else oldIndexed.lastChild with
  | none => (oldIndexed, [])
  | some windowBoundary =>
      let inRange := self.rangedFilter.matchesKey childKey newChildSnap
      if oldIndexed.node.hasChild childKey then
        let oldChildSnap := oldIndexed.node.getImmediateChild childKey
        let nextChild := self.nextChild oldIndexed childKey source windowBoundary
        let remainsInWindow := inRange && !newChildSnap.isEmpty &&
          nextChild.all fun next =>
            decide (self.index.compareReversed next ⟨childKey, newChildSnap⟩ self.reverse ≠ .lt)
        if remainsInWindow then
          (oldIndexed.updateChild childKey newChildSnap,
            [.childChanged childKey newChildSnap oldChildSnap])
        else
          let newIndexed := oldIndexed.updateChild childKey .empty
          match nextChild with
          | none => (newIndexed, [.childRemoved childKey oldChildSnap])
          | some next =>
              if self.rangedFilter.matchesKey next.name next.node then
                (newIndexed.updateChild next.name next.node,
                  [.childRemoved childKey oldChildSnap, .childAdded next.name next.node])
              else (newIndexed, [.childRemoved childKey oldChildSnap])
      else if newChildSnap.isEmpty then (oldIndexed, [])
      else if inRange then
        if self.index.compareReversed windowBoundary ⟨childKey, newChildSnap⟩ self.reverse ≠ .lt then
          ((oldIndexed.updateChild childKey newChildSnap).updateChild windowBoundary.name .empty,
            [.childRemoved windowBoundary.name windowBoundary.node, .childAdded childKey newChildSnap])
        else (oldIndexed, [])
      else (oldIndexed, [])

def updateChildIn (self : FLimitedFilter K V) (oldSnap : FIndexedNode K V) (childKey : K)
    (newChildSnap : FNode K V) (affectedPath : FPath K) (source : FCompleteChildSource K V) :
    FIndexedNode K V × List (FChange K V) :=
  let newChildSnap :=
    if !self.rangedFilter.matchesKey childKey newChildSnap then .empty else newChildSnap
  if oldSnap.node.getImmediateChild childKey = newChildSnap then (oldSnap, [])
  else if (oldSnap.node.enumerateChildren.length : Int) < self.limit then
    FIndexedFilter.updateChildIn oldSnap childKey newChildSnap affectedPath source
  else self.fullLimitUpdateNode oldSnap childKey newChildSnap source

/-- The post is not after the child, seen from the end that the window is at. -/
def startsAt (self : FLimitedFilter K V) (child : FNamedNode K V) : Bool :=
  if self.reverse then decide (self.index.compareToPost child self.rangedFilter.endPost ≠ .gt)
  else decide (self.index.comparePost self.rangedFilter.startPost child ≠ .gt)

/-- The child is not after the post at the other end. -/
def endsAfter (self : FLimitedFilter K V) (child : FNamedNode K V) : Bool :=
  if self.reverse then decide (self.index.comparePost self.rangedFilter.startPost child ≠ .gt)
  else decide (self.index.compareToPost child self.rangedFilter.endPost ≠ .gt)

/-- The loop of `updateFullNode` over the children, with `foundStartPost` and `count`. -/
def filterChildren (self : FLimitedFilter K V) :
    List (FNamedNode K V) → Bool → Int → FIndexedNode K V → FIndexedNode K V
  | [], _, _, filtered => filtered
  | child :: rest, foundStartPost, count, filtered =>
      let foundStartPost := foundStartPost || self.startsAt child
      if foundStartPost && decide (count < self.limit) && self.endsAfter child then
        self.filterChildren rest foundStartPost (count + 1) filtered
      else self.filterChildren rest foundStartPost count (filtered.updateChild child.name .empty)

def updateFullNode (self : FLimitedFilter K V) (oldSnap newSnap : FIndexedNode K V) :
    FIndexedNode K V × List (FChange K V) :=
  let filtered : FIndexedNode K V :=
    if newSnap.node.isLeafNode || newSnap.node.isEmpty then .ofNode .empty self.index
    else
      self.filterChildren (newSnap.enumerateChildrenReverse self.reverse) false 0
        (newSnap.updatePriority .empty)
  FIndexedFilter.updateFullNode oldSnap filtered

/-- Queries have no priorities. -/
def toNodeFilter (self : FLimitedFilter K V) : FNodeFilter K V where
  index := self.index
  filtersNodes := true
  updateChildIn := self.updateChildIn
  updateFullNode := self.updateFullNode
  updatePriority := fun _ oldSnap => oldSnap

end FLimitedFilter

/-! ### The filter of a query -/

namespace FQueryParams

variable [QueryValue K V]

def startPost (params : FQueryParams K V) : FPost K V :=
  match params.indexStart with
  | some (indexStartValue, indexStartKey) =>
      params.index.makePost indexStartValue ((indexStartKey.map .key).getD .min)
  | none => params.index.minPost

def endPost (params : FQueryParams K V) : FPost K V :=
  match params.indexEnd with
  | some (indexEndValue, indexEndKey) =>
      params.index.makePost indexEndValue ((indexEndKey.map .key).getD .max)
  | none => params.index.maxPost

def rangedFilter (params : FQueryParams K V) : FRangedFilter K V :=
  ⟨params.index, params.startPost, params.endPost⟩

/-- `nodeFilter` of parameters that do not load all data. -/
def filterOf (params : FQueryParams K V) : FNodeFilter K V :=
  match params.limit with
  | some (limit, isViewFromLeft) =>
      FLimitedFilter.toNodeFilter ⟨params.rangedFilter, limit, !isViewFromLeft⟩
  | none => params.rangedFilter.toNodeFilter

instance (priority := low) : QueryFilters K V := ⟨filterOf⟩

theorem filtersNodes_nodeFilter (params : FQueryParams K V) :
    params.nodeFilter.filtersNodes = !params.loadsAllData := by
  unfold nodeFilter
  split_ifs with hloads
  · rw [hloads]
    rfl
  · rw [Bool.not_eq_true] at hloads
    rw [hloads]
    change (filterOf params).filtersNodes = true
    unfold filterOf
    split <;> rfl

end FQueryParams

end FirebaseSwift.Database
