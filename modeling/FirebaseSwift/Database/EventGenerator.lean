import FirebaseSwift.Database.NodeFilters

/-! The events of a view. An operation on a view leaves raw changes of its children. The event generator
adds a move for every changed child whose place in the index may have changed, sorts the changes kind
by kind, and looks up for each child the one before it in the new event cache. The program stops where
that cache has another index than the query. -/

namespace FirebaseSwift.Database

variable {K V : Type} [DatabaseKey K]

/-! ### Predecessors -/

/-- The key right before a key in a list of keys. -/
def keyBefore (childKey : K) : List K → Option K
  | first :: second :: rest => if second = childKey then some first else keyBefore childKey (second :: rest)
  | _ => none

namespace FNode

def predecessorChildKey (self : FNode K V) (childKey : K) : Option K :=
  keyBefore childKey (self.enumerateChildren.map Prod.fst)

end FNode

/-- Why the program stops while it generates events. -/
inductive EventTrap where
  | onlyChildEvents
  | indexNotAvailable
  deriving DecidableEq

variable [DatabaseValue V]

namespace FIndex

def indexedValueChanged (index : FIndex K) (oldNode : Option (FNode K V)) (newNode : FNode K V) : Bool :=
  match index with
  | .key => false
  | .value => decide (oldNode ≠ some newNode)
  | .priority => decide (oldNode.map FNode.getPriority ≠ some newNode.getPriority)
  | .path childPath =>
      decide (oldNode.map (FNode.getChild · childPath) ≠ some (newNode.getChild childPath))

/-- The name of the member before the one that has the order of the entry. -/
def memberBefore (index : FIndex K) (entry : FNamedNode K V) : List (FNamedNode K V) → Option K
  | first :: second :: rest =>
      if index.compare entry second = .eq then some first.name else memberBefore index entry (second :: rest)
  | _ => none

end FIndex

namespace FIndexedNode

/-- The child before a child that is not the first. -/
def predecessorInIndex (self : FIndexedNode K V) (childKey : K) (childNode : FNode K V) : Option K :=
  match self.indexed with
  | .fallback => self.node.predecessorChildKey childKey
  | .indexed set => self.index.memberBefore ⟨childKey, childNode⟩ set

def predecessorForChildKey (self : FIndexedNode K V) (childKey : K) (childNode : FNode K V)
    (index : FIndex K) : Except EventTrap (Option K) :=
  if self.index ≠ index then .error .indexNotAvailable
  else .ok (self.predecessorInIndex childKey childNode)

end FIndexedNode

/-! ### Events -/

/-- An event has the snapshot of the change at its child. -/
structure FDataEvent (K V : Type) [DatabaseKey K] where
  eventType : DataEventType
  eventRegistration : FEventRegistration
  childKey : Option K
  snapshot : FIndexedNode K V
  prevName : Option K

/-- The registration of a handle responds to the events that it has callbacks for. -/
def FEventRegistration.responseTo (callbacks : Nat → DataEventType → Bool)
    (registration : FEventRegistration) (eventType : DataEventType) : Bool :=
  match registration with
  | .handle value => callbacks value eventType
  | .keepSynced => false

def FChange.changePrevKey (change : FChange K V) (prevKey : Option K) : FChange K V :=
  { change with prevKey := prevKey }

def FEventRegistration.createEventFrom (registration : FEventRegistration) (change : FChange K V) :
    FDataEvent K V :=
  ⟨change.type, registration, change.childKey, change.indexedNode, change.prevKey⟩

/-! ### The generator -/

structure FEventGenerator (K V : Type) [DatabaseKey K] where
  query : FQuerySpec K V

namespace FEventGenerator

variable (self : FEventGenerator K V) (callbacks : Nat → DataEventType → Bool)

/-- The move of a changed child. -/
def moveOf (change : FChange K V) : Option (FChange K V) :=
  if change.type = .childChanged ∧
      self.query.index.indexedValueChanged (change.oldIndexedNode.map FIndexedNode.node)
        change.indexedNode.node = true then
    some ⟨.childMoved, change.indexedNode, change.childKey, none, none⟩
  else none

def moves (changes : List (FChange K V)) : List (FChange K V) := changes.filterMap self.moveOf

def generateEventForChange (change : FChange K V) (registration : FEventRegistration)
    (eventCache : FIndexedNode K V) : Except EventTrap (FDataEvent K V) :=
  if change.type = .value ∨ change.type = .childRemoved then .ok (registration.createEventFrom change)
  else
    match change.childKey with
    | none => .ok (registration.createEventFrom (change.changePrevKey none))
    | some childKey =>
        (eventCache.predecessorForChildKey childKey change.indexedNode.node self.query.index).map
          fun prevChildKey => registration.createEventFrom (change.changePrevKey prevChildKey)

/-- The changes with a key are sorted by the index, where equal ones keep their order. -/
def sortByIndex (changes : List (FChange K V × K)) : List (FChange K V × K) :=
  changes.mergeSort fun one two =>
    self.query.index.compare ⟨two.2, two.1.indexedNode.node⟩ ⟨one.2, one.1.indexedNode.node⟩ ≠ .lt

/-- The sorted changes of a type. The program stops where it compares one that has no key. -/
def sortedChanges (eventType : DataEventType) (changes : List (FChange K V)) :
    Except EventTrap (List (FChange K V)) :=
  let filteredChanges := changes.filter fun change => change.type = eventType
  if filteredChanges.length ≤ 1 then .ok filteredChanges
  else
    match filteredChanges.mapM fun change => change.childKey.map fun childKey => (change, childKey) with
    | none => .error .onlyChildEvents
    | some keyed => .ok ((self.sortByIndex keyed).map Prod.fst)

def generateEvents (eventType : DataEventType) (changes : List (FChange K V))
    (eventCache : FIndexedNode K V) (eventRegistrations : List FEventRegistration) :
    Except EventTrap (List (FDataEvent K V)) := do
  let filteredChanges ← self.sortedChanges eventType changes
  let responding := eventRegistrations.filter fun registration =>
    registration.responseTo callbacks eventType
  let events ← filteredChanges.mapM fun change =>
    responding.mapM fun registration => self.generateEventForChange change registration eventCache
  return events.flatten

def generateEventsForChanges (changes : List (FChange K V)) (eventCache : FIndexedNode K V)
    (eventRegistrations : List FEventRegistration) : Except EventTrap (List (FDataEvent K V)) := do
  let removed ← self.generateEvents callbacks .childRemoved changes eventCache eventRegistrations
  let added ← self.generateEvents callbacks .childAdded changes eventCache eventRegistrations
  let moved ← self.generateEvents callbacks .childMoved (self.moves changes) eventCache eventRegistrations
  let changed ← self.generateEvents callbacks .childChanged changes eventCache eventRegistrations
  let values ← self.generateEvents callbacks .value changes eventCache eventRegistrations
  return removed ++ added ++ moved ++ changed ++ values

end FEventGenerator

/-! ### The events of a view -/

namespace FView

variable (callbacks : Nat → DataEventType → Bool)

/-- With a registration the events are for that one only. -/
def generateEvents (view : FView K V) (changes : List (FChange K V)) (eventCache : FIndexedNode K V)
    (registration : Option FEventRegistration) : Except EventTrap (List (FDataEvent K V)) :=
  (FEventGenerator.mk view.query).generateEventsForChanges callbacks changes eventCache
    (match registration with
      | some registration => [registration]
      | none => view.eventRegistrations)

/-- The changes that `initialEvents` makes of the event cache. -/
def initialChanges (view : FView K V) : List (FChange K V) :=
  let eventSnap := view.viewCache.cachedEventSnap
  let added := eventSnap.node.enumerateChildren.map fun child => FChange.childAdded child.1 child.2
  if eventSnap.isFullyInitialized then
    added ++ [⟨.value, eventSnap.indexedNode, none, none, none⟩]
  else added

def initialEvents (view : FView K V) (registration : FEventRegistration) :
    Except EventTrap (List (FDataEvent K V)) :=
  view.generateEvents callbacks view.initialChanges view.viewCache.cachedEventSnap.indexedNode
    (some registration)

/-- What the processor makes of an operation on the caches of the view. -/
def processorResult [QueryFilters K V] (view : FView K V) (operation : FOperation K V (FQueryParams K V))
    (writesCache : FWriteTreeRef K V) (optCompleteServerCache : Option (FNode K V)) :
    Option (FViewProcessorResult K V) :=
  (FViewProcessor.mk view.query.params.nodeFilter).applyOperationOn writesCache view.viewCache operation
    optCompleteServerCache

/-- The events of `applyOperation`. There is no result where the program stops before. -/
def eventsOfOperation [QueryFilters K V] (view : FView K V)
    (operation : FOperation K V (FQueryParams K V)) (writesCache : FWriteTreeRef K V)
    (optCompleteServerCache : Option (FNode K V)) : Option (Except EventTrap (List (FDataEvent K V))) :=
  (view.processorResult operation writesCache optCompleteServerCache).map fun result =>
    view.generateEvents callbacks result.changes result.viewCache.cachedEventSnap.indexedNode none

end FView

end FirebaseSwift.Database
