import FirebaseSwift.Database.TrackedQueryChanges

/-! The persistence manager. It keeps what the server sent in the cache of the storage engine, and has
the manager of the tracked queries say what of it is complete. After an update it prunes the cache as
the cache policy says. The cache of the engine is the node it stands for; the sizes that the engine
estimates are given, one for every turn of the loop that prunes. -/

namespace FirebaseSwift.Database

open SortedDictionary

variable {K V : Type} [DatabaseKey K]

/-! ### Pruning a node -/

namespace NodeData

mutual

/-- What is left of a node, where a path is pruned or kept as the last value on it says. -/
def prune (forest : FImmutableTree K Bool) (pruned : Bool) : NodeData K V → NodeData K V
  | .empty => .empty
  | .leaf value priority => if forest.value.getD pruned then .empty else .leaf value priority
  | .children dict priority =>
      let kept := pruneChildren forest (forest.value.getD pruned) dict
      if kept.isEmpty then .empty
      else .children kept (if forest.value.getD pruned then .empty else priority)

def pruneChildren (forest : FImmutableTree K Bool) (pruned : Bool) :
    List (K × NodeData K V) → List (K × NodeData K V)
  | [] => []
  | (key, child) :: rest =>
      let kept := prune ((get key forest.children).getD .empty) pruned child
      if kept.isEmpty then pruneChildren forest pruned rest
      else (key, kept) :: pruneChildren forest pruned rest

end

variable (forest : FImmutableTree K Bool)
variable (pruned : Bool)

theorem pruneChildren_cons (key : K) (child : NodeData K V) (rest : List (K × NodeData K V)) :
    pruneChildren forest pruned ((key, child) :: rest) =
      if (prune ((get key forest.children).getD .empty) pruned child).isEmpty then
        pruneChildren forest pruned rest
      else (key, prune ((get key forest.children).getD .empty) pruned child) ::
        pruneChildren forest pruned rest := by
  rw [pruneChildren]

theorem keys_pruneChildren (dict : List (K × NodeData K V)) :
    ((pruneChildren forest pruned dict).map Prod.fst).Sublist (dict.map Prod.fst) := by
  induction dict with
  | nil => exact List.Sublist.slnil
  | cons first rest ih =>
      obtain ⟨key, child⟩ := first
      rw [pruneChildren_cons, List.map_cons]
      split_ifs
      · exact ih.cons key
      · exact ih.cons_cons key

theorem get_pruneChildren {dict : List (K × NodeData K V)} (hnodup : (dict.map Prod.fst).Nodup) (key : K) :
    get key (pruneChildren forest pruned dict) =
      ((get key dict).map fun child => prune ((get key forest.children).getD .empty) pruned child).filter
        fun kept => !kept.isEmpty := by
  induction dict with
  | nil => rfl
  | cons first rest ih =>
      obtain ⟨first, child⟩ := first
      obtain ⟨hfirst, hrest⟩ := List.nodup_cons.mp hnodup
      rw [pruneChildren_cons, get_cons]
      by_cases hkey : first = key
      · subst hkey
        have hnone : get first (pruneChildren forest pruned rest) = none := by
          by_contra hsome
          exact hfirst ((keys_pruneChildren forest pruned rest).subset (mem_keys_iff.mpr hsome))
        rw [if_pos rfl, Option.map_some, Option.filter_some]
        split_ifs with hempty hfull hfull
        · simp [hempty] at hfull
        · exact hnone
        · exact (get_cons _ _ _ _).trans (if_pos rfl)
        · simp [hempty] at hfull
      · rw [if_neg hkey, ← ih hrest]
        split_ifs
        · rfl
        · exact (get_cons _ _ _ _).trans (if_neg hkey)

mutual

theorem wellFormed_prune (forest : FImmutableTree K Bool) (pruned : Bool) :
    ∀ node : NodeData K V, node.wellFormed = true → (prune forest pruned node).wellFormed = true
  | .empty, hwf => by
      rw [prune]
      exact hwf
  | .leaf value priority, hwf => by
      rw [prune]
      split_ifs
      · rfl
      · exact hwf
  | .children dict priority, hwf => by
      obtain ⟨_, hsorted, hall, hpriority⟩ := wellFormed_children_iff.mp hwf
      have hchildren := wellFormed_pruneChildren forest (forest.value.getD pruned) dict hall
      rw [prune]
      split_ifs with hnil hhere
      · rfl
      all_goals
        refine wellFormed_children_iff.mpr ⟨by simpa using hnil, ?_, hchildren, ?_⟩
        · exact List.pairwise_map.mp ((List.pairwise_map.mpr hsorted).sublist (keys_pruneChildren _ _ _))
      · rfl
      · exact hpriority

theorem wellFormed_pruneChildren (forest : FImmutableTree K Bool) (pruned : Bool) : ∀ dict : List (K × NodeData K V),
      (∀ e ∈ dict, e.1 ≠ DatabaseKey.priority ∧ e.2.isEmpty = false ∧ wellFormed e.2 = true) →
        ∀ e ∈ pruneChildren forest pruned dict,
          e.1 ≠ DatabaseKey.priority ∧ e.2.isEmpty = false ∧ wellFormed e.2 = true
  | [], _ => by
      rw [pruneChildren]
      exact fun _ hmem => nomatch hmem
  | (key, child) :: rest, hall => by
      obtain ⟨⟨hkey, _, hchild⟩, hrest⟩ := List.forall_mem_cons.mp hall
      rw [pruneChildren_cons]
      split_ifs with hempty
      · exact wellFormed_pruneChildren forest pruned rest hrest
      · refine List.forall_mem_cons.mpr ⟨⟨hkey, by simpa using hempty, ?_⟩, ?_⟩
        · exact wellFormed_prune _ pruned child hchild
        · exact wellFormed_pruneChildren forest pruned rest hrest

end

end NodeData

/-- The rows of the cache that a prune forest leaves. -/
def FNode.prune (forest : FPruneForest K) (node : FNode K V) : FNode K V :=
  ⟨node.data.prune forest.pruneForest false, NodeData.wellFormed_prune _ _ _ node.wellFormed⟩

/-! ### The manager -/

structure FPersistenceManager (K V : Type) [DatabaseKey K] where
  serverCache : FNode K V
  cachePolicy : FCachePolicy
  trackedQueryManager : FTrackedQueryManager K V
  serverCacheUpdatesSinceLastPruneCheck : Int

namespace FPersistenceManager

variable [DatabaseValue V]

/-- `FPersistenceManager(storageEngine:cachePolicy:)`, where the storage engine has a cache and tracked
queries that it loads. -/
def ofStorage (serverCache : FNode K V) (storage : List (Int × FTrackedQuery K V))
    (loaded : List (FTrackedQuery K V)) (cachePolicy : FCachePolicy) (lastUse : Int) :
    FPersistenceManager K V :=
  ⟨serverCache, cachePolicy, .ofStorage storage loaded lastUse, 0⟩

def setQueryComplete (self : FPersistenceManager K V) (query : FQuerySpec K V) : FPersistenceManager K V :=
  if query.loadsAllData then
    { self with trackedQueryManager := self.trackedQueryManager.setQueriesCompleteAtPath query.path }
  else { self with trackedQueryManager := self.trackedQueryManager.setQueryComplete query }

def setQueryActive (self : FPersistenceManager K V) (spec : FQuerySpec K V) (lastUse : Int) :
    FPersistenceManager K V :=
  { self with trackedQueryManager := self.trackedQueryManager.setQueryActive spec lastUse }

def setQueryInactive (self : FPersistenceManager K V) (spec : FQuerySpec K V) (lastUse : Int) :
    FPersistenceManager K V :=
  { self with trackedQueryManager := self.trackedQueryManager.setQueryInactive spec lastUse }

/-- The loop of `doPruneCheckAfterServerUpdate`. There is no result where the program stops, or where
the loop takes more turns than sizes are given. -/
def pruneWhile (self : FPersistenceManager K V) : List Int → Option (FPersistenceManager K V)
  | [] => none
  | cacheSize :: sizes =>
      if self.cachePolicy.shouldPruneCache cacheSize self.trackedQueryManager.numberOfPrunableQueries then
        (self.trackedQueryManager.pruneOldQueries self.cachePolicy).bind
          fun (trackedQueryManager, pruneForest) =>
            let pruned := { self with trackedQueryManager := trackedQueryManager }
            if pruneForest.prunesAnything then
              pruneWhile { pruned with serverCache := pruned.serverCache.prune pruneForest } sizes
            else some pruned
      else some self

/-- The check goes on where the policy does not ask for it. -/
def doPruneCheckAfterServerUpdate (self : FPersistenceManager K V) (sizes : List Int) :
    Option (FPersistenceManager K V) :=
  let updates := self.serverCacheUpdatesSinceLastPruneCheck + 1
  if self.cachePolicy.shouldCheckCacheSize updates then
    some { self with serverCacheUpdatesSinceLastPruneCheck := updates }
  else { self with serverCacheUpdatesSinceLastPruneCheck := 0 }.pruneWhile sizes

/-- `storageEngine.updateServerCache(_:atPath:merge:)` -/
def updateStorage (self : FPersistenceManager K V) (node : FNode K V) (path : FPath K) (merge : Bool) :
    FPersistenceManager K V :=
  if merge then
    { self with
      serverCache := node.enumerateChildren.foldl
        (fun serverCache child => serverCache.updateChild (path ++ [child.1]) child.2) self.serverCache }
  else { self with serverCache := self.serverCache.updateChild path node }

/-- `updateServerCache(node:forQuery:)` -/
def updateServerCache (self : FPersistenceManager K V) (node : FNode K V) (query : FQuerySpec K V)
    (sizes : List Int) : Option (FPersistenceManager K V) :=
  let merge := !query.loadsAllData
  ((self.updateStorage node query.path merge).setQueryComplete query).doPruneCheckAfterServerUpdate sizes

end FPersistenceManager

end FirebaseSwift.Database
