import FirebaseSwift.Database.TaggedOperations
import FirebaseSwift.Database.RegisteredViews

/-! What an operation on the sync tree does to the sync point at every path. It arrives at the sync
points on its path, and from its end at all below, in the form that it has there. The views of a sync
point stay those of the same queries, so all runs of a sync tree keep it formed. -/

namespace FirebaseSwift.Database

open SortedDictionary FImmutableTree

variable {K V Q : Type} [DatabaseKey K]

namespace FOperation

/-- The operation as it arrives at a path below the one it is applied at. -/
def operationAt (operation : FOperation K V Q) : FPath K → Option (FOperation K V Q)
  | [] => some operation
  | key :: rest => (operation.operationForChild key).bind fun operation => operation.operationAt rest

/-- The operation as it arrives at a path, where it is taken along another path first. -/
def operationAlong : FPath K → FOperation K V Q → FPath K → Option (FOperation K V Q)
  | [], operation, path => operation.operationAt path
  | _ :: _, operation, [] => some operation
  | front :: along, operation, key :: rest =>
      if key = front then
        (operation.operationForChild front).bind fun operation => operationAlong along operation rest
      else none

end FOperation

/-- The pending writes as they are seen at a path below. -/
def FWriteTreeRef.writesAt (writesCache : FWriteTreeRef K V) (path : FPath K) : FWriteTreeRef K V :=
  ⟨writesCache.path ++ path, writesCache.writeTree⟩

theorem FWriteTreeRef.writesAt_nil (writesCache : FWriteTreeRef K V) : writesCache.writesAt [] = writesCache := by
  rw [writesAt, List.append_nil]

theorem FWriteTreeRef.writesAt_cons (writesCache : FWriteTreeRef K V) (key : K) (rest : FPath K) :
    writesCache.writesAt (key :: rest) = (writesCache.childWriteTreeRef key).writesAt rest := by
  rw [writesAt, writesAt, childWriteTreeRef, FPath.childFromString, List.append_assoc]
  rfl

section Trees

variable [DatabaseValue V] [QueryFilters K V]

/-- What becomes of the sync point at a path: it takes over the operation that arrives there. -/
def Updated (operation : Option (FOperation K V (FQueryParams K V))) (writesCache : FWriteTreeRef K V) :
    Option (FSyncPoint K V) → Option (FSyncPoint K V) → Prop
  | none, none => True
  | some syncPoint, some syncPoint' =>
      match operation with
      | some operation => ∃ serverCache, syncPoint.applyOperation operation writesCache serverCache = some syncPoint'
      | none => syncPoint' = syncPoint
  | _, _ => False

variable {operation : FOperation K V (FQueryParams K V)} {serverCache : Option (FNode K V)}
  {writesCache : FWriteTreeRef K V} {tree tree' : FSyncPointTree K V}

omit [DatabaseValue V] [QueryFilters K V] in
theorem Updated.refl [DatabaseValue V] [QueryFilters K V] (writesCache : FWriteTreeRef K V)
    (syncPoint : Option (FSyncPoint K V)) : Updated none writesCache syncPoint syncPoint := by
  cases syncPoint with
  | none => trivial
  | some syncPoint => rfl

theorem Updated.of_applyOperationToSyncPoint {syncPoint syncPoint' : Option (FSyncPoint K V)}
    (h : applyOperationToSyncPoint operation writesCache serverCache syncPoint = some syncPoint') :
    Updated (some operation) writesCache syncPoint syncPoint' := by
  cases syncPoint with
  | none =>
      cases h
      trivial
  | some syncPoint =>
      obtain ⟨syncPoint', happly, rfl⟩ := Option.map_eq_some_iff.mp h
      exact ⟨serverCache, happly⟩

/-- A child tree takes over its part of the operation. -/
def ChildUpdated (operation : FOperation K V (FQueryParams K V)) (serverCache : Option (FNode K V))
    (writesCache : FWriteTreeRef K V) (key : K) (childTree childTree' : FSyncPointTree K V) : Prop :=
  match operation.operationForChild key with
  | some childOperation =>
      applyOperationDescendantsHelper childOperation
        (serverCache.map fun serverCache => serverCache.getImmediateChild key)
        (writesCache.childWriteTreeRef key) childTree = some childTree'
  | none => childTree' = childTree

variable {children' : List (K × FSyncPointTree K V)}

theorem applyOperationToChildTrees_cons {key : K} {childTree : FSyncPointTree K V}
    {rest : List (K × FSyncPointTree K V)}
    (h : applyOperationToChildTrees operation serverCache writesCache ((key, childTree) :: rest) =
      some children') : ∃ childTree' rest', children' = (key, childTree') :: rest' ∧
      ChildUpdated operation serverCache writesCache key childTree childTree' ∧
      applyOperationToChildTrees operation serverCache writesCache rest = some rest' := by
  rw [applyOperationToChildTrees] at h
  unfold ChildUpdated
  cases hchild : operation.operationForChild key with
  | none =>
      rw [hchild] at h
      obtain ⟨_, hsame, h⟩ := Option.bind_eq_some_iff.mp h
      obtain ⟨rest', hrest, h⟩ := Option.bind_eq_some_iff.mp h
      cases hsame
      cases h
      exact ⟨childTree, rest', rfl, rfl, hrest⟩
  | some childOperation =>
      rw [hchild] at h
      obtain ⟨childTree', hchildTree, h⟩ := Option.bind_eq_some_iff.mp h
      obtain ⟨rest', hrest, h⟩ := Option.bind_eq_some_iff.mp h
      cases h
      exact ⟨childTree', rest', rfl, hchildTree, hrest⟩

variable {children : List (K × FSyncPointTree K V)} {along : FPath K}

/-- The children that are there stay there. -/
theorem get_applyOperationToChildTrees
    (h : applyOperationToChildTrees operation serverCache writesCache children = some children') (key : K) :
    (get key children = none ∧ get key children' = none) ∨
      ∃ childTree childTree', get key children = some childTree ∧ get key children' = some childTree' ∧
        ChildUpdated operation serverCache writesCache key childTree childTree' := by
  induction children generalizing children' with
  | nil =>
      rw [applyOperationToChildTrees] at h
      cases h
      exact Or.inl ⟨rfl, rfl⟩
  | cons first rest ih =>
      obtain ⟨childKey, childTree⟩ := first
      obtain ⟨childTree', rest', rfl, hchild, hrest⟩ := applyOperationToChildTrees_cons h
      rw [get_cons, get_cons]
      by_cases hkey : childKey = key
      · subst hkey
        rw [if_pos rfl, if_pos rfl]
        exact Or.inr ⟨childTree, childTree', rfl, rfl, hchild⟩
      · rw [if_neg hkey, if_neg hkey]
        exact ih hrest

theorem keys_applyOperationToChildTrees
    (h : applyOperationToChildTrees operation serverCache writesCache children = some children') :
    children'.map Prod.fst = children.map Prod.fst := by
  induction children generalizing children' with
  | nil =>
      rw [applyOperationToChildTrees] at h
      cases h
      rfl
  | cons first rest ih =>
      obtain ⟨childTree', rest', rfl, _, hrest⟩ := applyOperationToChildTrees_cons h
      rw [List.map_cons, List.map_cons, ih hrest]

theorem mem_applyOperationToChildTrees
    (h : applyOperationToChildTrees operation serverCache writesCache children = some children')
    {e' : K × FSyncPointTree K V} (hmem : e' ∈ children') :
    ∃ e ∈ children, ChildUpdated operation serverCache writesCache e.1 e.2 e'.2 := by
  induction children generalizing children' with
  | nil =>
      rw [applyOperationToChildTrees] at h
      cases h
      cases hmem
  | cons first rest ih =>
      obtain ⟨childTree', rest', rfl, hchild, hrest⟩ := applyOperationToChildTrees_cons h
      rcases List.mem_cons.mp hmem with rfl | hmem
      · exact ⟨first, List.mem_cons_self, hchild⟩
      · obtain ⟨e, he, hupdated⟩ := ih hrest hmem
        exact ⟨e, List.mem_cons_of_mem _ he, hupdated⟩

theorem applyOperationDescendantsHelper_node {syncPoint : Option (FSyncPoint K V)}
    (h : applyOperationDescendantsHelper operation serverCache writesCache (.node syncPoint children) =
      some tree') : ∃ syncPoint' children', tree' = .node syncPoint' children' ∧
      applyOperationToChildTrees operation (resolveServerCache serverCache syncPoint) writesCache children =
        some children' ∧
      applyOperationToSyncPoint operation writesCache (resolveServerCache serverCache syncPoint) syncPoint =
        some syncPoint' := by
  rw [applyOperationDescendantsHelper] at h
  obtain ⟨children', hchildren, h⟩ := Option.bind_eq_some_iff.mp h
  obtain ⟨syncPoint', hsyncPoint, h⟩ := Option.bind_eq_some_iff.mp h
  cases h
  exact ⟨syncPoint', children', rfl, hchildren, hsyncPoint⟩

theorem valueAt_applyOperationDescendantsHelper
    (h : applyOperationDescendantsHelper operation serverCache writesCache tree = some tree') (path : FPath K) :
    Updated (operation.operationAt path) (writesCache.writesAt path) (tree.valueAt path)
      (tree'.valueAt path) := by
  induction path generalizing operation serverCache writesCache tree tree' with
  | nil =>
      obtain ⟨syncPoint, children⟩ := tree
      obtain ⟨syncPoint', children', rfl, _, hsyncPoint⟩ := applyOperationDescendantsHelper_node h
      rw [FWriteTreeRef.writesAt_nil]
      exact .of_applyOperationToSyncPoint hsyncPoint
  | cons key rest ih =>
      obtain ⟨syncPoint, children⟩ := tree
      obtain ⟨syncPoint', children', rfl, hchildren, _⟩ := applyOperationDescendantsHelper_node h
      rw [valueAt_cons, valueAt_cons, children_node, children_node, FOperation.operationAt,
        FWriteTreeRef.writesAt_cons]
      rcases get_applyOperationToChildTrees hchildren key with
        ⟨hnone, hnone'⟩ | ⟨childTree, childTree', hget, hget', hchild⟩
      · rw [hnone, hnone']
        trivial
      · rw [hget, hget', Option.bind_some, Option.bind_some]
        cases hoperation : operation.operationForChild key with
        | none =>
            rw [ChildUpdated, hoperation] at hchild
            cases hchild
            exact .refl _ _
        | some childOperation =>
            rw [ChildUpdated, hoperation] at hchild
            exact ih hchild

theorem isSorted_applyOperationDescendantsHelper (hsorted : tree.IsSorted)
    (h : applyOperationDescendantsHelper operation serverCache writesCache tree = some tree') : tree'.IsSorted := by
  induction hsorted generalizing operation serverCache writesCache tree' with
  | intro syncPoint children hsorted hchildren ih =>
      obtain ⟨syncPoint', children', rfl, hupdated, _⟩ := applyOperationDescendantsHelper_node h
      refine .intro _ _ ?_ fun e' he' => ?_
      · have hkeys := List.pairwise_map.mpr hsorted
        rw [← keys_applyOperationToChildTrees hupdated] at hkeys
        exact List.pairwise_map.mp hkeys
      · obtain ⟨e, he, hchild⟩ := mem_applyOperationToChildTrees hupdated he'
        unfold ChildUpdated at hchild
        cases hoperation : operation.operationForChild e.1 with
        | none =>
            rw [hoperation] at hchild
            rw [hchild]
            exact hchildren e he
        | some childOperation =>
            rw [hoperation] at hchild
            exact ih e he hchild

/-! ### Along a path -/

/-- The child on the path takes over its part of the operation, the other children stay. -/
theorem applyOperationHelper_cons {front : K} {syncPoint : Option (FSyncPoint K V)}
    (h : applyOperationHelper (front :: along) operation (.node syncPoint children) serverCache writesCache =
      some tree') : ∃ syncPoint' children', tree' = .node syncPoint' children' ∧
      applyOperationToSyncPoint operation writesCache (resolveServerCache serverCache syncPoint) syncPoint =
        some syncPoint' ∧
      ((children' = children ∧ (get front children = none ∨ operation.operationForChild front = none)) ∨
        ∃ childTree childOperation childTree', get front children = some childTree ∧
          operation.operationForChild front = some childOperation ∧
          applyOperationHelper along childOperation childTree
            ((resolveServerCache serverCache syncPoint).map fun serverCache =>
              serverCache.getImmediateChild front)
            (writesCache.childWriteTreeRef front) = some childTree' ∧
          children' = set (· < ·) front childTree' children) := by
  rw [applyOperationHelper] at h
  simp only [value_node, children_node] at h
  cases hget : get front children with
  | none =>
      rw [hget] at h
      obtain ⟨_, hsame, h⟩ := Option.bind_eq_some_iff.mp h
      obtain ⟨syncPoint', hsyncPoint, h⟩ := Option.bind_eq_some_iff.mp h
      cases hsame
      cases h
      exact ⟨syncPoint', children, rfl, hsyncPoint, Or.inl ⟨rfl, Or.inl rfl⟩⟩
  | some childTree =>
      cases hchild : operation.operationForChild front with
      | none =>
          rw [hget, hchild] at h
          obtain ⟨_, hsame, h⟩ := Option.bind_eq_some_iff.mp h
          obtain ⟨syncPoint', hsyncPoint, h⟩ := Option.bind_eq_some_iff.mp h
          cases hsame
          cases h
          exact ⟨syncPoint', children, rfl, hsyncPoint, Or.inl ⟨rfl, Or.inr rfl⟩⟩
      | some childOperation =>
          rw [hget, hchild] at h
          obtain ⟨childTree', hupdated, h⟩ := Option.bind_eq_some_iff.mp h
          obtain ⟨_, hset, h⟩ := Option.bind_eq_some_iff.mp h
          obtain ⟨syncPoint', hsyncPoint, h⟩ := Option.bind_eq_some_iff.mp h
          cases hset
          cases h
          exact ⟨syncPoint', _, rfl, hsyncPoint, Or.inr ⟨childTree, childOperation, childTree', rfl, rfl,
            hupdated, rfl⟩⟩

theorem valueAt_applyOperationHelper
    (h : applyOperationHelper along operation tree serverCache writesCache = some tree') (path : FPath K) :
    Updated (FOperation.operationAlong along operation path) (writesCache.writesAt path)
      (tree.valueAt path) (tree'.valueAt path) := by
  induction along generalizing operation serverCache writesCache tree tree' path with
  | nil =>
      rw [applyOperationHelper] at h
      exact valueAt_applyOperationDescendantsHelper h path
  | cons front along ih =>
      obtain ⟨syncPoint, children⟩ := tree
      obtain ⟨syncPoint', children', rfl, hsyncPoint, hchildren⟩ := applyOperationHelper_cons h
      cases path with
      | nil =>
          rw [FWriteTreeRef.writesAt_nil]
          exact .of_applyOperationToSyncPoint hsyncPoint
      | cons key rest =>
          rw [valueAt_cons, valueAt_cons, children_node, children_node, FOperation.operationAlong,
            FWriteTreeRef.writesAt_cons]
          rcases hchildren with ⟨rfl, hnone⟩ | ⟨childTree, childOperation, childTree', hget, hchild, hupdated, rfl⟩
          · split_ifs with hkey
            · subst hkey
              rcases hnone with hnone | hnone
              · rw [hnone]
                trivial
              · rw [hnone]
                exact .refl _ _
            · exact .refl _ _
          · rw [get_set]
            split_ifs with hkey
            · subst hkey
              rw [hget, hchild]
              exact ih hupdated rest
            · exact .refl _ _

theorem isSorted_applyOperationHelper (hsorted : tree.IsSorted)
    (h : applyOperationHelper along operation tree serverCache writesCache = some tree') : tree'.IsSorted := by
  induction along generalizing operation serverCache writesCache tree tree' with
  | nil =>
      rw [applyOperationHelper] at h
      exact isSorted_applyOperationDescendantsHelper hsorted h
  | cons front along ih =>
      obtain ⟨syncPoint, children⟩ := tree
      obtain ⟨syncPoint', children', rfl, _, hchildren⟩ := applyOperationHelper_cons h
      rcases hchildren with ⟨rfl, _⟩ | ⟨childTree, childOperation, childTree', hget, _, hupdated, rfl⟩
      · cases hsorted with
        | intro _ _ hsorted hchildren => exact .intro _ _ hsorted hchildren
      · exact hsorted.withChild syncPoint' front (ih (hsorted.child hget) hupdated)

end Trees

/-! ### The views of a sync point -/

variable [DatabaseValue V]

namespace FSyncPoint

variable {path : FPath K} {syncPoint syncPoint' : FSyncPoint K V}

/-- Every view of the sync point has the property. -/
def AllViews (property : FView K V → Prop) (syncPoint : FSyncPoint K V) : Prop :=
  ∀ entry ∈ syncPoint.views, property entry.2

theorem AllViews.setView {property : FView K V → Prop} (h : syncPoint.AllViews property)
    {view : FView K V} (hview : property view) (params : FQueryParams K V) :
    (syncPoint.setView params view).AllViews property := by
  intro entry hmem
  rw [FSyncPoint.setView] at hmem
  split_ifs at hmem
  · obtain ⟨old, hold, rfl⟩ := List.mem_map.mp hmem
    by_cases hparams : old.1 = params
    · rw [if_pos hparams]
      exact hview
    · rw [if_neg hparams]
      exact h old hold
  · rcases List.mem_append.mp hmem with hold | hnew
    · exact h entry hold
    · rw [List.mem_singleton.mp hnew]
      exact hview

theorem viewExistsForQuery_iff_keys {query : FQuerySpec K V} :
    syncPoint.viewExistsForQuery query = true ↔ query.params ∈ syncPoint.views.map Prod.fst := by
  rw [viewExistsForQuery_iff, List.mem_map]

omit [DatabaseValue V] in
/-- An operation on every view keeps the parameters. -/
theorem map_fst_of_mapM {apply : FView K V → Option (FView K V)} {views views' : List (FQueryParams K V × FView K V)}
    (h : views.mapM (fun entry => (apply entry.2).map fun view => (entry.1, view)) = some views') :
    views'.map Prod.fst = views.map Prod.fst ∧
      ∀ entry' ∈ views', ∃ entry ∈ views, entry.1 = entry'.1 ∧ apply entry.2 = some entry'.2 := by
  induction views generalizing views' with
  | nil =>
      cases h
      exact ⟨rfl, fun _ hmem => nomatch hmem⟩
  | cons entry rest ih =>
      rw [List.mapM_cons] at h
      obtain ⟨entry', hentry, h⟩ := Option.bind_eq_some_iff.mp h
      obtain ⟨rest', hrest, h⟩ := Option.bind_eq_some_iff.mp h
      obtain ⟨view', happly, rfl⟩ := Option.map_eq_some_iff.mp hentry
      cases h
      obtain ⟨hkeys, hmem⟩ := ih hrest
      refine ⟨by rw [List.map_cons, List.map_cons, hkeys], fun found hfound => ?_⟩
      rcases List.mem_cons.mp hfound with rfl | hfound
      · exact ⟨entry, List.mem_cons_self, rfl, happly⟩
      · obtain ⟨old, hold, hsame⟩ := hmem found hfound
        exact ⟨old, List.mem_cons_of_mem _ hold, hsame⟩

variable [QueryFilters K V]

theorem query_of_applyOperation {view view' : FView K V}
    {operation : FOperation K V (FQueryParams K V)} {writesCache : FWriteTreeRef K V}
    {serverCache : Option (FNode K V)}
    (h : view.applyOperation operation writesCache serverCache = some view') : view'.query = view.query := by
  obtain ⟨_, _, rfl⟩ := Option.map_eq_some_iff.mp h
  rfl

/-- Every view after an operation is one before, or comes from one by the operation. -/
theorem applyOperation_cases {operation : FOperation K V (FQueryParams K V)}
    {writesCache : FWriteTreeRef K V} {serverCache : Option (FNode K V)}
    (h : syncPoint.applyOperation operation writesCache serverCache = some syncPoint') :
    syncPoint'.views.map Prod.fst = syncPoint.views.map Prod.fst ∧
      ∀ entry' ∈ syncPoint'.views, entry' ∈ syncPoint.views ∨ ∃ entry ∈ syncPoint.views,
        entry.1 = entry'.1 ∧ entry.2.applyOperation operation writesCache serverCache = some entry'.2 := by
  have hall : ∀ {views'}, (syncPoint.views.mapM fun entry : FQueryParams K V × FView K V =>
      (entry.2.applyOperation operation writesCache serverCache).map fun view => (entry.1, view)) =
        some views' → views'.map Prod.fst = syncPoint.views.map Prod.fst ∧
      ∀ entry' ∈ views', entry' ∈ syncPoint.views ∨ ∃ entry ∈ syncPoint.views,
        entry.1 = entry'.1 ∧ entry.2.applyOperation operation writesCache serverCache = some entry'.2 := by
    intro views' hviews
    obtain ⟨hkeys, hmem⟩ :=
      @map_fst_of_mapM _ _ _ (fun view => view.applyOperation operation writesCache serverCache) _ _ hviews
    exact ⟨hkeys, fun entry' hentry' => Or.inr (hmem entry' hentry')⟩
  unfold applyOperation at h
  match hsource : operation.source with
  | .user =>
      rw [hsource] at h
      obtain ⟨views', hviews, rfl⟩ := Option.map_eq_some_iff.mp h
      exact hall hviews
  | .server none =>
      rw [hsource] at h
      obtain ⟨views', hviews, rfl⟩ := Option.map_eq_some_iff.mp h
      exact hall hviews
  | .server (some queryParams) =>
      rw [hsource] at h
      dsimp only at h
      cases hview : syncPoint.viewFor queryParams with
      | none =>
          rw [hview] at h
          cases h
          exact ⟨rfl, fun entry' hentry' => Or.inl hentry'⟩
      | some view =>
          rw [hview] at h
          obtain ⟨view', happly, rfl⟩ := Option.map_eq_some_iff.mp h
          rw [FSyncPoint.setView, if_pos (Option.isSome_of_mem hview)]
          refine ⟨map_fst_replace queryParams view' syncPoint.views, fun entry' hentry' => ?_⟩
          obtain ⟨entry, hentry, rfl⟩ := List.mem_map.mp hentry'
          by_cases hparams : entry.1 = queryParams
          · rw [if_pos hparams]
            exact Or.inr ⟨_, mem_of_viewFor hview, rfl, happly⟩
          · rw [if_neg hparams]
            exact Or.inl hentry

theorem WellFormed.applyOperation (hsync : syncPoint.WellFormed path)
    {operation : FOperation K V (FQueryParams K V)} {writesCache : FWriteTreeRef K V}
    {serverCache : Option (FNode K V)}
    (h : syncPoint.applyOperation operation writesCache serverCache = some syncPoint') :
    syncPoint'.WellFormed path := by
  obtain ⟨hkeys, hviews⟩ := applyOperation_cases h
  refine ⟨by rw [hkeys]; exact hsync.nodup, fun entry' hentry' => ?_⟩
  rcases hviews entry' hentry' with hold | ⟨entry, hentry, hparams, happly⟩
  · exact hsync.query_eq entry' hold
  · rw [query_of_applyOperation happly, hsync.query_eq entry hentry, hparams]

end FSyncPoint

/-! ### Runs of a sync tree -/

namespace FSyncTree

variable {tree tree' : FSyncTree K V} {property : FView K V → Prop}

/-- Every view of the sync tree has the property. -/
def AllViews (property : FView K V → Prop) (tree : FSyncTree K V) : Prop :=
  ∀ path, ∀ syncPoint ∈ tree.syncPointTree.valueAt path, syncPoint.AllViews property

/-- The sync points take over operations and stay where they are. -/
def Takes [QueryFilters K V] (tree tree' : FSyncTree K V) : Prop :=
  ∀ path, ∃ operation writesCache,
    Updated operation writesCache (tree.syncPointTree.valueAt path) (tree'.syncPointTree.valueAt path)

section Takes

variable [QueryFilters K V]

theorem Takes.wellFormedAt (h : tree.Takes tree') (hformed : WellFormedAt [] tree.syncPointTree) :
    WellFormedAt [] tree'.syncPointTree := by
  intro path syncPoint' hvalue'
  obtain ⟨operation, writesCache, hupdated⟩ := h path
  rw [hvalue'] at hupdated
  cases hvalue : tree.syncPointTree.valueAt path with
  | none =>
      rw [hvalue] at hupdated
      cases hupdated
  | some syncPoint =>
      rw [hvalue] at hupdated
      cases operation with
      | none =>
          cases hupdated
          exact hformed path _ hvalue
      | some operation =>
          obtain ⟨serverCache, happly⟩ := hupdated
          exact (hformed path syncPoint hvalue).applyOperation happly

theorem Takes.views_eq (h : tree.Takes tree') : tree'.views = tree.views := by
  ext query
  rw [mem_views_iff, mem_views_iff]
  obtain ⟨operation, writesCache, hupdated⟩ := h query.path
  cases hvalue : tree.syncPointTree.valueAt query.path with
  | none =>
      cases hvalue' : tree'.syncPointTree.valueAt query.path with
      | none => rfl
      | some syncPoint' =>
          rw [hvalue, hvalue'] at hupdated
          cases hupdated
  | some syncPoint =>
      cases hvalue' : tree'.syncPointTree.valueAt query.path with
      | none =>
          rw [hvalue, hvalue'] at hupdated
          cases hupdated
      | some syncPoint' =>
          rw [hvalue, hvalue'] at hupdated
          simp only [Option.some.injEq, exists_eq_left', FSyncPoint.viewExistsForQuery_iff_keys]
          cases operation with
          | none =>
              cases hupdated
              rfl
          | some operation =>
              obtain ⟨serverCache, happly⟩ := hupdated
              rw [(FSyncPoint.applyOperation_cases happly).1]

/-- A property of views that new views have, and that operations and registrations keep. -/
structure Stable (property : FView K V → Prop) : Prop where
  ofQuery : ∀ query initialViewCache, property (.ofQuery query initialViewCache)
  registrations : ∀ view eventRegistrations, property view →
    property { view with eventRegistrations := eventRegistrations }
  applyOperation : ∀ (view view' : FView K V) (operation : FOperation K V (FQueryParams K V))
    (writesCache : FWriteTreeRef K V) (serverCache : Option (FNode K V)), property view →
      view.applyOperation operation writesCache serverCache = some view' → property view'

theorem Takes.allViews (h : tree.Takes tree') (hstable : Stable property)
    (hviews : tree.AllViews property) : tree'.AllViews property := by
  intro path syncPoint' hvalue' entry' hentry'
  obtain ⟨operation, writesCache, hupdated⟩ := h path
  rw [Option.mem_def.mp hvalue'] at hupdated
  cases hvalue : tree.syncPointTree.valueAt path with
  | none =>
      rw [hvalue] at hupdated
      cases hupdated
  | some syncPoint =>
      rw [hvalue] at hupdated
      cases operation with
      | none =>
          cases hupdated
          exact hviews path _ hvalue entry' hentry'
      | some operation =>
          obtain ⟨serverCache, happly⟩ := hupdated
          rcases (FSyncPoint.applyOperation_cases happly).2 entry' hentry' with hold | ⟨entry, hentry, _, happly⟩
          · exact hviews path syncPoint hvalue entry' hold
          · exact hstable.applyOperation _ _ _ _ _ (hviews path syncPoint hvalue entry hentry) happly

theorem takes_applyOperationToSyncPoints {operation : FOperation K V (FQueryParams K V)}
    (h : tree.applyOperationToSyncPoints operation = some tree') : tree.Takes tree' := by
  obtain ⟨_, happly, rfl⟩ := Option.map_eq_some_iff.mp h
  exact fun path => ⟨_, _, valueAt_applyOperationHelper happly path⟩

theorem takes_applyToTaggedQuery {path : FPath K} {tagId : Int}
    {operation : FOperationSource (FQueryParams K V) → FPath K → FOperation K V (FQueryParams K V)}
    (h : tree.applyToTaggedQuery path tagId operation = some tree') : tree.Takes tree' := by
  have hrefl : tree.Takes tree := fun path => ⟨none, tree.pendingWriteTree.childWritesForPath path, .refl _ _⟩
  unfold applyToTaggedQuery at h
  cases hquery : tree.tagToQueryMap tagId with
  | none =>
      rw [hquery] at h
      cases h
      exact hrefl
  | some query =>
      rw [hquery] at h
      dsimp only at h
      unfold applyTaggedOperation at h
      cases hvalue : tree.syncPointTree.valueAt query.path with
      | none =>
          rw [hvalue] at h
          cases h
          exact hrefl
      | some syncPoint =>
          rw [hvalue] at h
          obtain ⟨syncPoint', happly, rfl⟩ := Option.map_eq_some_iff.mp h
          intro other
          rw [FImmutableTree.valueAt_setValue]
          split_ifs with hother
          · rw [hother, hvalue]
            exact ⟨some _, tree.pendingWriteTree.childWritesForPath query.path, none, happly⟩
          · exact hrefl other

end Takes

end FSyncTree

end FirebaseSwift.Database
