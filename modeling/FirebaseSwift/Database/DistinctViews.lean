import FirebaseSwift.Database.Listens
import FirebaseSwift.Database.ListenSets
import Mathlib.Data.List.Nodup

/-! The distinct views of a tree of sync points: of every path from the root down the first complete
view, and the filtered views above it. Adding a complete view stops the listens of the distinct views
below it, removing it starts them again. -/

namespace FirebaseSwift.Database

variable {K V : Type} [DatabaseKey K]

/-! ### Views of a sync point -/

namespace FSyncPoint

/-- Every view is kept under the parameters of its query, which is a query at the path. -/
structure WellFormed (path : FPath K) (syncPoint : FSyncPoint K V) : Prop where
  nodup : (syncPoint.views.map Prod.fst).Nodup
  query_eq : ∀ entry ∈ syncPoint.views, entry.2.query = ⟨path, entry.1⟩

variable {path : FPath K} {syncPoint : FSyncPoint K V}

theorem viewExistsForQuery_iff [DatabaseValue V] {query : FQuerySpec K V} :
    syncPoint.viewExistsForQuery query = true ↔ ∃ entry ∈ syncPoint.views, entry.1 = query.params := by
  rw [viewExistsForQuery, viewFor, Option.isSome_iff_ne_none, ← SortedDictionary.mem_keys_iff, List.mem_map]

theorem WellFormed.empty (path : FPath K) : (empty : FSyncPoint K V).WellFormed path :=
  ⟨List.nodup_nil, fun _ h => (nomatch h)⟩

theorem WellFormed.completeView_eq_some (h : syncPoint.WellFormed path) {view : FView K V}
    (hview : syncPoint.completeView = some view) : view.query.path = path ∧ view.query.loadsAllData = true := by
  rw [completeView, Option.map_eq_some_iff] at hview
  obtain ⟨entry, hfind, rfl⟩ := hview
  have hmem := List.mem_of_find?_eq_some hfind
  have hloads := List.find?_some hfind
  exact ⟨by rw [h.query_eq entry hmem], hloads⟩

theorem WellFormed.hasCompleteView_iff [DatabaseValue V] (h : syncPoint.WellFormed path) :
    syncPoint.hasCompleteView = true ↔
      ∃ query : FQuerySpec K V, query.path = path ∧ query.loadsAllData = true ∧
        syncPoint.viewExistsForQuery query = true := by
  simp only [viewExistsForQuery_iff]
  rw [hasCompleteView, completeView, Option.isSome_map, List.find?_isSome]
  constructor
  · rintro ⟨entry, hmem, hloads⟩
    have hquery := h.query_eq entry hmem
    rw [hquery] at hloads
    exact ⟨⟨path, entry.1⟩, rfl, hloads, entry, hmem, rfl⟩
  · rintro ⟨query, rfl, hloads, entry, hmem, hparams⟩
    refine ⟨entry, hmem, ?_⟩
    rw [h.query_eq entry hmem, hparams]
    exact hloads

theorem WellFormed.mem_queryViews [DatabaseValue V] (h : syncPoint.WellFormed path) {query : FQuerySpec K V} :
    query ∈ syncPoint.queryViews.map FView.query ↔
      query.path = path ∧ query.loadsAllData = false ∧ syncPoint.viewExistsForQuery query = true := by
  rw [viewExistsForQuery_iff, queryViews]
  simp only [List.mem_map, List.mem_filter]
  constructor
  · rintro ⟨view, ⟨⟨entry, hmem, rfl⟩, hfilters⟩, rfl⟩
    have hquery := h.query_eq entry hmem
    refine ⟨by rw [hquery], by simpa using hfilters, entry, hmem, by rw [hquery]⟩
  · rintro ⟨rfl, hfilters, entry, hmem, hparams⟩
    have hquery : entry.2.query = query := by rw [h.query_eq entry hmem, hparams]
    exact ⟨entry.2, ⟨⟨entry, hmem, rfl⟩, by rw [hquery, hfilters]; rfl⟩, hquery⟩

theorem WellFormed.queries_eq (h : syncPoint.WellFormed path) : (syncPoint.views.map fun entry => entry.2.query) =
      (syncPoint.views.map Prod.fst).map fun params => (⟨path, params⟩ : FQuerySpec K V) := by
  rw [List.map_map]
  exact List.map_congr_left h.query_eq

/-- The filtered views follow from the parameters. -/
theorem WellFormed.queryViews_eq (h : syncPoint.WellFormed path) : syncPoint.queryViews.map FView.query =
      ((syncPoint.views.map Prod.fst).map fun params => (⟨path, params⟩ : FQuerySpec K V)).filter
        fun query => !query.loadsAllData := by
  rw [queryViews, ← h.queries_eq, List.filter_map, List.filter_map, List.map_map]
  rfl

theorem WellFormed.nodup_queries (h : syncPoint.WellFormed path) :
    (syncPoint.views.map fun entry => entry.2.query).Nodup := by
  rw [h.queries_eq]
  refine List.Nodup.map (fun params params' heq => ?_) h.nodup
  cases heq
  rfl

theorem WellFormed.nodup_queryViews (h : syncPoint.WellFormed path) :
    (syncPoint.queryViews.map FView.query).Nodup := by
  rw [h.queryViews_eq, ← h.queries_eq]
  exact h.nodup_queries.filter _

end FSyncPoint

/-! ### Distinct views of a tree -/

section Distinct

variable {path : FPath K}

/-- The sync points in the tree are well formed, for a tree at the given path. -/
def WellFormedAt (path : FPath K) (tree : FSyncPointTree K V) : Prop :=
  ∀ rest syncPoint, tree.valueAt rest = some syncPoint → syncPoint.WellFormed (path ++ rest)

/-- The queries that have a view in a tree at the given path. -/
def viewsOf [DatabaseValue V] (path : FPath K) (tree : FSyncPointTree K V) : Set (FQuerySpec K V) :=
  {query | ∃ rest syncPoint, query.path = path ++ rest ∧ tree.valueAt rest = some syncPoint ∧
    syncPoint.viewExistsForQuery query = true}

/-- The queries that a node contributes to the distinct views. -/
def ownQueries (syncPoint : Option (FSyncPoint K V)) : List (FQuerySpec K V) :=
  match syncPoint.bind FSyncPoint.completeView with
  | some completeView => [completeView.query]
  | none => ((syncPoint.map FSyncPoint.queryViews).getD []).map FView.query

mutual

/-- The queries of the distinct views. -/
def distinctQueries : FSyncPointTree K V → List (FQuerySpec K V)
  | .node syncPoint children =>
      if (syncPoint.bind FSyncPoint.completeView).isSome then ownQueries syncPoint
      else ownQueries syncPoint ++ distinctQueriesOfChildren children

def distinctQueriesOfChildren : List (K × FSyncPointTree K V) → List (FQuerySpec K V)
  | [] => []
  | (_, childTree) :: rest => distinctQueries childTree ++ distinctQueriesOfChildren rest

end

theorem distinctQueriesOfChildren_eq (children : List (K × FSyncPointTree K V)) :
    distinctQueriesOfChildren children = children.flatMap fun e => distinctQueries e.2 := by
  induction children with
  | nil => rfl
  | cons e rest ih => rw [distinctQueriesOfChildren, ih, List.flatMap_cons]

mutual

/-- A removal collects the distinct views. -/
theorem fold_distinctViewsBlock (pathSoFar : FPath K) : ∀ tree : FSyncPointTree K V,
    (tree.fold FSyncTree.distinctViewsBlock pathSoFar).map FView.query = distinctQueries tree
  | .node syncPoint children => by
      rw [FImmutableTree.fold, distinctQueries, FSyncTree.distinctViewsBlock, ownQueries]
      cases syncPoint.bind FSyncPoint.completeView with
      | some completeView => rfl
      | none =>
          have hchildren := foldChildren_distinctViewsBlock pathSoFar children
          simp only [List.map_append, Option.isSome_none, Bool.false_eq_true, if_false, hchildren]

theorem foldChildren_distinctViewsBlock (pathSoFar : FPath K) : ∀ children : List (K × FSyncPointTree K V),
      ((FImmutableTree.foldChildren FSyncTree.distinctViewsBlock pathSoFar children).flatMap
        Prod.snd).map FView.query = distinctQueriesOfChildren children
  | [] => rfl
  | (childKey, childTree) :: rest => by
      rw [FImmutableTree.foldChildren, List.flatMap_cons, List.map_append, distinctQueriesOfChildren,
        fold_distinctViewsBlock _ childTree, foldChildren_distinctViewsBlock pathSoFar rest]

end

mutual

/-- Below its root a registration does so, too. -/
theorem fold_queriesToStopBlock (pathSoFar : FPath K) (hpath : pathSoFar ≠ []) : ∀ tree : FSyncPointTree K V,
      tree.fold FSyncTree.queriesToStopBlock pathSoFar = distinctQueries tree
  | .node syncPoint children => by
      have hempty : (!pathSoFar.isEmpty) = true := by simpa using hpath
      rw [FImmutableTree.fold, distinctQueries, FSyncTree.queriesToStopBlock, ownQueries]
      simp only [hempty]
      cases syncPoint.bind FSyncPoint.completeView with
      | some completeView => rfl
      | none =>
          have hchildren := foldChildren_queriesToStopBlock pathSoFar children
          simp only [Option.filter_none, Option.isSome_none, Bool.false_eq_true, if_false, hchildren]

theorem foldChildren_queriesToStopBlock (pathSoFar : FPath K) : ∀ children : List (K × FSyncPointTree K V),
      (FImmutableTree.foldChildren FSyncTree.queriesToStopBlock pathSoFar children).flatMap
        Prod.snd = distinctQueriesOfChildren children
  | [] => rfl
  | (childKey, childTree) :: rest => by
      rw [FImmutableTree.foldChildren, List.flatMap_cons, distinctQueriesOfChildren,
        fold_queriesToStopBlock _ (by simp) childTree, foldChildren_queriesToStopBlock pathSoFar rest]

end

/-- At its root a registration keeps the filtered views, although the new view is complete. -/
theorem fold_queriesToStopBlock_root (syncPoint : Option (FSyncPoint K V))
    (children : List (K × FSyncPointTree K V)) :
    (FImmutableTree.node syncPoint children).fold FSyncTree.queriesToStopBlock [] =
      ((syncPoint.map FSyncPoint.queryViews).getD []).map FView.query ++
        distinctQueriesOfChildren children := by
  rw [FImmutableTree.fold, FSyncTree.queriesToStopBlock]
  cases syncPoint.bind FSyncPoint.completeView with
  | some completeView =>
      rw [Option.filter_some, if_neg (by simp)]
      simp only [foldChildren_queriesToStopBlock]
  | none => simp only [Option.filter_none, foldChildren_queriesToStopBlock]

section Listening

variable {query : FQuerySpec K V} {tree : FSyncPointTree K V}

open FSyncTree (queryForListening)

theorem queryForListening_of_filtered (h : query.loadsAllData = false) : queryForListening query = query := by
  simp [queryForListening, h]

theorem queryForListening_of_complete (h : query.loadsAllData = true) :
    queryForListening query = .defaultQueryAtPath query.path := by
  unfold queryForListening
  cases hdefault : query.isDefault
  · simp [h]
  · simpa using ListenSets.isDefault_iff.mp hdefault

/-- The listens for the distinct views. -/
def listenedQueries (tree : FSyncPointTree K V) : List (FQuerySpec K V) :=
  (distinctQueries tree).map queryForListening

theorem listenedQueries_of_complete {syncPoint : Option (FSyncPoint K V)}
    {children : List (K × FSyncPointTree K V)} {view : FView K V}
    (hview : syncPoint.bind FSyncPoint.completeView = some view) :
    listenedQueries (.node syncPoint children) = [queryForListening view.query] := by
  rw [listenedQueries, distinctQueries, ownQueries, hview]
  rfl

theorem listenedQueries_of_notComplete {syncPoint : Option (FSyncPoint K V)}
    {children : List (K × FSyncPointTree K V)} (hview : syncPoint.bind FSyncPoint.completeView = none) :
    listenedQueries (.node syncPoint children) =
      (((syncPoint.map FSyncPoint.queryViews).getD []).map FView.query).map queryForListening ++
        children.flatMap fun e => listenedQueries e.2 := by
  rw [listenedQueries, distinctQueries, ownQueries, hview, distinctQueriesOfChildren_eq,
    if_neg (by simp), List.map_append, List.map_flatMap]
  rfl

theorem WellFormedAt.root {syncPoint : FSyncPoint K V} (h : WellFormedAt path tree)
    (hvalue : tree.value = some syncPoint) : syncPoint.WellFormed path := by
  have hroot := h [] syncPoint hvalue
  rwa [List.append_nil] at hroot

theorem WellFormedAt.child {key : K} {childTree : FSyncPointTree K V} (h : WellFormedAt path tree)
    (hget : SortedDictionary.get key tree.children = some childTree) : WellFormedAt (path ++ [key]) childTree := by
  intro rest syncPoint hvalue
  rw [List.append_assoc]
  refine h (key :: rest) syncPoint ?_
  rw [FImmutableTree.valueAt_cons, hget]
  exact hvalue

end Listening

section Listened

open ListenSets
open FSyncTree (queryForListening)

variable [DatabaseValue V] {tree : FSyncPointTree K V} {query : FQuerySpec K V}
  {syncPoint : Option (FSyncPoint K V)} {children : List (K × FSyncPointTree K V)}

theorem mem_viewsOf_root (hpath : query.path = path) : query ∈ viewsOf path (.node syncPoint children) ↔
      ∃ found, syncPoint = some found ∧ found.viewExistsForQuery query = true := by
  constructor
  · rintro ⟨rest, found, hrest, hvalue, hexists⟩
    have hnil : rest = [] := by
      rw [hpath] at hrest
      simpa using hrest.symm
    subst hnil
    exact ⟨found, hvalue, hexists⟩
  · rintro ⟨found, hvalue, hexists⟩
    exact ⟨[], found, by rw [List.append_nil, hpath], hvalue, hexists⟩

theorem mem_viewsOf_child {key : K} (hle : path ++ [key] <+: query.path) : query ∈ viewsOf path tree ↔
      ∃ childTree, SortedDictionary.get key tree.children = some childTree ∧
        query ∈ viewsOf (path ++ [key]) childTree := by
  constructor
  · rintro ⟨rest, found, hrest, hvalue, hexists⟩
    rw [hrest, List.prefix_append_right_inj] at hle
    obtain ⟨rest, rfl⟩ := hle
    rw [List.singleton_append, FImmutableTree.valueAt_cons] at hvalue
    cases hget : SortedDictionary.get key tree.children with
    | none => simp [hget] at hvalue
    | some childTree =>
        rw [hget] at hvalue
        exact ⟨childTree, rfl, rest, found, by simp [hrest], hvalue, hexists⟩
  · rintro ⟨childTree, hget, rest, found, hrest, hvalue, hexists⟩
    refine ⟨key :: rest, found, by simp [hrest], ?_, hexists⟩
    rw [FImmutableTree.valueAt_cons, hget]
    exact hvalue

theorem prefix_of_mem_viewsOf (h : query ∈ viewsOf path tree) : path <+: query.path := by
  obtain ⟨rest, _, hrest, _⟩ := h
  exact ⟨rest, hrest.symm⟩

/-- In a tree at a path no path above is complete. -/
theorem not_shadowed_viewsOf : ¬Shadowed (viewsOf path tree) path := by
  rintro ⟨above, hle, hne, complete, hmem, rfl, _⟩
  exact hne (hle.eq_of_length_le (prefix_of_mem_viewsOf hmem).length_le)

theorem complete_viewsOf_iff (hwf : WellFormedAt path (.node syncPoint children)) :
    Complete (viewsOf path (.node syncPoint children)) path ↔
      (syncPoint.bind FSyncPoint.completeView).isSome = true := by
  have hcomplete : Complete (viewsOf path (.node syncPoint children)) path ↔
      ∃ found, syncPoint = some found ∧ found.hasCompleteView = true := by
    constructor
    · rintro ⟨complete, hmem, hpath, hloads⟩
      obtain ⟨found, rfl, hexists⟩ := (mem_viewsOf_root hpath).mp hmem
      exact ⟨found, rfl, (hwf.root rfl).hasCompleteView_iff.mpr ⟨complete, hpath, hloads, hexists⟩⟩
    · rintro ⟨found, rfl, hview⟩
      obtain ⟨complete, hpath, hloads, hexists⟩ := (hwf.root rfl).hasCompleteView_iff.mp hview
      exact ⟨complete, (mem_viewsOf_root hpath).mpr ⟨found, rfl, hexists⟩, hpath, hloads⟩
  rw [hcomplete]
  cases syncPoint <;> simp [FSyncPoint.hasCompleteView]

/-- What is listened to in a tree whose root is not complete, below a child. -/
theorem mem_listened_child {key : K} (hnot : ¬Complete (viewsOf path tree) path)
    (hle : path ++ [key] <+: query.path) : query ∈ Listened (viewsOf path tree) ↔
      ∃ childTree, SortedDictionary.get key tree.children = some childTree ∧
        query ∈ Listened (viewsOf (path ++ [key]) childTree) := by
  cases hget : SortedDictionary.get key tree.children with
  | none =>
      have hempty : ∀ below : FQuerySpec K V, path ++ [key] <+: below.path →
          below ∉ viewsOf path tree := fun below hbelow hmem => by
        obtain ⟨childTree, hchild, _⟩ := (mem_viewsOf_child hbelow).mp hmem
        rw [hget] at hchild
        cases hchild
      refine iff_of_false ?_ (by simp)
      rintro (⟨_, ⟨complete, hmem, hpath, _⟩, _⟩ | ⟨_, hmem, _⟩)
      · exact hempty complete (hpath ▸ hle) hmem
      · exact hempty query hle hmem
  | some childTree =>
      have hshadowed : ¬Shadowed (viewsOf path tree) (path ++ [key]) := by
        rintro ⟨above, habove, hne, complete, hmem, rfl, hloads⟩
        rcases List.prefix_concat_iff.mp habove with heq | habove
        · exact hne heq
        · have hroot := (prefix_of_mem_viewsOf hmem).eq_of_length_le habove.length_le
          exact hnot ⟨complete, hmem, hroot.symm, hloads⟩
      have hviews : ∀ below : FQuerySpec K V, path ++ [key] <+: below.path →
          (below ∈ viewsOf path tree ↔ below ∈ viewsOf (path ++ [key]) childTree) := fun below hbelow => by
        rw [mem_viewsOf_child hbelow, hget]
        simp
      rw [listened_iff_of_below hviews hshadowed not_shadowed_viewsOf hle]
      simp

theorem prefix_of_mem_listened (h : query ∈ Listened (viewsOf path tree)) : path <+: query.path := by
  rcases h with ⟨_, ⟨complete, hmem, hpath, _⟩, _⟩ | ⟨_, hmem, _⟩
  · rw [← hpath]
    exact prefix_of_mem_viewsOf hmem
  · exact prefix_of_mem_viewsOf hmem

/-- The own listens of a node that is not complete are for its filtered views. -/
theorem mem_own_iff (hwf : WellFormedAt path (.node syncPoint children)) :
    query ∈ (((syncPoint.map FSyncPoint.queryViews).getD []).map FView.query).map queryForListening ↔
      query.path = path ∧ query.loadsAllData = false ∧ query ∈ viewsOf path (.node syncPoint children) := by
  cases syncPoint with
  | none =>
      refine iff_of_false (by simp) ?_
      rintro ⟨hpath, _, hmem⟩
      obtain ⟨_, hnone, _⟩ := (mem_viewsOf_root hpath).mp hmem
      cases hnone
  | some found =>
      have hfound := hwf.root rfl
      rw [Option.map_some, Option.getD_some, List.mem_map]
      constructor
      · rintro ⟨own, hmem, rfl⟩
        obtain ⟨hpath, hfilters, hexists⟩ := hfound.mem_queryViews.mp hmem
        rw [queryForListening_of_filtered hfilters]
        exact ⟨hpath, hfilters, (mem_viewsOf_root hpath).mpr ⟨found, rfl, hexists⟩⟩
      · rintro ⟨hpath, hfilters, hmem⟩
        obtain ⟨_, heq, hexists⟩ := (mem_viewsOf_root hpath).mp hmem
        cases heq
        exact ⟨query, hfound.mem_queryViews.mpr ⟨hpath, hfilters, hexists⟩, queryForListening_of_filtered hfilters⟩

/-- The distinct views of a tree are those that should be listened to. -/
theorem mem_listenedQueries (hsorted : tree.IsSorted) (hwf : WellFormedAt path tree) :
    query ∈ listenedQueries tree ↔ query ∈ Listened (viewsOf path tree) := by
  induction hsorted generalizing path with
  | intro syncPoint children hchildrenSorted _ ih =>
      have hcompleteIff := complete_viewsOf_iff hwf
      cases hview : syncPoint.bind FSyncPoint.completeView with
      | some view =>
          obtain ⟨found, rfl, hfound⟩ := Option.bind_eq_some_iff.mp hview
          obtain ⟨hpath, hloads⟩ := (hwf.root rfl).completeView_eq_some hfound
          rw [hview] at hcompleteIff
          have hcomplete := hcompleteIff.mpr rfl
          rw [listenedQueries_of_complete hview, queryForListening_of_complete hloads, hpath, List.mem_singleton]
          constructor
          · rintro rfl
            exact default_mem_listened hcomplete not_shadowed_viewsOf
          · intro hmem
            exact (eq_default_of_listened (covered_iff.mpr (Or.inl hcomplete))
              (prefix_of_mem_listened hmem) hmem).1
      | none =>
          rw [hview] at hcompleteIff
          have hnot : ¬Complete (viewsOf path (.node syncPoint children)) path := by simp [hcompleteIff]
          have hchild : ∀ e ∈ children, SortedDictionary.get e.1 children = some e.2 := fun e hmem =>
            hchildrenSorted.get_of_mem hmem
          rw [listenedQueries_of_notComplete hview, List.mem_append, mem_own_iff hwf, List.mem_flatMap]
          constructor
          · rintro (⟨rfl, hfilters, hmem⟩ | ⟨e, hmem, hlistened⟩)
            · refine Or.inr ⟨hfilters, hmem, fun hcovered => ?_⟩
              rcases covered_iff.mp hcovered with hcomplete | hshadowed
              · exact hnot hcomplete
              · exact not_shadowed_viewsOf hshadowed
            · rw [ih e hmem (hwf.child (hchild e hmem))] at hlistened
              exact (mem_listened_child hnot (prefix_of_mem_listened hlistened)).mpr
                ⟨e.2, hchild e hmem, hlistened⟩
          · intro hlistened
            obtain ⟨rest, hrest⟩ := prefix_of_mem_listened hlistened
            cases rest with
            | nil =>
                rw [List.append_nil] at hrest
                subst hrest
                rcases hlistened with ⟨_, hcomplete, _⟩ | ⟨hfilters, hmem, _⟩
                · exact absurd hcomplete hnot
                · exact Or.inl ⟨rfl, hfilters, hmem⟩
            | cons key rest =>
                have hle : path ++ [key] <+: query.path := ⟨rest, by simp [← hrest]⟩
                obtain ⟨childTree, hget, hmem⟩ := (mem_listened_child hnot hle).mp hlistened
                have hentry := SortedDictionary.mem_of_get hget
                exact Or.inr ⟨(key, childTree), hentry, (ih _ hentry (hwf.child hget)).mpr hmem⟩

theorem nodup_listenedQueries (hsorted : tree.IsSorted) (hwf : WellFormedAt path tree) :
    (listenedQueries tree).Nodup := by
  induction hsorted generalizing path with
  | intro syncPoint children hchildrenSorted hsortedChildren ih =>
      cases hview : syncPoint.bind FSyncPoint.completeView with
      | some view =>
          rw [listenedQueries_of_complete hview]
          exact List.nodup_singleton _
      | none =>
          have hwfChild : ∀ e ∈ children, WellFormedAt (path ++ [e.1]) e.2 := fun e hmem =>
            hwf.child (hchildrenSorted.get_of_mem hmem)
          have hbelow : ∀ e ∈ children, ∀ query ∈ listenedQueries e.2, path ++ [e.1] <+: query.path :=
            fun e hmem query hquery => prefix_of_mem_listened
              ((mem_listenedQueries (hsortedChildren e hmem) (hwfChild e hmem)).mp hquery)
          rw [listenedQueries_of_notComplete hview, List.nodup_append]
          refine ⟨?_, ?_, ?_⟩
          · cases syncPoint with
            | none => exact List.nodup_nil
            | some found =>
                have hfound := hwf.root rfl
                have hown : ((found.queryViews.map FView.query).map queryForListening) =
                    found.queryViews.map FView.query := by
                  refine (List.map_congr_left fun query hmem => ?_).trans (List.map_id _)
                  exact queryForListening_of_filtered (hfound.mem_queryViews.mp hmem).2.1
                rw [Option.map_some, Option.getD_some, hown]
                exact hfound.nodup_queryViews
          · refine List.nodup_flatMap.mpr ⟨fun e hmem => ih e hmem (hwfChild e hmem), ?_⟩
            refine List.Pairwise.imp_of_mem ?_ hchildrenSorted
            intro e e' hmem hmem' hlt query hquery hquery'
            have heq := List.prefix_of_prefix_length_le (hbelow e hmem query hquery)
              (hbelow e' hmem' query hquery') (by simp)
            rw [List.prefix_append_right_inj] at heq
            simp only [List.cons_prefix_cons, List.nil_prefix, and_true] at heq
            exact absurd hlt (by rw [heq]; exact lt_irrefl _)
          · intro query hown other hother heq
            obtain ⟨e, hmem, hlistened⟩ := List.mem_flatMap.mp hother
            have hlength := (hbelow e hmem other hlistened).length_le
            rw [← heq, ((mem_own_iff hwf).mp hown).1] at hlength
            simp at hlength

end Listened

end Distinct

end FirebaseSwift.Database
