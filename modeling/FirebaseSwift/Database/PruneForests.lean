import FirebaseSwift.Database.Pruning

/-! What a pruning selects. A forest that was made by pruning first and keeping then prunes a path if the path
is at or below one that was pruned and not at or below one that was kept. The rows of the storage are removed
where the forest prunes their path. -/

namespace FirebaseSwift.Database

open SortedDictionary FImmutableTree

variable {K V : Type} [DatabaseKey K]

namespace FPruneForest

variable {forest forest' : FPruneForest K} {path : FPath K}

def shouldPruneUnkeptDescendants (self : FPruneForest K) (path : FPath K) : Bool :=
  (leafMostValue path self.pruneForest).getD false

/-- The path or one above is pruned. -/
def Prunes (forest : FPruneForest K) (path : FPath K) : Prop :=
  ∃ above, above <+: path ∧ forest.pruneForest.valueAt above = some true

/-- Where nothing is pruned below what is kept, what is kept is kept. -/
theorem NeverBelow.shouldPrune_iff (h : forest.NeverBelow) (path : FPath K) :
    forest.shouldPruneUnkeptDescendants path = true ↔ forest.Prunes path ∧ ¬forest.Keeps path := by
  unfold shouldPruneUnkeptDescendants
  cases hleaf : leafMostValue path forest.pruneForest with
  | none =>
      refine iff_of_false nofun ?_
      rintro ⟨⟨above, hle, hvalue⟩, -⟩
      rw [leafMostValue_eq_none.mp hleaf above hle] at hvalue
      cases hvalue
  | some value =>
      obtain ⟨lowest, hle, hvalue, hbelow⟩ := leafMostValue_eq_some.mp hleaf
      cases value with
      | true =>
          refine iff_of_true rfl ⟨⟨lowest, hle, hvalue⟩, ?_⟩
          rintro ⟨above, habove, hkept⟩
          exact h above lowest (hbelow above false habove hkept) hkept hvalue
      | false => exact iff_of_false nofun fun hprunes => hprunes.2 ⟨lowest, hle, hvalue⟩

/-- A forest of sorted trees that prunes anything prunes some path. -/
theorem exists_shouldPrune (hsorted : forest.pruneForest.IsSorted) (h : forest.prunesAnything = true) :
    ∃ path, forest.shouldPruneUnkeptDescendants path = true := by
  obtain ⟨⟨path, value⟩, hmem, hvalue⟩ := List.any_eq_true.mp h
  dsimp only at hvalue
  refine ⟨path, ?_⟩
  rw [shouldPruneUnkeptDescendants, leafMostValue_of_valueAt (hsorted.mem_forEach.mp hmem), hvalue]
  rfl

theorem isSorted_prunePath (hsorted : forest.pruneForest.IsSorted) (h : forest.prunePath path = some forest') :
    forest'.pruneForest.IsSorted := by
  unfold FPruneForest.prunePath at h
  split_ifs at h
  · cases h
    exact hsorted
  · cases h
    exact hsorted.setTree (IsSorted.ofValue _) path

theorem isSorted_keepPath (hsorted : forest.pruneForest.IsSorted) (path : FPath K) :
    (forest.keepPath path).pruneForest.IsSorted := by
  unfold FPruneForest.keepPath
  split_ifs
  · exact hsorted
  · exact hsorted.setTree (IsSorted.ofValue _) path

/-! ### Pruned and kept paths -/

theorem findRootMost_isSome_iff {predicate : Bool → Bool} {tree : FImmutableTree K Bool} :
    (tree.findRootMost predicate path).isSome = true ↔
      ∃ above value, above <+: path ∧ tree.valueAt above = some value ∧ predicate value = true := by
  rw [Option.isSome_iff_ne_none, Ne, findRootMost_eq_none]
  push Not
  constructor
  · rintro ⟨above, hle, hfound⟩
    obtain ⟨value, hvalue⟩ := Option.ne_none_iff_exists'.mp hfound
    obtain ⟨hvalue, hpredicate⟩ := Option.filter_eq_some_iff.mp hvalue
    exact ⟨above, value, hle, hvalue, hpredicate⟩
  · rintro ⟨above, value, hle, hvalue, hpredicate⟩
    refine ⟨above, hle, Option.ne_none_iff_exists'.mpr ⟨value, ?_⟩⟩
    exact Option.filter_eq_some_iff.mpr ⟨hvalue, hpredicate⟩

theorem valueAt_setTree_ofValue (tree : FImmutableTree K Bool) (value : Bool) (path other : FPath K) :
    valueAt other (setTree (ofValue (some value)) path tree) =
      if other = path then some value else if path <+: other then none else valueAt other tree := by
  rw [valueAt_setTree, valueAt_ofValue]
  by_cases hother : other = path
  · rw [if_pos hother, hother, if_pos List.prefix_rfl, List.drop_length, if_pos rfl]
  · rw [if_neg hother]
    by_cases hbelow : path <+: other
    · rw [if_pos hbelow, if_pos hbelow, if_neg]
      obtain ⟨rest, rfl⟩ := hbelow
      rw [List.drop_left]
      rintro rfl
      exact hother (List.append_nil path)
    · rw [if_neg hbelow, if_neg hbelow]

/-- A path is pruned where nothing is kept yet. -/
theorem OnlyPrunes.exists_prunePath (h : forest.OnlyPrunes) (path : FPath K) :
    ∃ forest', forest.prunePath path = some forest' ∧ forest'.OnlyPrunes ∧
      ∀ other, forest'.Prunes other ↔ forest.Prunes other ∨ path <+: other := by
  have hkept : ¬(forest.pruneForest.findRootMost (fun value => !value) path).isSome = true := by
    rw [findRootMost_isSome_iff]
    rintro ⟨above, value, _, hvalue, hnot⟩
    cases value with
    | false => exact h above hvalue
    | true => cases hnot
  have hsome : ∃ forest', forest.prunePath path = some forest' := by
    unfold FPruneForest.prunePath
    rw [if_neg hkept]
    split_ifs
    · exact ⟨_, rfl⟩
    · exact ⟨_, rfl⟩
  obtain ⟨forest', hprune⟩ := hsome
  refine ⟨forest', hprune, h.prunePath hprune, fun other => ?_⟩
  unfold FPruneForest.prunePath at hprune
  rw [if_neg hkept] at hprune
  split_ifs at hprune with hpruned
  · cases hprune
    rw [or_iff_left_of_imp]
    intro hle
    obtain ⟨above, value, habove, hvalue, hid⟩ := findRootMost_isSome_iff.mp hpruned
    cases value with
    | false => cases hid
    | true => exact ⟨above, habove.trans hle, hvalue⟩
  · cases hprune
    constructor
    · rintro ⟨above, hle, hvalue⟩
      rw [kPruneTree, valueAt_setTree_ofValue] at hvalue
      split_ifs at hvalue with hpath hbelow
      · exact Or.inr (hpath ▸ hle)
      · exact Or.inl ⟨above, hle, hvalue⟩
    · intro hother
      by_cases hbelow : path <+: other
      · refine ⟨path, hbelow, ?_⟩
        rw [kPruneTree, valueAt_setTree_ofValue, if_pos rfl]
      · obtain ⟨above, hle, hvalue⟩ := hother.resolve_right hbelow
        have hbeside : ¬path <+: above := fun habove => hbelow (habove.trans hle)
        refine ⟨above, hle, ?_⟩
        rw [kPruneTree, valueAt_setTree_ofValue, if_neg fun heq : above = path => hbeside (heq ▸ List.prefix_rfl),
          if_neg hbeside]
        exact hvalue

theorem keeps_keepPath_iff (forest : FPruneForest K) (path other : FPath K) :
    (forest.keepPath path).Keeps other ↔ forest.Keeps other ∨ path <+: other := by
  constructor
  · rintro ⟨above, hle, hvalue⟩
    rw [FPruneForest.keepPath] at hvalue
    split_ifs at hvalue
    · exact Or.inl ⟨above, hle, hvalue⟩
    · rw [kKeepTree, valueAt_setTree_ofValue] at hvalue
      split_ifs at hvalue with hpath hbelow
      · exact Or.inr (hpath ▸ hle)
      · exact Or.inl ⟨above, hle, hvalue⟩
  · rintro (hkeeps | hle)
    · exact hkeeps.keepPath path
    · obtain ⟨above, habove, hvalue⟩ := forest.keeps_keepPath path
      exact ⟨above, habove.trans hle, hvalue⟩

/-- Beside what is kept, keeping a path changes nothing. -/
theorem prunes_keepPath_iff {other : FPath K} (h : ¬path <+: other) :
    (forest.keepPath path).Prunes other ↔ forest.Prunes other := by
  rw [FPruneForest.keepPath]
  split_ifs
  · exact Iff.rfl
  · refine exists_congr fun above => and_congr_right fun hle => ?_
    have hbeside : ¬path <+: above := fun habove => h (habove.trans hle)
    rw [kKeepTree, valueAt_setTree_ofValue, if_neg fun heq : above = path => hbeside (heq ▸ List.prefix_rfl),
      if_neg hbeside]

section Lists

variable {α : Type} (pathOf : α → FPath K)

/-- Nothing stops the pruning of a list of paths. -/
theorem OnlyPrunes.exists_foldlM_prunePath (h : forest.OnlyPrunes) (pruned : List α) :
    ∃ forest', pruned.foldlM (fun forest query => forest.prunePath (pathOf query)) forest = some forest' ∧
      forest'.OnlyPrunes ∧
        ∀ other, forest'.Prunes other ↔ forest.Prunes other ∨ ∃ query ∈ pruned, pathOf query <+: other := by
  induction pruned generalizing forest with
  | nil =>
      refine ⟨forest, rfl, h, fun other => ?_⟩
      rw [or_iff_left]
      rintro ⟨query, hmem, -⟩
      cases hmem
  | cons first rest ih =>
      obtain ⟨next, hfirst, hnext, hprunes⟩ := h.exists_prunePath (pathOf first)
      obtain ⟨last, hrest, hlast, hprunesRest⟩ := ih hnext
      refine ⟨last, ?_, hlast, fun other => ?_⟩
      · rw [List.foldlM_cons, hfirst]
        exact hrest
      · rw [hprunesRest, hprunes, List.exists_mem_cons_iff, or_assoc]

theorem keeps_foldl_keepPath_iff (forest : FPruneForest K) (kept : List α) (other : FPath K) :
    (kept.foldl (fun forest query => forest.keepPath (pathOf query)) forest).Keeps other ↔
      forest.Keeps other ∨ ∃ query ∈ kept, pathOf query <+: other := by
  induction kept generalizing forest with
  | nil =>
      rw [List.foldl_nil, or_iff_left]
      rintro ⟨query, hmem, -⟩
      cases hmem
  | cons first rest ih => rw [List.foldl_cons, ih, keeps_keepPath_iff, List.exists_mem_cons_iff, or_assoc]

theorem prunes_foldl_keepPath_iff {kept : List α} {other : FPath K}
    (h : ¬∃ query ∈ kept, pathOf query <+: other) (forest : FPruneForest K) :
    (kept.foldl (fun forest query => forest.keepPath (pathOf query)) forest).Prunes other ↔
      forest.Prunes other := by
  induction kept generalizing forest with
  | nil => exact Iff.rfl
  | cons first rest ih =>
      rw [List.exists_mem_cons_iff, not_or] at h
      rw [List.foldl_cons, ih h.2, prunes_keepPath_iff h.1]

/-- The forest of a pruning prunes what is below a pruned path and not below a kept one. -/
theorem shouldPrune_foldl_iff (pruned kept : List α) :
    ∃ forest, pruned.foldlM (fun (forest : FPruneForest K) query => forest.prunePath (pathOf query))
        FPruneForest.empty = some forest ∧
      ∀ path, (kept.foldl (fun forest query => forest.keepPath (pathOf query))
          forest).shouldPruneUnkeptDescendants path = true ↔
        (∃ query ∈ pruned, pathOf query <+: path) ∧ ¬∃ query ∈ kept, pathOf query <+: path := by
  have hempty : (FPruneForest.empty : FPruneForest K).OnlyPrunes := by
    intro path
    rw [FPruneForest.empty, valueAt_empty]
    exact (Option.some_ne_none _).symm
  obtain ⟨forest, hforest, honly, hprunes⟩ := hempty.exists_foldlM_prunePath pathOf pruned
  refine ⟨forest, hforest, fun path => ?_⟩
  have hkeeps : ¬forest.Keeps path := by
    rintro ⟨above, _, hvalue⟩
    exact honly above hvalue
  have hnone : ¬(FPruneForest.empty : FPruneForest K).Prunes path := by
    rintro ⟨above, _, hvalue⟩
    rw [FPruneForest.empty, valueAt_empty] at hvalue
    cases hvalue
  rw [(honly.neverBelow.foldl_keepPath pathOf kept).shouldPrune_iff, keeps_foldl_keepPath_iff, or_iff_right hkeeps]
  refine and_congr_left fun hkept => ?_
  rw [prunes_foldl_keepPath_iff pathOf hkept, hprunes, or_iff_right hnone]

theorem isSorted_foldlM_prunePath (hsorted : forest.pruneForest.IsSorted) {pruned : List α}
    (h : pruned.foldlM (fun forest query => forest.prunePath (pathOf query)) forest = some forest') :
    forest'.pruneForest.IsSorted := by
  induction pruned generalizing forest with
  | nil =>
      cases h
      exact hsorted
  | cons first rest ih =>
      rw [List.foldlM_cons] at h
      obtain ⟨next, hfirst, hrest⟩ := Option.bind_eq_some_iff.mp h
      exact ih (isSorted_prunePath hsorted hfirst) hrest

theorem isSorted_foldl_keepPath (hsorted : forest.pruneForest.IsSorted) (kept : List α) :
    (kept.foldl (fun forest query => forest.keepPath (pathOf query)) forest).pruneForest.IsSorted := by
  induction kept generalizing forest with
  | nil => exact hsorted
  | cons first rest ih => exact ih (isSorted_keepPath hsorted (pathOf first))

end Lists

end FPruneForest

/-! ### Rows -/

namespace FLevelDBStorageEngine

/-- The rows of the server cache by their paths. Those below the path are looked at. -/
def pruneCache {α : Type} (rows : List (FPath K × α)) (pruneForest : FPruneForest K) (path : FPath K) :
    List (FPath K × α) :=
  rows.filter fun row =>
    !(path.isPrefixOf row.1 && pruneForest.shouldPruneUnkeptDescendants (row.1.drop path.length))

end FLevelDBStorageEngine

end FirebaseSwift.Database
