import FirebaseSwift.Database.NodeLeaves
import FirebaseSwift.Database.RootedWrites

/-! What compound writes mean. A compound write stands for the writes that were added to it, made one
after the other. Without priorities it does, but for one thing: where a child is written below a leaf
and emptied again, the writes in turn lose the leaf, and the compound write, which keeps only the last
of them, does not. -/

namespace FirebaseSwift.Database

open SortedDictionary

variable {K V : Type} [DatabaseKey K]

/-! ### Writes in turn -/

namespace FNode

/-- The node after the writes, one after the other. -/
def updateInTurn (node : FNode K V) (writes : List (FPath K × FNode K V)) : FNode K V :=
  writes.foldl (fun node write => node.updateChild write.1 write.2) node

@[simp] theorem updateInTurn_nil (node : FNode K V) : node.updateInTurn [] = node := rfl

@[simp] theorem updateInTurn_cons (node : FNode K V) (write : FPath K × FNode K V)
    (writes : List (FPath K × FNode K V)) :
    node.updateInTurn (write :: writes) = (node.updateChild write.1 write.2).updateInTurn writes := rfl

theorem updateInTurn_append (node : FNode K V) (writes writes' : List (FPath K × FNode K V)) :
    node.updateInTurn (writes ++ writes') = (node.updateInTurn writes).updateInTurn writes' :=
  List.foldl_append

end FNode

/-- Neither the path nor the node has a priority. -/
def WritesNoPriority (write : FPath K × FNode K V) : Prop :=
  DatabaseKey.priority ∉ write.1 ∧ write.2.PriorityFree

/-- A write is made at the path or above. -/
def Covers (writes : List (FPath K × FNode K V)) (path : FPath K) : Prop :=
  ∃ write ∈ writes, write.1 <+: path

/-- Something is written at the path or below. -/
def Fills (writes : List (FPath K × FNode K V)) (path : FPath K) : Prop :=
  ∃ write ∈ writes, path <+: write.1 ∧ write.2.isEmpty = false

namespace FNode

variable {writes : List (FPath K × FNode K V)} {node : FNode K V} {path : FPath K}

theorem PriorityFree.updateInTurn (h : node.PriorityFree)
    (hwrites : ∀ write ∈ writes, WritesNoPriority write) : (node.updateInTurn writes).PriorityFree := by
  induction writes generalizing node with
  | nil => exact h
  | cons write rest ih =>
      rw [List.forall_mem_cons] at hwrites
      exact ih (h.updateChild hwrites.1.2 hwrites.1.1) hwrites.2

theorem leafAt_updateInTurn_of_not_covers (hwrites : ∀ write ∈ writes, WritesNoPriority write)
    (hpath : DatabaseKey.priority ∉ path) (hcovers : ¬Covers writes path) (node : FNode K V) :
    (Fills writes path → (node.updateInTurn writes).leafAt path = none) ∧
      (¬Fills writes path → (node.updateInTurn writes).leafAt path = node.leafAt path) := by
  induction writes generalizing node with
  | nil => exact ⟨fun ⟨_, hmem, _⟩ => (List.not_mem_nil hmem).elim, fun _ => rfl⟩
  | cons write rest ih =>
      rw [List.forall_mem_cons] at hwrites
      have hhead : ¬write.1 <+: path := fun hle => hcovers ⟨write, List.mem_cons_self, hle⟩
      have hrest : ¬Covers rest path := fun ⟨w, hmem, hle⟩ =>
        hcovers ⟨w, List.mem_cons_of_mem _ hmem, hle⟩
      obtain ⟨hfills, hnotFills⟩ := ih hwrites.2 hrest (node.updateChild write.1 write.2)
      have hupdate := leafAt_updateChild hwrites.1.1 hpath node write.2
      rw [if_neg hhead] at hupdate
      rw [updateInTurn_cons]
      constructor
      · rintro ⟨w, hmem, hbelow, hfull⟩
        by_cases hfillsRest : Fills rest path
        · exact hfills hfillsRest
        · rcases List.mem_cons.mp hmem with rfl | hmem
          · rw [hnotFills hfillsRest, hupdate, if_pos ⟨hbelow, hfull⟩]
          · exact absurd ⟨w, hmem, hbelow, hfull⟩ hfillsRest
      · intro hnot
        rw [hnotFills fun ⟨w, hmem, h⟩ => hnot ⟨w, List.mem_cons_of_mem _ hmem, h⟩, hupdate,
          if_neg fun h => hnot ⟨write, List.mem_cons_self, h⟩]

/-- At a path with a write at it or above the node from before plays no role. -/
theorem leafAt_updateInTurn_of_covers (hwrites : ∀ write ∈ writes, WritesNoPriority write)
    (hpath : DatabaseKey.priority ∉ path) (hcovers : Covers writes path) (node node' : FNode K V) :
    (node.updateInTurn writes).leafAt path = (node'.updateInTurn writes).leafAt path := by
  induction writes generalizing node node' with
  | nil =>
      obtain ⟨_, hmem, _⟩ := hcovers
      cases hmem
  | cons write rest ih =>
      rw [List.forall_mem_cons] at hwrites
      rw [updateInTurn_cons, updateInTurn_cons]
      by_cases hrest : Covers rest path
      · exact ih hwrites.2 hrest _ _
      · have hhead : write.1 <+: path := by
          obtain ⟨w, hmem, hle⟩ := hcovers
          rcases List.mem_cons.mp hmem with rfl | hmem
          · exact hle
          · exact absurd ⟨w, hmem, hle⟩ hrest
        by_cases hfills : Fills rest path
        · rw [(leafAt_updateInTurn_of_not_covers hwrites.2 hpath hrest _).1 hfills,
            (leafAt_updateInTurn_of_not_covers hwrites.2 hpath hrest _).1 hfills]
        · rw [(leafAt_updateInTurn_of_not_covers hwrites.2 hpath hrest _).2 hfills,
            (leafAt_updateInTurn_of_not_covers hwrites.2 hpath hrest _).2 hfills,
            leafAt_updateChild hwrites.1.1 hpath, leafAt_updateChild hwrites.1.1 hpath, if_pos hhead,
            if_pos hhead]

end FNode

/-! ### Compound writes in turn -/

namespace FImmutableTree

theorem IsWriteTree.applySubtreeWrite_eq {tree : FImmutableTree K (FNode K V)} (htree : IsWriteTree tree)
    (hfree : ∀ path v, tree.valueAt path = some v → DatabaseKey.priority ∉ path) (pathSoFar : FPath K)
    (node : FNode K V) : FCompoundWrite.applySubtreeWrite pathSoFar node tree =
      node.updateInTurn (tree.forEachPathSoFar pathSoFar) := by
  induction htree generalizing pathSoFar node with
  | intro value children hsorted hchildren hne hvalue ih =>
      cases value with
      | some v =>
          rw [hvalue (by simp)]
          rfl
      | none =>
          have hkey : ∀ e ∈ children, e.1 ≠ DatabaseKey.priority := by
            intro e he heq
            obtain ⟨path, v, hv⟩ := (hchildren e he).exists_valueAt (hne e he)
            refine hfree (e.1 :: path) v ?_ (heq ▸ List.mem_cons_self)
            rw [valueAt_cons, children_node, hsorted.get_of_mem he]
            exact hv
          have hpriority : get DatabaseKey.priority children = none :=
            get_eq_none_iff.mpr hkey
          have hloop : ∀ (list : List (K × FImmutableTree K (FNode K V))) (node : FNode K V),
              (∀ e ∈ list, e ∈ children) →
              FCompoundWrite.applyChildWrites pathSoFar node list =
                node.updateInTurn (forEachPathOfChildren pathSoFar list) := by
            intro list
            induction list with
            | nil => exact fun _ _ => rfl
            | cons e rest ihlist =>
                intro node hmem
                rw [List.forall_mem_cons] at hmem
                obtain ⟨childKey, childTree⟩ := e
                rw [FCompoundWrite.applyChildWrites, if_neg (hkey _ hmem.1), ihlist _ hmem.2,
                  forEachPathOfChildren, FNode.updateInTurn_append]
                congr 1
                refine ih _ hmem.1 (fun path v hv hpath => ?_) _ node
                refine hfree (childKey :: path) v ?_ (List.mem_cons_of_mem _ hpath)
                rw [valueAt_cons, children_node, hsorted.get_of_mem hmem.1]
                exact hv
          rw [FCompoundWrite.applySubtreeWrite, hpriority]
          simp only [Option.bind_none, forEachPathSoFar, Option.toList_none, List.map_nil, List.append_nil]
          exact hloop children node fun _ he => he

end FImmutableTree

namespace FCompoundWrite

/-- Neither the paths nor the nodes of the writes have priorities. -/
def PriorityFree (self : FCompoundWrite K V) : Prop :=
  ∀ write ∈ self.enumerateWrites, WritesNoPriority write

theorem applyToNode_eq {self : FCompoundWrite K V} (h : self.PriorityFree) (node : FNode K V) :
    self.applyToNode node = node.updateInTurn self.enumerateWrites :=
  self.isWriteTree.applySubtreeWrite_eq
    (fun _ _ hv => (h _ (mem_enumerateWrites.mpr hv)).1) [] node

variable {self : FCompoundWrite K V} {path found other : FPath K} {v : FNode K V}

theorem PriorityFree.of_valueAt (h : self.PriorityFree) (hv : self.valueAt path = some v) :
    DatabaseKey.priority ∉ path ∧ v.PriorityFree :=
  h _ (mem_enumerateWrites.mpr hv)

theorem priorityFree_emptyWrite : (emptyWrite : FCompoundWrite K V).PriorityFree := by
  rintro ⟨path, v⟩ hwrite
  rw [mem_enumerateWrites, valueAt_emptyWrite] at hwrite
  cases hwrite

theorem covers_enumerateWrites :
    Covers self.enumerateWrites path ↔ ∃ found v, found <+: path ∧ self.valueAt found = some v := by
  constructor
  · rintro ⟨⟨found, v⟩, hmem, hpre⟩
    exact ⟨found, v, hpre, mem_enumerateWrites.mp hmem⟩
  · rintro ⟨found, v, hpre, hv⟩
    exact ⟨(found, v), mem_enumerateWrites.mpr hv, hpre⟩

theorem fills_enumerateWrites : Fills self.enumerateWrites path ↔
      ∃ found v, path <+: found ∧ v.isEmpty = false ∧ self.valueAt found = some v := by
  constructor
  · rintro ⟨⟨found, v⟩, hmem, hpre, hfull⟩
    exact ⟨found, v, hpre, hfull, mem_enumerateWrites.mp hmem⟩
  · rintro ⟨found, v, hpre, hfull, hv⟩
    exact ⟨(found, v), mem_enumerateWrites.mpr hv, hpre, hfull⟩

/-! ### The leaves of the writes -/

/-- At a path with a write at it or above, the leaves are those of the node written there. -/
theorem leafAt_applyToNode_of_covered (h : self.PriorityFree) (hpath : DatabaseKey.priority ∉ path)
    (hpre : found <+: path) (hv : self.valueAt found = some v) (node : FNode K V) :
    (self.applyToNode node).leafAt path = v.leafAt (FPath.relativePath found path) := by
  have hcovers : Covers self.enumerateWrites path := covers_enumerateWrites.mpr ⟨found, v, hpre, hv⟩
  obtain ⟨before, after, hsplit⟩ := List.append_of_mem (mem_enumerateWrites.mpr hv)
  have hpairwise := self.pairwise_enumerateWrites
  rw [applyToNode_eq h]
  rw [PriorityFree] at h
  rw [hsplit] at h hpairwise ⊢
  rw [List.forall_mem_append, List.forall_mem_cons] at h
  have hafter := (List.pairwise_cons.mp (List.pairwise_append.mp hpairwise).2.1).1
  rw [FNode.updateInTurn_append, FNode.updateInTurn_cons]
  -- no later write is made at the path, above it or below it
  have hbeside : ∀ write ∈ after, ¬write.1 <+: path ∧ ¬path <+: write.1 := by
    intro write hwrite
    refine ⟨fun hle => ?_, fun hle => (hafter write hwrite).1 (hpre.trans hle)⟩
    exact (List.prefix_or_prefix_of_prefix hpre hle).elim (hafter write hwrite).1 (hafter write hwrite).2
  rw [(FNode.leafAt_updateInTurn_of_not_covers h.2.2 hpath
      (fun ⟨write, hwrite, hle⟩ => (hbeside write hwrite).1 hle) _).2
      fun ⟨write, hwrite, hle, _⟩ => (hbeside write hwrite).2 hle,
    FNode.leafAt_updateChild h.2.1.1 hpath, if_pos hpre]

theorem leafAt_applyToNode_empty_of_free (h : self.PriorityFree) (hpath : DatabaseKey.priority ∉ path)
    (hfree : ∀ above, above <+: path → self.valueAt above = none) :
    (self.applyToNode .empty).leafAt path = none := by
  have hcovers : ¬Covers self.enumerateWrites path := by
    rw [covers_enumerateWrites]
    rintro ⟨found, v, hpre, hv⟩
    rw [hfree found hpre] at hv
    cases hv
  rw [applyToNode_eq h]
  by_cases hfills : Fills self.enumerateWrites path
  · exact (FNode.leafAt_updateInTurn_of_not_covers h hpath hcovers _).1 hfills
  · rw [(FNode.leafAt_updateInTurn_of_not_covers h hpath hcovers _).2 hfills, FNode.leafAt_empty]

theorem leafAt_applyToNode_empty (h : self.PriorityFree) (hpath : DatabaseKey.priority ∉ path) :
    (self.applyToNode .empty).leafAt path = (self.completeNodeAtPath path).bind FNode.leafValue := by
  rcases self.covered_or_free path with ⟨found, v, hpre, hv⟩ | hfree
  · rw [leafAt_applyToNode_of_covered h hpath hpre hv, completeNodeAtPath_of_covered hpre hv]
    rfl
  · rw [leafAt_applyToNode_empty_of_free h hpath hfree, completeNodeAtPath_of_free hfree]
    rfl

/-- Without a write at the path or above, something is written at it or below exactly if something is
left there of the writes alone. -/
theorem fills_iff_of_free (h : self.PriorityFree) (hpath : DatabaseKey.priority ∉ path)
    (hfree : ∀ above, above <+: path → self.valueAt above = none) :
    Fills self.enumerateWrites path ↔ ((self.applyToNode .empty).getChild path).isEmpty = false := by
  rw [fills_enumerateWrites, FNode.isEmpty_eq_false_iff]
  constructor
  · rintro ⟨found, v, ⟨rest, rfl⟩, hfull, hv⟩ hempty
    have hfound := h.of_valueAt hv
    obtain ⟨below, value, hbelow, hvalue⟩ := FNode.exists_leafAt (FNode.isEmpty_eq_false_iff.mp hfull)
    have hall : DatabaseKey.priority ∉ path ++ rest ++ below :=
      fun hmem => (List.mem_append.mp hmem).elim hfound.1 hbelow
    have hleaf := leafAt_applyToNode_of_covered h hall (List.prefix_append _ below) hv .empty
    rw [FPath.relativePath_append, hvalue, List.append_assoc, FNode.leafAt_append hpath, hempty,
      FNode.leafAt_empty] at hleaf
    cases hleaf
  · intro hfull
    obtain ⟨below, value, hbelow, hvalue⟩ := FNode.exists_leafAt hfull
    have hall : DatabaseKey.priority ∉ path ++ below :=
      fun hmem => (List.mem_append.mp hmem).elim hpath hbelow
    rw [← FNode.leafAt_append hpath] at hvalue
    rcases self.covered_or_free (path ++ below) with ⟨found, v, hpre, hv⟩ | hnone
    · refine ⟨found, v, ?_, ?_, hv⟩
      · -- a write above the path would cover it
        rcases List.prefix_or_prefix_of_prefix (List.prefix_append path below) hpre with hle | hle
        · exact hle
        · rw [hfree found hle] at hv
          cases hv
      · rw [leafAt_applyToNode_of_covered h hall hpre hv] at hvalue
        rw [FNode.isEmpty_eq_false_iff]
        rintro rfl
        rw [FNode.leafAt_empty] at hvalue
        cases hvalue
    · rw [leafAt_applyToNode_empty_of_free h hall hnone] at hvalue
      cases hvalue

/-! ### Adding a write -/

theorem PriorityFree.addWrite (h : self.PriorityFree) (hpath : DatabaseKey.priority ∉ path)
    (hv : v.PriorityFree) : (self.addWrite v path).PriorityFree := by
  rintro ⟨other, w⟩ hwrite
  rw [mem_enumerateWrites] at hwrite
  rcases self.covered_or_free path with ⟨found, u, hpre, hu⟩ | hfree
  · rw [valueAt_addWrite_covered v hpre hu] at hwrite
    split_ifs at hwrite with hother
    · obtain ⟨rest, rfl⟩ := hpre
      obtain ⟨hfound, hunode⟩ := h.of_valueAt hu
      rw [FPath.relativePath_append, Option.some.injEq] at hwrite
      rw [← hwrite, hother]
      exact ⟨hfound, hunode.updateChild hv fun hmem => hpath (List.mem_append_right _ hmem)⟩
    · exact h.of_valueAt hwrite
  · rw [valueAt_addWrite_free v hfree] at hwrite
    split_ifs at hwrite with hbelow hother
    · rw [← Option.some.inj hwrite, hother]
      exact ⟨hpath, hv⟩
    · exact h.of_valueAt hwrite

theorem covers_addWrite : Covers (self.addWrite v path).enumerateWrites other ↔
      Covers self.enumerateWrites other ∨ path <+: other := by
  simp only [covers_enumerateWrites]
  rcases self.covered_or_free path with ⟨found, u, hpre, hu⟩ | hfree
  · simp only [valueAt_addWrite_covered v hpre hu]
    constructor
    · rintro ⟨above, w, hle, hw⟩
      left
      split_ifs at hw with heq
      · exact ⟨found, u, heq ▸ hle, hu⟩
      · exact ⟨above, w, hle, hw⟩
    · rintro (⟨above, w, hle, hw⟩ | hle)
      · by_cases heq : above = found
        · exact ⟨above, _, hle, if_pos heq⟩
        · exact ⟨above, w, hle, by rw [if_neg heq, hw]⟩
      · exact ⟨found, _, hpre.trans hle, if_pos rfl⟩
  · simp only [valueAt_addWrite_free v hfree]
    constructor
    · rintro ⟨above, w, hle, hw⟩
      split_ifs at hw with hbelow heq
      · exact Or.inr (hbelow.trans hle)
      · exact Or.inl ⟨above, w, hle, hw⟩
    · rintro (⟨above, w, hle, hw⟩ | hle)
      · by_cases hbelow : path <+: above
        · exact ⟨path, v, hbelow.trans hle, by simp⟩
        · exact ⟨above, w, hle, by rw [if_neg hbelow, hw]⟩
      · exact ⟨path, v, hle, by simp⟩

theorem completeNodeAtPath_congr {self' : FCompoundWrite K V}
    (hvalues : ∀ above, above <+: path → self.valueAt above = self'.valueAt above) :
    self.completeNodeAtPath path = self'.completeNodeAtPath path := by
  rcases self.covered_or_free path with ⟨found, v, hpre, hv⟩ | hfree
  · rw [completeNodeAtPath_of_covered hpre hv,
      completeNodeAtPath_of_covered hpre ((hvalues found hpre).symm.trans hv)]
  · rw [completeNodeAtPath_of_free hfree, completeNodeAtPath_of_free]
    intro above hpre
    rw [← hvalues above hpre, hfree above hpre]

theorem completeNodeAtPath_addWrite_of_covered (hpre : found <+: path) (hv : self.valueAt found = some v)
    (newNode : FNode K V) (other : FPath K) : (self.addWrite newNode path).completeNodeAtPath other =
      if found <+: other then
        some ((v.updateChild (FPath.relativePath found path) newNode).getChild
          (FPath.relativePath found other))
      else self.completeNodeAtPath other := by
  have hvalues := valueAt_addWrite_covered newNode hpre hv
  split_ifs with hother
  · exact completeNodeAtPath_of_covered hother ((hvalues found).trans (if_pos rfl))
  · refine completeNodeAtPath_congr fun above habove => ?_
    rw [hvalues, if_neg]
    rintro rfl
    exact hother habove

theorem completeNodeAtPath_addWrite_of_free (hfree : ∀ above, above <+: path → self.valueAt above = none)
    (newNode : FNode K V) (other : FPath K) : (self.addWrite newNode path).completeNodeAtPath other =
      if path <+: other then some (newNode.getChild (FPath.relativePath path other))
      else self.completeNodeAtPath other := by
  have hvalues := valueAt_addWrite_free newNode hfree
  split_ifs with hother
  · refine completeNodeAtPath_of_covered hother ?_
    rw [hvalues, if_pos (List.prefix_refl path), if_pos rfl]
  · refine completeNodeAtPath_congr fun above habove => ?_
    rw [hvalues, if_neg fun hle => hother (hle.trans habove)]

/-- On the empty node, the compound write with one more write does what the compound write and then the
write do. -/
theorem applyToNode_empty_addWrite (h : self.PriorityFree) (hpath : DatabaseKey.priority ∉ path)
    (hv : v.PriorityFree) :
    (self.addWrite v path).applyToNode .empty = (self.applyToNode .empty).updateChild path v := by
  have hadded := h.addWrite hpath hv
  have hbefore : (self.applyToNode .empty).PriorityFree := by
    rw [applyToNode_eq h]
    exact FNode.priorityFree_empty.updateInTurn h
  have hafter : ((self.addWrite v path).applyToNode .empty).PriorityFree := by
    rw [applyToNode_eq hadded]
    exact FNode.priorityFree_empty.updateInTurn hadded
  refine hafter.ext (hbefore.updateChild hv hpath) fun other hother => ?_
  rw [FNode.leafAt_updateChild hpath hother, leafAt_applyToNode_empty hadded hother,
    leafAt_applyToNode_empty h hother]
  rcases self.covered_or_free path with ⟨found, u, hpre, hu⟩ | hfree
  · rw [completeNodeAtPath_addWrite_of_covered hpre hu]
    obtain ⟨rest, rfl⟩ := hpre
    have hrest : DatabaseKey.priority ∉ rest := fun hmem => hpath (List.mem_append_right _ hmem)
    by_cases hbelow : found <+: other
    · rw [completeNodeAtPath_of_covered hbelow hu, if_pos hbelow]
      obtain ⟨rest', rfl⟩ := hbelow
      have hrest' : DatabaseKey.priority ∉ rest' := fun hmem => hother (List.mem_append_right _ hmem)
      have hleaf := FNode.leafAt_updateChild hrest hrest' u v
      simp only [FPath.relativePath_append, List.prefix_append_right_inj, Option.bind_some,
        FPath.relativePath_append_append] at hleaf ⊢
      exact hleaf
    · rw [if_neg hbelow, if_neg fun hle => hbelow ((List.prefix_append found rest).trans hle)]
      split_ifs with habove
      · -- on the way to the path there is no write but the one found
        rcases self.covered_or_free other with ⟨found', u', hpre', hu'⟩ | hfree
        · refine absurd ?_ hbelow
          rcases List.prefix_or_prefix_of_prefix (List.prefix_append found rest)
            (hpre'.trans habove.1) with hle | hle
          · exact hle.trans hpre'
          · exact self.eq_of_prefixed hu' hu hle ▸ hpre'
        · rw [completeNodeAtPath_of_free hfree, Option.bind_none]
      · rfl
  · rw [completeNodeAtPath_addWrite_of_free hfree]
    split_ifs with hbelow habove
    · rfl
    · rw [completeNodeAtPath_of_free fun above hle => hfree above (hle.trans habove.1), Option.bind_none]
    · rfl

/-! ### All writes -/

variable {writes : List (FPath K × FNode K V)}

theorem PriorityFree.addWrites (h : self.PriorityFree)
    (hwrites : ∀ write ∈ writes, WritesNoPriority write) : (self.addWrites writes).PriorityFree := by
  induction writes generalizing self with
  | nil => exact h
  | cons write rest ih =>
      rw [List.forall_mem_cons] at hwrites
      exact ih (h.addWrite hwrites.1.1 hwrites.1.2) hwrites.2

theorem covers_addWrites : Covers (self.addWrites writes).enumerateWrites path ↔
      Covers self.enumerateWrites path ∨ Covers writes path := by
  induction writes generalizing self with
  | nil => simp [Covers]
  | cons write rest ih =>
      rw [addWrites_cons, ih, covers_addWrite, or_assoc]
      simp only [Covers, List.exists_mem_cons_iff]

theorem applyToNode_empty_addWrites (h : self.PriorityFree) (hwrites : ∀ write ∈ writes, WritesNoPriority write) :
    (self.addWrites writes).applyToNode .empty = (self.applyToNode .empty).updateInTurn writes := by
  induction writes generalizing self with
  | nil => rfl
  | cons write rest ih =>
      rw [List.forall_mem_cons] at hwrites
      rw [addWrites_cons, ih (h.addWrite hwrites.1.1 hwrites.1.2) hwrites.2,
        applyToNode_empty_addWrite h hwrites.1.1 hwrites.1.2, FNode.updateInTurn_cons]

/-- What is left of the writes in turn at a path that they do not cover was filled by one of them. -/
theorem FNode.isEmpty_getChild_updateInTurn {node : FNode K V}
    (hwrites : ∀ write ∈ writes, WritesNoPriority write) (hpath : DatabaseKey.priority ∉ path)
    (hcovers : ¬Covers writes path) (hfills : ¬Fills writes path)
    (hnode : node.getChild path = FNode.empty) : (node.updateInTurn writes).getChild path = FNode.empty := by
  induction writes generalizing node with
  | nil => exact hnode
  | cons write rest ih =>
      rw [List.forall_mem_cons] at hwrites
      simp only [Covers, Fills, List.exists_mem_cons_iff, not_or] at hcovers hfills
      rw [FNode.updateInTurn_cons]
      refine ih hwrites.2 hcovers.2 hfills.2 ?_
      by_cases hbelow : path <+: write.1
      · obtain ⟨below, hbelow⟩ := hbelow
        have hempty : write.2.isEmpty = true := by
          rw [← Bool.not_eq_false]
          exact fun hfull => hfills.1 ⟨⟨below, hbelow⟩, hfull⟩
        rw [← hbelow, FNode.getChild_updateChild_append hpath, hnode, FNode.isEmpty_iff.mp hempty,
          FNode.updateChild_empty_empty]
      · rw [FNode.getChild_updateChild_beside hpath hcovers.1 hbelow, hnode]

/-- The compound write of writes without priorities does to a node without priorities what the writes do
one after the other, exactly if nothing is written and removed again below a leaf of the node that the
writes leave alone. -/
theorem applyToNode_addWrites_iff (writes : List (FPath K × FNode K V))
    (hwrites : ∀ write ∈ writes, WritesNoPriority write) (node : FNode K V) (hnode : node.PriorityFree) :
    (emptyWrite.addWrites writes).applyToNode node = node.updateInTurn writes ↔
      ∀ path, DatabaseKey.priority ∉ path → node.leafAt path ≠ none → ¬Covers writes path →
        Fills writes path → ((FNode.empty.updateInTurn writes).getChild path).isEmpty = false := by
  have hfree : (emptyWrite.addWrites writes).PriorityFree := priorityFree_emptyWrite.addWrites hwrites
  have hempty := applyToNode_empty_addWrites priorityFree_emptyWrite hwrites
  have hnone : (emptyWrite : FCompoundWrite K V).applyToNode .empty = FNode.empty := rfl
  rw [hnone] at hempty
  have hcoverIff : ∀ path : FPath K,
      Covers (emptyWrite.addWrites writes).enumerateWrites path ↔ Covers writes path := by
    intro path
    rw [covers_addWrites, covers_enumerateWrites, or_iff_right]
    rintro ⟨found, v, _, hv⟩
    rw [valueAt_emptyWrite] at hv
    cases hv
  -- at a path left alone, what is filled at the end was filled once
  have hfills : ∀ path, DatabaseKey.priority ∉ path → ¬Covers writes path →
      (Fills (emptyWrite.addWrites writes).enumerateWrites path ↔
        ((FNode.empty.updateInTurn writes).getChild path).isEmpty = false) := by
    intro path hpath hcovers
    rw [← hempty]
    refine fills_iff_of_free hfree hpath fun above hle => ?_
    cases hv : (emptyWrite.addWrites writes).valueAt above with
    | none => rfl
    | some v => exact absurd ((hcoverIff path).mp (covers_enumerateWrites.mpr ⟨above, v, hle, hv⟩)) hcovers
  have honce : ∀ path, DatabaseKey.priority ∉ path → ¬Covers writes path →
      ((FNode.empty.updateInTurn writes).getChild path).isEmpty = false → Fills writes path := by
    intro path hpath hcovers hfull
    by_contra hnot
    rw [FNode.isEmpty_getChild_updateInTurn hwrites hpath hcovers hnot (FNode.getChild_empty path)] at hfull
    cases hfull
  rw [applyToNode_eq hfree]
  constructor
  · intro heq path hpath hleaf hcovers hfill
    rw [← hfills path hpath hcovers]
    by_contra hnot
    have hcovers' := mt (hcoverIff path).mp hcovers
    have hturn := (FNode.leafAt_updateInTurn_of_not_covers hwrites hpath hcovers node).1 hfill
    rw [← heq, (FNode.leafAt_updateInTurn_of_not_covers hfree hpath hcovers' node).2 hnot] at hturn
    exact hleaf hturn
  · intro hkept
    refine (hnode.updateInTurn hfree).ext (hnode.updateInTurn hwrites) fun path hpath => ?_
    by_cases hcovers : Covers writes path
    · rw [FNode.leafAt_updateInTurn_of_covers hfree hpath ((hcoverIff path).mpr hcovers) node .empty,
        FNode.leafAt_updateInTurn_of_covers hwrites hpath hcovers node .empty, ← applyToNode_eq hfree,
        hempty]
    have hcovers' := mt (hcoverIff path).mp hcovers
    have hcompound := FNode.leafAt_updateInTurn_of_not_covers hfree hpath hcovers' node
    have hturn := FNode.leafAt_updateInTurn_of_not_covers hwrites hpath hcovers node
    by_cases hfill : Fills writes path
    · rw [hturn.1 hfill]
      by_cases hleaf : node.leafAt path = none
      · by_cases hfill' : Fills (emptyWrite.addWrites writes).enumerateWrites path
        · exact hcompound.1 hfill'
        · exact (hcompound.2 hfill').trans hleaf
      · exact hcompound.1 ((hfills path hpath hcovers).mpr (hkept path hpath hleaf hcovers hfill))
    · rw [hturn.2 hfill]
      refine hcompound.2 fun hfill' => hfill ?_
      exact honce path hpath hcovers ((hfills path hpath hcovers).mp hfill')

/-- A child written below a leaf. -/
def writeBelowLeaf : List (FPath String × FNode String Int) := [(["a"], .leaf 1 .empty)]

theorem applyToNode_writeBelowLeaf :
    (emptyWrite.addWrites writeBelowLeaf).applyToNode (.leaf 2 .empty) =
      (FNode.leaf 2 .empty).updateInTurn writeBelowLeaf := by
  have hleaf : ∀ value : Int, (FNode.leaf value .empty : FNode String Int).PriorityFree :=
    FNode.priorityFree_leaf
  refine (applyToNode_addWrites_iff writeBelowLeaf (fun write hwrite => ?_) (.leaf 2 .empty)
    (hleaf 2)).mpr fun path hpath hvalue _ _ => ?_
  · rw [writeBelowLeaf, List.mem_singleton] at hwrite
    subst hwrite
    exact ⟨show DatabaseKey.priority ∉ ["a"] by decide, hleaf 1⟩
  · cases path with
    | nil => decide
    | cons front rest => exact absurd (FNode.leafAt_leaf_cons hpath 2) hvalue

/-- The child is removed again: the leaf is gone, but the compound write keeps it. -/
theorem applyToNode_addWrites_fails :
    ¬∀ writes : List (FPath String × FNode String Int), (∀ write ∈ writes, WritesNoPriority write) →
      ∀ node : FNode String Int, node.PriorityFree →
        (emptyWrite.addWrites writes).applyToNode node = node.updateInTurn writes := by
  intro hall
  have hsame := hall (writeBelowLeaf ++ [(["a"], .empty)]) (fun write hwrite => ?_) (.leaf 2 .empty)
    (FNode.priorityFree_leaf 2)
  · exact absurd hsame (by decide)
  · rw [writeBelowLeaf, List.mem_append, List.mem_singleton, List.mem_singleton] at hwrite
    rcases hwrite with rfl | rfl
    · exact ⟨show DatabaseKey.priority ∉ ["a"] by decide, FNode.priorityFree_leaf 1⟩
    · exact ⟨show DatabaseKey.priority ∉ ["a"] by decide, FNode.priorityFree_empty⟩

end FCompoundWrite

end FirebaseSwift.Database
