import FirebaseSwift.Database.RootedWrites
import FirebaseSwift.Database.SyncPointUpdates

/-! What an operation means for the data, and that it descends with it. The child of a node after an operation
is the child of the node before, after the operation for the child. An operation is only asked for the child on
its path: the answer for another child changes what the operation leaves alone. -/

namespace FirebaseSwift.Database

open SortedDictionary FImmutableTree

variable {K V Q : Type} [DatabaseKey K]

/-! ### Compound writes below a path -/

namespace FCompoundWrite

mutual

/-- Writes below a child change it as they would from there. -/
theorem getImmediateChild_applySubtreeWrite {key : K} (hkey : key ≠ DatabaseKey.priority)
    (relativePath : FPath K) (toNode : FNode K V) : ∀ subtreeWrite : FImmutableTree K (FNode K V),
      (applySubtreeWrite (key :: relativePath) toNode subtreeWrite).getImmediateChild key =
        applySubtreeWrite relativePath (toNode.getImmediateChild key) subtreeWrite
  | .node (some value) children => by
      rw [applySubtreeWrite, applySubtreeWrite, FNode.updateChild_cons hkey,
        FNode.getImmediateChild_updateImmediateChild hkey hkey, if_pos rfl]
  | .node none children => by
      have hchildren := getImmediateChild_applyChildWrites hkey relativePath toNode children
      rw [applySubtreeWrite, applySubtreeWrite]
      cases (get DatabaseKey.priority children).bind FImmutableTree.value with
      | none => exact hchildren
      | some priorityWrite =>
          dsimp only
          rw [FNode.getChild_cons hkey, hchildren]
          split_ifs
          · exact hchildren
          · rw [FPath.childFromString, List.cons_append, FNode.updateChild_cons hkey,
              FNode.getImmediateChild_updateImmediateChild hkey hkey, if_pos rfl, hchildren]
            rfl

theorem getImmediateChild_applyChildWrites {key : K} (hkey : key ≠ DatabaseKey.priority)
    (relativePath : FPath K) (toNode : FNode K V) : ∀ children : List (K × FImmutableTree K (FNode K V)),
      (applyChildWrites (key :: relativePath) toNode children).getImmediateChild key =
        applyChildWrites relativePath (toNode.getImmediateChild key) children
  | [] => rfl
  | (childKey, childTree) :: rest => by
      rw [applyChildWrites, applyChildWrites]
      split_ifs
      · exact getImmediateChild_applyChildWrites hkey relativePath toNode rest
      · rw [getImmediateChild_applyChildWrites hkey]
        congr 1
        exact getImmediateChild_applySubtreeWrite hkey _ toNode childTree

end

mutual

/-- Writes below another child leave a child alone. -/
theorem getImmediateChild_applySubtreeWrite_beside {front key : K} (hfront : front ≠ DatabaseKey.priority)
    (hkey : key ≠ DatabaseKey.priority) (hne : key ≠ front) (relativePath : FPath K) (toNode : FNode K V) :
    ∀ subtreeWrite : FImmutableTree K (FNode K V),
      (applySubtreeWrite (front :: relativePath) toNode subtreeWrite).getImmediateChild key =
        toNode.getImmediateChild key
  | .node (some value) children => by
      rw [applySubtreeWrite, FNode.updateChild_cons hfront,
        FNode.getImmediateChild_updateImmediateChild hfront hkey, if_neg hne]
  | .node none children => by
      have hchildren := getImmediateChild_applyChildWrites_beside hfront hkey hne relativePath toNode children
      rw [applySubtreeWrite]
      cases (get DatabaseKey.priority children).bind FImmutableTree.value with
      | none => exact hchildren
      | some priorityWrite =>
          dsimp only
          split_ifs
          · exact hchildren
          · rw [FPath.childFromString, List.cons_append, FNode.updateChild_cons hfront,
              FNode.getImmediateChild_updateImmediateChild hfront hkey, if_neg hne]
            exact hchildren

theorem getImmediateChild_applyChildWrites_beside {front key : K} (hfront : front ≠ DatabaseKey.priority)
    (hkey : key ≠ DatabaseKey.priority) (hne : key ≠ front) (relativePath : FPath K) (toNode : FNode K V) :
    ∀ children : List (K × FImmutableTree K (FNode K V)),
      (applyChildWrites (front :: relativePath) toNode children).getImmediateChild key =
        toNode.getImmediateChild key
  | [] => rfl
  | (childKey, childTree) :: rest => by
      rw [applyChildWrites]
      split_ifs
      · exact getImmediateChild_applyChildWrites_beside hfront hkey hne relativePath toNode rest
      · rw [getImmediateChild_applyChildWrites_beside hfront hkey hne]
        exact getImmediateChild_applySubtreeWrite_beside hfront hkey hne _ toNode childTree

end

variable {key : K} {children : List (K × FImmutableTree K (FNode K V))}

/-- Of the writes to the children only those to a child itself change it. -/
theorem getImmediateChild_applyChildWrites_nil (hkey : key ≠ DatabaseKey.priority)
    (hnodup : (children.map Prod.fst).Nodup) (toNode : FNode K V) :
    (applyChildWrites [] toNode children).getImmediateChild key =
      (get key children).elim (toNode.getImmediateChild key)
        (applySubtreeWrite [] (toNode.getImmediateChild key)) := by
  induction children generalizing toNode with
  | nil => rfl
  | cons first rest ih =>
      obtain ⟨childKey, childTree⟩ := first
      obtain ⟨hfirst, hrest⟩ := List.nodup_cons.mp hnodup
      rw [applyChildWrites, get_cons]
      by_cases hpriority : childKey = DatabaseKey.priority
      · rw [if_pos hpriority, ih hrest, if_neg fun heq : childKey = key => hkey (heq ▸ hpriority)]
      · rw [if_neg hpriority, ih hrest, FPath.childFromString, List.nil_append]
        by_cases hsame : childKey = key
        · subst hsame
          have hnone : get childKey rest = none := by
            by_contra hsome
            exact hfirst (mem_keys_iff.mpr hsome)
          rw [if_pos rfl, hnone, Option.elim_none, Option.elim_some, getImmediateChild_applySubtreeWrite hpriority]
        · rw [if_neg hsame, getImmediateChild_applySubtreeWrite_beside hpriority hkey (Ne.symm hsame)]

variable {self : FCompoundWrite K V}

theorem getImmediateChild_applySubtreeWrite_nil (hkey : key ≠ DatabaseKey.priority)
    (hnodup : (children.map Prod.fst).Nodup) (toNode : FNode K V) :
    (applySubtreeWrite [] toNode (.node none children)).getImmediateChild key =
      (get key children).elim (toNode.getImmediateChild key)
        (applySubtreeWrite [] (toNode.getImmediateChild key)) := by
  rw [← getImmediateChild_applyChildWrites_nil hkey hnodup, applySubtreeWrite]
  cases (get DatabaseKey.priority children).bind FImmutableTree.value with
  | none => rfl
  | some priorityWrite =>
      dsimp only
      split_ifs
      · rfl
      · rw [FPath.childFromString, List.nil_append, FNode.updateChild_priority,
          FNode.getImmediateChild_updatePriority hkey]

/-- The child after a compound write is the child before, after the part of the compound write for it. -/
theorem childOf_applyToNode (hkey : key ≠ DatabaseKey.priority) (self : FCompoundWrite K V) (node : FNode K V) :
    (self.applyToNode node).getImmediateChild key =
      (self.childCompoundWriteAtPath [key]).applyToNode (node.getImmediateChild key) := by
  cases hroot : self.valueAt [] with
  | some v =>
      have hchild := valueAt_childCompoundWriteAtPath_of_covered (@List.nil_prefix _ [key]) hroot []
      have hrelative : FPath.relativePath [] [key] = [key] := FPath.relativePath_append [] [key]
      rw [if_pos rfl, hrelative, FNode.getChild_cons hkey, FNode.getChild_nil] at hchild
      rw [applyToNode_of_rootWrite hroot, applyToNode_of_rootWrite hchild]
  | none =>
      have happly : (self.applyToNode node).getImmediateChild key =
          (get key self.writeTree.children).elim (node.getImmediateChild key)
            (applySubtreeWrite [] (node.getImmediateChild key)) := by
        obtain ⟨⟨value, children⟩, hwf⟩ := self
        cases hroot
        have hnodup : (children.map Prod.fst).Nodup := hwf.sorted.nodup_keys
        exact getImmediateChild_applySubtreeWrite_nil hkey hnodup node
      rw [happly]
      cases hwrite : self.valueAt [key] with
      | some w =>
          have hchild := valueAt_childCompoundWriteAtPath_of_covered (@List.prefix_rfl _ [key]) hwrite []
          rw [if_pos rfl, FPath.relativePath_self, FNode.getChild_nil] at hchild
          rw [applyToNode_of_rootWrite hchild]
          rw [valueAt, valueAt_cons] at hwrite
          obtain ⟨⟨value, grandchildren⟩, hget, hvalue⟩ := Option.bind_eq_some_iff.mp hwrite
          cases hvalue
          rw [hget, Option.elim_some, applySubtreeWrite, FNode.updateChild_nil]
      | none =>
          have hfree : ∀ above, above <+: [key] → self.valueAt above = none := by
            intro above hle
            rcases List.prefix_cons_iff.mp hle with rfl | ⟨rest, rfl, hrest⟩
            · exact hroot
            · rw [List.prefix_nil.mp hrest]
              exact hwrite
          rw [childCompoundWriteAtPath, if_neg (by simp), completeNodeAtPath_of_free hfree, applyToNode]
          simp only [subtree]
          cases get key self.writeTree.children with
          | none => rfl
          | some childTree => rfl

theorem valueAt_addCompoundWrite_empty (path : FPath K) {writes : List (FPath K × FNode K V)}
    (hpairwise : writes.Pairwise fun e e' => ¬e.1 <+: e'.1 ∧ ¬e'.1 <+: e.1) (other : FPath K) (v : FNode K V) :
    (writes.foldl (fun newWrite write => newWrite.addWrite write.2 (path.child write.1))
      emptyWrite).valueAt other = some v ↔ ∃ write ∈ writes, other = path ++ write.1 ∧ v = write.2 := by
  induction writes using List.reverseRecOn generalizing other v with
  | nil => simp
  | append_singleton writes last ih =>
      obtain ⟨hwrites, _, hlast⟩ := List.pairwise_append.mp hpairwise
      have hfree : ∀ above, above <+: path ++ last.1 →
          (writes.foldl (fun newWrite write => newWrite.addWrite write.2 (path.child write.1))
            emptyWrite).valueAt above = none := by
        intro above hle
        by_contra hsome
        obtain ⟨w, hw⟩ := Option.ne_none_iff_exists'.mp hsome
        obtain ⟨write, hmem, rfl, rfl⟩ := (ih hwrites above w).mp hw
        exact (hlast write hmem last (List.mem_singleton_self _)).1 ((List.prefix_append_right_inj path).mp hle)
      rw [List.foldl_append, List.foldl_cons, List.foldl_nil, FPath.child, valueAt_addWrite_free last.2 hfree]
      simp only [List.mem_append, List.mem_singleton, or_and_right, exists_or, exists_eq_left]
      by_cases hbelow : path ++ last.1 <+: other
      · have hnone : ¬∃ write ∈ writes, other = path ++ write.1 ∧ v = write.2 := by
          rintro ⟨write, hmem, rfl, -⟩
          exact (hlast write hmem last (List.mem_singleton_self _)).2
            ((List.prefix_append_right_inj path).mp hbelow)
        rw [if_pos hbelow, or_iff_right hnone]
        split_ifs with hother
        · rw [and_iff_right hother, Option.some_inj, eq_comm]
        · exact iff_of_false id fun h => hother h.1
      · have hother : ¬(other = path ++ last.1 ∧ v = last.2) := fun h => hbelow (h.1 ▸ List.prefix_rfl)
        rw [if_neg hbelow, ih hwrites, or_iff_left hother]

theorem applyToNode_of_isEmpty (self : FCompoundWrite K V) (h : self.isEmpty = true) (node : FNode K V) :
    self.applyToNode node = node := by
  rw [applyToNode, FImmutableTree.isEmpty_iff.mp h]
  rfl

/-- The merge as seen from above its path has its tree there. -/
theorem writeTree_actualMerge (path : FPath K) (self : FCompoundWrite K V) :
    (FViewProcessor.actualMerge path self).writeTree = setTree self.writeTree path FImmutableTree.empty := by
  have hset : IsWriteTree (setTree self.writeTree path FImmutableTree.empty) :=
    IsWriteTree.empty.setTree self.isWriteTree path fun above _ _ => valueAt_empty above
  refine (FViewProcessor.actualMerge path self).isWriteTree.ext hset fun other => ?_
  rw [valueAt_setTree, FViewProcessor.actualMerge]
  split_ifs with hnil hbelow hbelow
  · rw [List.isEmpty_iff.mp hnil]
    rfl
  · rw [List.isEmpty_iff.mp hnil] at hbelow
    exact absurd List.nil_prefix hbelow
  · obtain ⟨rest, rfl⟩ := hbelow
    rw [List.drop_left]
    refine Option.ext fun v => (valueAt_addCompoundWrite_empty path self.pairwise_enumerateWrites _ v).trans ?_
    constructor
    · rintro ⟨write, hmem, hother, rfl⟩
      rw [List.append_cancel_left hother]
      exact mem_enumerateWrites.mp hmem
    · intro hv
      exact ⟨(rest, v), mem_enumerateWrites.mpr hv, rfl, rfl⟩
  · rw [valueAt_empty]
    by_contra hsome
    obtain ⟨v, hv⟩ := Option.ne_none_iff_exists'.mp hsome
    obtain ⟨write, _, rfl, _⟩ :=
      (valueAt_addCompoundWrite_empty path self.pairwise_enumerateWrites other v).mp hv
    exact hbelow (List.prefix_append path write.1)

/-- Of a merge at a path below a child the node at the child sees what is below. -/
theorem getImmediateChild_applyToNode_actualMerge (front : K) (hkey : key ≠ DatabaseKey.priority)
    (rest : FPath K) (self : FCompoundWrite K V) (node : FNode K V) :
    ((FViewProcessor.actualMerge (front :: rest) self).applyToNode node).getImmediateChild key =
      if key = front then (FViewProcessor.actualMerge rest self).applyToNode (node.getImmediateChild key)
      else node.getImmediateChild key := by
  obtain ⟨childTree, hchildTree⟩ : ∃ childTree, childTree = setTree self.writeTree rest FImmutableTree.empty :=
    ⟨_, rfl⟩
  have hset : setTree self.writeTree (front :: rest) FImmutableTree.empty =
      .node none (replaceChild front childTree []) := by
    rw [hchildTree]
    rfl
  have hnodup : ((replaceChild front childTree []).map Prod.fst).Nodup := by
    unfold replaceChild
    split_ifs
    · exact List.nodup_nil
    · exact List.nodup_singleton front
  rw [applyToNode, applyToNode, writeTree_actualMerge, writeTree_actualMerge, hset,
    getImmediateChild_applySubtreeWrite_nil hkey hnodup, ← hchildTree]
  unfold replaceChild
  split_ifs with hempty hsame hsame
  · rw [FImmutableTree.isEmpty_iff.mp hempty]
    rfl
  · rfl
  · rw [hsame, get_set_self, Option.elim_some]
  · rw [get_set, if_neg hsame, get_nil, Option.elim_none]

end FCompoundWrite

/-! ### Operations -/

namespace FOperation

/-- What the data is after the operation. Acknowledgements and completions change no data themselves. -/
def applyToNode (self : FOperation K V Q) (node : FNode K V) : FNode K V :=
  match self.type with
  | .overwrite snap => node.updateChild self.path snap
  | .merge children => (FViewProcessor.actualMerge self.path children).applyToNode node
  | .ackUserWrite _ _ | .listenComplete => node

/-- The child is on the path of the operation, or the operation is at the node. -/
def Concerns (self : FOperation K V Q) (childKey : K) : Prop :=
  self.path = [] ∨ self.path.head? = some childKey

theorem getImmediateChild_applyToNode (operation : FOperation K V Q) {childKey : K}
    (hkey : childKey ≠ DatabaseKey.priority) (hconcerns : operation.Concerns childKey) (node : FNode K V) :
    (operation.applyToNode node).getImmediateChild childKey =
      (operation.operationForChild childKey).elim (node.getImmediateChild childKey)
        fun childOperation => childOperation.applyToNode (node.getImmediateChild childKey) := by
  obtain ⟨source, path, type⟩ := operation
  cases path with
  | nil =>
      cases type with
      | overwrite snap =>
          exact (congrArg (fun node => node.getImmediateChild childKey) (FNode.updateChild_nil node snap)).trans
            (FNode.updateChild_nil (node.getImmediateChild childKey) (snap.getImmediateChild childKey)).symm
      | merge children =>
          refine (children.childOf_applyToNode hkey node).trans ?_
          unfold operationForChild
          dsimp only
          rw [List.isEmpty_nil, if_pos rfl]
          obtain ⟨childTree, hchildTree⟩ : ∃ childTree, childTree = children.childCompoundWriteAtPath [childKey] :=
            ⟨_, rfl⟩
          rw [← hchildTree]
          split_ifs with hempty
          · rw [Option.elim_none]
            exact childTree.applyToNode_of_isEmpty hempty _
          · cases hroot : childTree.rootWrite with
            | some rootWrite =>
                rw [FCompoundWrite.applyToNode_of_rootWrite hroot]
                exact (FNode.updateChild_nil _ rootWrite).symm
            | none => rfl
      | ackUserWrite affectedTree revert =>
          rw [operationForChild]
          dsimp only
          split_ifs <;> rfl
      | listenComplete => rfl
  | cons front rest =>
      have hfront : front = childKey := by
        rcases hconcerns with hnil | hhead
        · cases hnil
        · exact Option.some_inj.mp hhead
      subst hfront
      cases type with
      | overwrite snap =>
          have hupdate : (node.updateChild (front :: rest) snap).getImmediateChild front =
              (node.getImmediateChild front).updateChild rest snap := by
            rw [FNode.updateChild_cons hkey, FNode.getImmediateChild_updateImmediateChild hkey hkey, if_pos rfl]
          exact hupdate
      | merge children =>
          exact (FCompoundWrite.getImmediateChild_applyToNode_actualMerge front hkey rest children node).trans
            (if_pos rfl)
      | ackUserWrite affectedTree revert => rfl
      | listenComplete => rfl

variable {operation : FOperation K V Q}

/-- Off its path an operation changes nothing. -/
theorem getImmediateChild_applyToNode_beside {front childKey : K} {rest : FPath K}
    (hpath : operation.path = front :: rest) (hkey : childKey ≠ DatabaseKey.priority) (hne : childKey ≠ front)
    (node : FNode K V) :
    (operation.applyToNode node).getImmediateChild childKey = node.getImmediateChild childKey := by
  obtain ⟨source, path, type⟩ := operation
  cases hpath
  cases type with
  | overwrite snap =>
      have hupdate : (node.updateChild (front :: rest) snap).getImmediateChild childKey =
          node.getImmediateChild childKey := by
        by_cases hfront : front = DatabaseKey.priority
        · rw [hfront, FNode.updateChild_priority_cons, FNode.getImmediateChild_updatePriority hkey]
        · rw [FNode.updateChild_cons hfront, FNode.getImmediateChild_updateImmediateChild hfront hkey, if_neg hne]
      exact hupdate
  | merge children =>
      exact (FCompoundWrite.getImmediateChild_applyToNode_actualMerge front hkey rest children node).trans
        (if_neg hne)
  | ackUserWrite affectedTree revert => rfl
  | listenComplete => rfl

/-- An overwrite at `a` -/
def overwriteAtA : FOperation String Int Unit := overwrite .user ["a"] (.leaf 5 .empty)

theorem getImmediateChild_applyToNode_atA :
    (overwriteAtA.applyToNode .empty).getImmediateChild "a" =
      (overwriteAtA.operationForChild "a").elim (FNode.getImmediateChild .empty "a")
        fun childOperation => childOperation.applyToNode (FNode.getImmediateChild .empty "a") :=
  getImmediateChild_applyToNode overwriteAtA (by decide) (Or.inr rfl) .empty

/-- The answer for a child that is not on the path overwrites it. -/
theorem getImmediateChild_applyToNode_fails_beside :
    ¬∀ (operation : FOperation String Int Unit) (childKey : String), childKey ≠ DatabaseKey.priority →
      ∀ node : FNode String Int, (operation.applyToNode node).getImmediateChild childKey =
        (operation.operationForChild childKey).elim (node.getImmediateChild childKey)
          fun childOperation => childOperation.applyToNode (node.getImmediateChild childKey) := by
  intro hall
  have hchild := hall overwriteAtA "b" (by decide) .empty
  rw [getImmediateChild_applyToNode_beside rfl (by decide) (by decide)] at hchild
  have hleaf := congrArg FNode.isEmpty hchild
  cases hleaf

end FOperation

end FirebaseSwift.Database
