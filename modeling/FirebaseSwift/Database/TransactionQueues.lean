import FirebaseSwift.Database.Transactions
import FirebaseSwift.Library.ExceptLoops
import FirebaseSwift.Library.StepRuns
import Mathlib.Data.List.Flatten

/-! The queues of a repo in its runs. Below a key of the root at most one transaction is queued, since a
second one gets lost, and every queued transaction is at its path. Calls leave the paths of the
transactions alone, and only prunes and aborts take transactions out of the tree. -/

namespace FirebaseSwift.Database

open SortedDictionary ExceptLoops

section Aggregates

variable {K : Type}

theorem aggregate_line (place : FPath K) (queue : List Nat) :
    aggregateTransactionQueuesForNode (FTreeNode.line place queue) = queue := by
  induction place with
  | nil => simp [FTreeNode.line, aggregateTransactionQueuesForNode, aggregateTransactionQueuesForChildren]
  | cons next rest ih =>
      simp [FTreeNode.line, aggregateTransactionQueuesForNode, aggregateTransactionQueuesForChildren, ih]

theorem aggregate_tree (slots : TreeSlots K (List Nat)) : aggregateTransactionQueuesForNode slots.tree =
      slots.value.getD [] ++ slots.slots.flatMap fun slot => slot.2.2 := by
  have hslots : ∀ slots : List (K × FPath K × List Nat),
      aggregateTransactionQueuesForChildren (slots.map FTreeNode.branch) =
        slots.flatMap fun slot => slot.2.2 := by
    intro slots
    induction slots with
    | nil => rw [List.map_nil, aggregateTransactionQueuesForChildren, List.flatMap_nil]
    | cons slot rest ih =>
        rw [List.map_cons, FTreeNode.branch, aggregateTransactionQueuesForChildren, ih, aggregate_line,
          List.flatMap_cons]
  rw [TreeSlots.tree, aggregateTransactionQueuesForNode, hslots]

theorem keepSlots_pure {α : Type} (body : α → Bool) (slots : List (K × FPath K × α)) :
    TreeSlots.keepSlots (fun value => (pure (body value) : Id Bool)) slots =
      pure (slots.filter fun slot => body slot.2.2) := by
  induction slots with
  | nil => rfl
  | cons slot rest ih =>
      rw [TreeSlots.keepSlots, ih, List.filter_cons]
      rfl

end Aggregates

variable {K V : Type} [DatabaseKey K]

namespace FRepo

/-! ### Calls that leave the queues alone -/

/-- The tree, the number of transactions and their paths are the same. -/
structure Steady (before after : FRepo K V) : Prop where
  tree : after.transactionQueueTree = before.transactionQueueTree
  started : after.started = before.started
  path : ∀ transaction, (after.transactions transaction).path = (before.transactions transaction).path

variable {self repo repo' : FRepo K V}

theorem Steady.refl (self : FRepo K V) : Steady self self := ⟨rfl, rfl, fun _ => rfl⟩

theorem Steady.trans (h : Steady self repo) (h' : Steady repo repo') : Steady self repo' :=
  ⟨h'.tree.trans h.tree, h'.started.trans h.started, fun t => (h'.path t).trans (h.path t)⟩

theorem transactions_modify (self : FRepo K V) (transaction other : Nat)
    (change : FTupleTransaction K V → FTupleTransaction K V) : (self.modify transaction change).transactions other =
      if other = transaction then change (self.transactions transaction) else self.transactions other :=
  Function.update_apply ..

theorem steady_modify (self : FRepo K V) (transaction : Nat) {change : FTupleTransaction K V → FTupleTransaction K V}
    (hpath : ∀ record, (change record).path = record.path) : Steady self (self.modify transaction change) := by
  refine ⟨rfl, rfl, fun other => ?_⟩
  rw [transactions_modify]
  split_ifs with heq
  · rw [hpath, heq]
  · rfl

theorem steady_setStatus (self : FRepo K V) (transaction : Nat) (status : FTransactionStatus) :
    Steady self (self.setStatus transaction status) :=
  steady_modify self transaction fun _ => rfl

variable {serverSyncTree : Option (FSyncTree K V)}

theorem withSyncTree_eq_ok (h : self.withSyncTree serverSyncTree = .ok repo) :
    ∃ tree, repo = { self with serverSyncTree := tree } := by
  cases serverSyncTree with
  | none => cases h
  | some tree =>
      cases h
      exact ⟨tree, rfl⟩

theorem steady_withSyncTree (h : self.withSyncTree serverSyncTree = .ok repo) : Steady self repo := by
  obtain ⟨tree, rfl⟩ := withSyncTree_eq_ok h
  exact ⟨rfl, rfl, fun _ => rfl⟩

theorem steady_fire (self : FRepo K V) (callbacks : List (Nat × TransactionCompletion K V)) :
    Steady self (self.fire callbacks) := by
  induction callbacks generalizing self with
  | nil => exact .refl self
  | cons callback rest ih =>
      refine Steady.trans ?_ (ih _)
      refine steady_modify self callback.1 ?_
      exact fun _ => rfl

theorem Rerun.steady_abort (self : Rerun K V) (transaction : Nat) : Steady self.repo (self.abort transaction).repo :=
  (steady_setStatus self.repo transaction .completed).trans
    (steady_modify (self.repo.setStatus transaction .completed) transaction fun _ => rfl)

theorem steady_sendTransactionQueue (self : FRepo K V) (queue : List Nat) (path : FPath K) :
    Steady self (self.sendTransactionQueue queue path) := by
  have hloop : ∀ (state : FRepo K V × FNode K V),
      Steady state.1 (queue.foldl (sendTransaction path) state).1 := by
    induction queue with
    | nil => exact fun state => .refl state.1
    | cons transaction rest ih =>
        intro state
        have hsend : (sendTransaction path state transaction).1 =
            state.1.modify transaction fun record =>
              { record with status := .sent, retryCount := record.retryCount + 1 } := rfl
        refine Steady.trans ?_ (ih _)
        rw [hsend]
        refine steady_modify state.1 transaction ?_
        exact fun _ => rfl
  obtain ⟨htree, hstarted, hpath⟩ := hloop (self, self.latestStateAtPath path
    (queue.map fun transaction => (self.transactions transaction).currentWriteId))
  exact ⟨htree, hstarted, hpath⟩

mutual

theorem steady_sendReadyTransactionsForTree (path : FPath K) (node : FTreeNode K (List Nat))
    (self : FRepo K V) : Steady self (sendReadyTransactionsForTree path node self) := by
  cases node with
  | node children childCount value =>
      rw [sendReadyTransactionsForTree]
      split_ifs
      · dsimp only
        split_ifs
        · exact steady_sendTransactionQueue self _ path
        · exact .refl self
      · exact steady_sendReadyTransactionsForChildren path children self
      · exact .refl self

theorem steady_sendReadyTransactionsForChildren (path : FPath K)
    (children : List (K × FTreeNode K (List Nat))) (self : FRepo K V) :
    Steady self (sendReadyTransactionsForChildren path children self) := by
  cases children with
  | nil =>
      rw [sendReadyTransactionsForChildren]
      exact .refl self
  | cons child rest =>
      obtain ⟨name, child⟩ := child
      rw [sendReadyTransactionsForChildren]
      exact (steady_sendReadyTransactionsForTree (path ++ [name]) child self).trans
        (steady_sendReadyTransactionsForChildren path rest _)

end

section Reruns

variable [DatabaseValue V] [QueryFilters K V]
variable {transaction : Nat}

theorem Rerun.steady_abortWith {self rerun : Rerun K V} {status : Option FStatus}
    (h : self.abortWith transaction status = .ok rerun) : Steady self.repo rerun.repo := by
  obtain ⟨reverted, hreverted, hresult⟩ := bind_eq_ok.mp h
  cases hresult
  have habort := Rerun.steady_abort { self with repo := reverted } transaction
  refine ((steady_modify self.repo transaction ?_).trans (steady_withSyncTree hreverted)).trans habort
  exact fun _ => rfl

theorem Rerun.steady_updateTo {self rerun : Rerun K V} {newVal newValResolved : FNode K V}
    (h : self.updateTo transaction newVal newValResolved = .ok rerun) : Steady self.repo rerun.repo := by
  obtain ⟨applied, happlied, h⟩ := bind_eq_ok.mp h
  obtain ⟨acked, hacked, hresult⟩ := bind_eq_ok.mp h
  cases hresult
  have hcounter : Steady self.repo
      { self.repo with writeIdCounter := self.repo.writeIdCounter + 1 } := ⟨rfl, rfl, fun _ => rfl⟩
  refine (hcounter.trans ((steady_modify _ transaction ?_).trans (steady_withSyncTree happlied))).trans
    (steady_withSyncTree hacked)
  exact fun _ => rfl

theorem steady_rerunTransaction {self rerun : Rerun K V} (h : rerunTransaction self transaction = .ok rerun) :
    Steady self.repo rerun.repo := by
  unfold rerunTransaction at h
  dsimp only at h
  split at h
  · split_ifs at h
    · obtain ⟨reverted, hreverted, hresult⟩ := bind_eq_ok.mp h
      cases hresult
      have habort := Rerun.steady_abort { self with repo := reverted } transaction
      exact (steady_withSyncTree hreverted).trans habort
    · cases h
      exact Rerun.steady_abort self transaction
  · split_ifs at h
    · exact Rerun.steady_abortWith h
    · have hcalled : Steady self.repo (self.repo.modify transaction fun record =>
          { record with
            currentInputSnapshot := self.repo.latestStateAtPath
              (self.repo.transactions transaction).path self.writeIdsToExclude
            updates := record.updates + 1 }) := steady_modify self.repo transaction fun _ => rfl
      split at h
      · exact hcalled.trans (Rerun.steady_updateTo h)
      · exact hcalled.trans (Rerun.steady_abortWith h)
  · cases h
    exact .refl self.repo

theorem steady_completeTransaction {state state' : FRepo K V × List (Nat × TransactionCompletion K V)}
    (h : completeTransaction state transaction = .ok state') : Steady state.1 state'.1 := by
  obtain ⟨acked, hacked, hresult⟩ := bind_eq_ok.mp h
  cases hresult
  have hunwatch := steady_modify acked transaction (fun record => (rfl : record.unwatch.path = record.path))
  exact ((steady_setStatus state.1 transaction .completed).trans (steady_withSyncTree hacked)).trans hunwatch

end Reruns

theorem steady_failTransactions (status : FStatus) (errorReason : Option String) (self : FRepo K V)
    (queue : List Nat) : Steady self (queue.foldl (failTransaction status errorReason) self) := by
  induction queue generalizing self with
  | nil => exact .refl self
  | cons transaction rest ih =>
      refine Steady.trans ?_ (ih _)
      rw [failTransaction]
      split_ifs
      · exact steady_setStatus self transaction _
      · exact steady_setStatus self transaction _
      · have habort := steady_modify (self.setStatus transaction .needsAbort) transaction
          (fun record => (rfl : (record.setAbortStatus (some status) errorReason).path = record.path))
        exact (steady_setStatus self transaction .needsAbort).trans habort

/-! ### The tree -/

/-- A tree with the queue of the root and at most one transaction below each key, and every transaction
at its path. -/
structure Formed (repo : FRepo K V) (slots : TreeSlots K (List Nat)) : Prop where
  tree : repo.transactionQueueTree = slots.tree
  sorted : Sorted (· < ·) slots.slots
  root : ∀ transaction ∈ slots.value.getD [],
    transaction < repo.started ∧ (repo.transactions transaction).path = []
  slot : ∀ slot ∈ slots.slots, ∃ transaction, slot.2.2 = [transaction] ∧
    transaction < repo.started ∧ (repo.transactions transaction).path = slot.1 :: slot.2.1

variable {slots : TreeSlots K (List Nat)} (transactions : Nat → FTupleTransaction K V)

theorem Formed.steady (h : self.Formed slots) (hsteady : Steady self repo) : repo.Formed slots where
  tree := hsteady.tree.trans h.tree
  sorted := h.sorted
  root transaction hmem := by
    rw [hsteady.started, hsteady.path]
    exact h.root transaction hmem
  slot slot hmem := by
    obtain ⟨transaction, hqueue, hlt, hpath⟩ := h.slot slot hmem
    exact ⟨transaction, hqueue, hsteady.started.symm ▸ hlt, (hsteady.path transaction).trans hpath⟩

/-- Fewer queues are formed as well. -/
theorem Formed.of_subset {slots' : TreeSlots K (List Nat)} (h : self.Formed slots)
    (hstarted : repo.started = self.started) (hpath : ∀ t, (repo.transactions t).path = (self.transactions t).path)
    (htree : repo.transactionQueueTree = slots'.tree) (hsorted : Sorted (· < ·) slots'.slots)
    (hroot : ∀ t ∈ slots'.value.getD [], t ∈ slots.value.getD [])
    (hslots : ∀ slot ∈ slots'.slots, slot ∈ slots.slots) : repo.Formed slots' where
  tree := htree
  sorted := hsorted
  root transaction hmem := by
    rw [hstarted, hpath]
    exact h.root transaction (hroot transaction hmem)
  slot slot hmem := by
    obtain ⟨transaction, hqueue, hlt, hp⟩ := h.slot slot (hslots slot hmem)
    exact ⟨transaction, hqueue, hstarted.symm ▸ hlt, (hpath transaction).trans hp⟩

/-- The transactions of all queues. -/
def queued (self : FRepo K V) : List Nat := aggregateTransactionQueuesForNode self.transactionQueueTree

theorem Formed.queued_eq (h : self.Formed slots) :
    self.queued = slots.value.getD [] ++ slots.slots.flatMap fun slot => slot.2.2 := by
  rw [queued, h.tree, aggregate_tree]

/-! ### Prunes -/

/-- What a prune makes of a queue. -/
def pruneQueue (transactions : Nat → FTupleTransaction K V) (queue : List Nat) : Option (List Nat) :=
  let filtered := queue.filter fun transaction => (transactions transaction).status ≠ .completed
  if filtered.isEmpty then none else some filtered

theorem setValue_same {node : FTree K (List Nat)} (hheld : node.Held) {queue : List Nat}
    (hvalue : node.node.value = some queue) : node.setValue (some queue) = node := by
  obtain ⟨⟨children, childCount, value⟩, parents⟩ := node
  obtain rfl : value = some queue := hvalue
  have hsame : (FTreeNode.node children childCount (some queue)).setValue (some queue) =
      FTreeNode.node children childCount (some queue) := rfl
  rw [FTree.setValue, hsame]
  congr 1
  cases parents with
  | nil => rfl
  | cons parent rest =>
      obtain ⟨name, parent⟩ := parent
      have hget := hheld name parent rest rfl
      rw [FTree.updateParents, FTree.updateChild_of_known]
      rw [hget]
      simp [FTreeNode.isEmpty]

theorem visits_pruneNode :
    FTree.Visits (pruneNode transactions) (fun value => pure (value.bind (pruneQueue transactions)))
      (fun queue => pure (pruneQueue transactions queue).isSome)
      (fun queue : List Nat => ∃ transaction, queue = [transaction]) where
  root node := by
    cases node with
    | node children childCount value => cases value <;> rfl
  pass self _ hvalue := by
    rw [pruneNode, FTree.getValue, hvalue]
    rfl
  visit self _ hheld queue hvalue hgood := by
    obtain ⟨transaction, rfl⟩ := hgood
    rw [pruneNode, FTree.getValue, hvalue]
    dsimp only
    by_cases hcompleted : (transactions transaction).status = .completed
    · have hnone : pruneQueue transactions [transaction] = none := by simp [pruneQueue, hcompleted]
      rw [hnone]
      simp [hcompleted]
      rfl
    · have hsome : pruneQueue transactions [transaction] = some [transaction] := by
        simp [pruneQueue, hcompleted]
      rw [hsome]
      simp [hcompleted, setValue_same hheld hvalue]
      rfl

theorem getD_pruneQueue (value : Option (List Nat)) : (value.bind (pruneQueue transactions)).getD [] =
      (value.getD []).filter fun transaction => (transactions transaction).status ≠ .completed := by
  cases value with
  | none => rfl
  | some queue =>
      rw [Option.bind_some, pruneQueue, Option.getD_some]
      split_ifs with hempty
      · exact (List.isEmpty_iff.mp hempty).symm
      · rfl

/-- The slots after a prune. -/
def prunedSlots (transactions : Nat → FTupleTransaction K V) (slots : TreeSlots K (List Nat))
    (path : FPath K) : TreeSlots K (List Nat) :=
  Id.run (slots.visitBelow (fun value => pure (value.bind (pruneQueue transactions)))
    (fun queue => pure (pruneQueue transactions queue).isSome) path)

theorem Formed.tree_prune (h : self.Formed slots) (path : FPath K) :
    (self.pruneCompletedTransactionsBelowPath path).transactionQueueTree =
      (prunedSlots self.transactions slots path).tree := by
  have hgood : ∀ slot ∈ slots.slots, ∃ transaction, slot.2.2 = [transaction] := fun slot hslot => by
    obtain ⟨transaction, hqueue, _⟩ := h.slot slot hslot
    exact ⟨transaction, hqueue⟩
  have hvisit := (visits_pruneNode self.transactions).visitBelow_tree h.sorted hgood path
  rw [← h.tree] at hvisit
  exact hvisit

theorem prunedSlots_root (slots : TreeSlots K (List Nat)) : prunedSlots transactions slots [] =
      ⟨slots.value.bind (pruneQueue transactions),
        slots.slots.filter fun slot => (pruneQueue transactions slot.2.2).isSome⟩ := by
  rw [prunedSlots, TreeSlots.visitBelow, keepSlots_pure fun queue => (pruneQueue transactions queue).isSome]
  rfl

/-- A prune keeps the order of the slots, and it takes away queues that it can take away. -/
theorem prunedSlots_spec (slots : TreeSlots K (List Nat)) (hsorted : Sorted (· < ·) slots.slots) (path : FPath K) :
    (prunedSlots transactions slots path).slots.Sublist slots.slots ∧
      (∀ slot ∈ slots.slots, slot ∉ (prunedSlots transactions slots path).slots →
        pruneQueue transactions slot.2.2 = none) ∧
      ((prunedSlots transactions slots path).value = slots.value ∨
        (prunedSlots transactions slots path).value = slots.value.bind (pruneQueue transactions)) := by
  cases path with
  | nil =>
      rw [prunedSlots_root]
      refine ⟨List.filter_sublist, fun slot hslot hgone => ?_, Or.inr rfl⟩
      simpa [hslot] using hgone
  | cons front rest =>
      have hsame : slots.slots.Sublist slots.slots ∧
          (∀ slot ∈ slots.slots, slot ∉ slots.slots → pruneQueue transactions slot.2.2 = none) ∧
          (slots.value = slots.value ∨ slots.value = slots.value.bind (pruneQueue transactions)) :=
        ⟨List.Sublist.refl _, fun slot hslot hgone => absurd hslot hgone, Or.inl rfl⟩
      rw [prunedSlots, TreeSlots.visitBelow]
      cases hget : get front slots.slots with
      | none => exact hsame
      | some slot =>
          obtain ⟨place, queue⟩ := slot
          dsimp only
          split_ifs with hbelow
          · cases hqueue : pruneQueue transactions queue with
            | some filtered => exact hsame
            | none =>
                refine ⟨List.filter_sublist, fun slot hslot hgone => ?_, Or.inl rfl⟩
                have hkey : slot.1 = front := by
                  by_contra hne
                  exact hgone (mem_remove.mpr ⟨hslot, hne⟩)
                obtain ⟨key, place', queue'⟩ := slot
                obtain rfl : key = front := hkey
                rw [hsorted.get_of_mem hslot] at hget
                cases hget
                exact hqueue
          · exact hsame

theorem Formed.prune (h : self.Formed slots) (path : FPath K) :
    (self.pruneCompletedTransactionsBelowPath path).Formed (prunedSlots self.transactions slots path) := by
  obtain ⟨hsub, _, hvalue⟩ := prunedSlots_spec self.transactions slots h.sorted path
  refine h.of_subset rfl (fun _ => rfl) (h.tree_prune path) (List.Pairwise.sublist hsub h.sorted) ?_
    fun slot hslot => hsub.subset hslot
  rcases hvalue with heq | heq
  · rw [heq]
    exact fun t ht => ht
  · rw [heq, getD_pruneQueue]
    exact fun t ht => List.mem_of_mem_filter ht

end FRepo

end FirebaseSwift.Database
