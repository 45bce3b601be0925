import FirebaseSwift.Database.TransactionQueues

/-! What the aborts for a path do. The loop of a queue treats the queue's transactions in the same way at
every node: it marks the sent ones, ends the others, and clears the queue if none was sent so far. The
queues above, at and below the path are gone through one after the other. -/

namespace FirebaseSwift.Database

open SortedDictionary ExceptLoops

variable {K V : Type} [DatabaseKey K]

namespace FRepo

variable {self repo repo' : FRepo K V}

/-! ### The loop of a queue -/

/-- The same loop at another node. -/
def AbortLoop.withNode (self : AbortLoop K V) (node : FTree K (List Nat)) : AbortLoop K V :=
  { self with node := node }

/-- The node after a loop, given whether its queue is still there. -/
def keepNode (node : FTree K (List Nat)) (keep : Bool) : FTree K (List Nat) :=
  if keep then node else node.setValue none

theorem setValue_keepNode (node : FTree K (List Nat)) (keep : Bool) :
    (keepNode node keep).setValue none = keepNode node false := by
  cases keep with
  | true => rfl
  | false => exact FTree.setValue_setValue node none

theorem AbortLoop.clear_withNode (self : AbortLoop K V) (node : FTree K (List Nat)) :
    (self.withNode (keepNode node self.node.getValue.isSome)).clear =
      self.clear.map fun loop => loop.withNode (keepNode node loop.node.getValue.isSome) := by
  have hlast : (self.withNode (keepNode node self.node.getValue.isSome)).lastSent = self.lastSent := rfl
  have hqueue : (self.withNode (keepNode node self.node.getValue.isSome)).queue = self.queue := rfl
  rw [clear, clear, hlast, hqueue]
  by_cases hsent : self.lastSent = -1
  · rw [if_pos hsent, if_pos hsent]
    dsimp only [withNode]
    rw [setValue_keepNode]
    rfl
  · rw [if_neg hsent, if_neg hsent]
    cases removeLast self.queue (self.queue.length - (self.lastSent + 1)) <;> rfl

section Loop

variable [DatabaseValue V] [QueryFilters K V]
variable (error : FStatus) {transaction : Nat}

theorem AbortLoop.mark_withNode (self : AbortLoop K V) (node : FTree K (List Nat)) (transaction : Nat) :
    (self.withNode node).mark error transaction =
      (self.mark error transaction).map fun loop => loop.withNode node := by
  have hrepo : (self.withNode node).repo = self.repo := rfl
  rw [mark, mark, hrepo]
  dsimp only
  by_cases hmarked : (self.repo.transactions transaction).status = .sentNeedsAbort
  · rw [if_pos hmarked, if_pos hmarked]
    rfl
  rw [if_neg hmarked, if_neg hmarked]
  by_cases hsent : (self.repo.transactions transaction).status = .sent
  · rw [if_pos hsent, if_pos hsent]
    rfl
  rw [if_neg hsent, if_neg hsent]
  by_cases herror : error = .set
  · rw [if_pos herror, if_pos herror]
    cases (self.repo.modify transaction FTupleTransaction.unwatch).ackUserWrite
      (self.repo.transactions transaction).currentWriteId true <;> rfl
  · rw [if_neg herror, if_neg herror]
    rfl

/-- The callback of a transaction that an abort ends. -/
def abortCallback (error : FStatus) (self : FRepo K V) (transaction : Nat) :
    List (Nat × TransactionCompletion K V) :=
  if (self.transactions transaction).onComplete then [(transaction, ⟨errorFor error none, false, none⟩)]
  else []

theorem AbortLoop.mark_cases {error : FStatus} {self loop : AbortLoop K V}
    (h : self.mark error transaction = .ok loop) : (self.repo.status transaction = .sentNeedsAbort ∧ loop = self) ∨
    (self.repo.status transaction = .sent ∧
      loop = { self with
        lastSent := self.lastSent + 1
        repo := (self.repo.setStatus transaction .sentNeedsAbort).modify transaction fun record =>
          record.setAbortStatus (some error) none }) ∨
    (self.repo.status transaction ≠ .sentNeedsAbort ∧ self.repo.status transaction ≠ .sent ∧
      ∃ serverSyncTree, loop = { self with
        repo := { self.repo.modify transaction .unwatch with serverSyncTree := serverSyncTree }
        callbacks := self.callbacks ++ abortCallback error self.repo transaction }) := by
  rw [mark] at h
  dsimp only at h
  by_cases hmarked : (self.repo.transactions transaction).status = .sentNeedsAbort
  · rw [if_pos hmarked] at h
    cases h
    exact Or.inl ⟨hmarked, rfl⟩
  rw [if_neg hmarked] at h
  by_cases hsent : (self.repo.transactions transaction).status = .sent
  · rw [if_pos hsent] at h
    cases h
    exact Or.inr (Or.inl ⟨hsent, rfl⟩)
  rw [if_neg hsent] at h
  refine Or.inr (Or.inr ⟨hmarked, hsent, ?_⟩)
  by_cases herror : error = .set
  · rw [if_pos herror] at h
    obtain ⟨reverted, hreverted, hresult⟩ := bind_eq_ok.mp h
    obtain ⟨tree, rfl⟩ := withSyncTree_eq_ok hreverted
    cases hresult
    exact ⟨tree, rfl⟩
  · rw [if_neg herror] at h
    obtain ⟨reverted, hreverted, hresult⟩ := bind_eq_ok.mp h
    cases hreverted
    cases hresult
    exact ⟨self.repo.serverSyncTree, rfl⟩

theorem AbortLoop.node_mark {error : FStatus} {self loop : AbortLoop K V}
    (h : self.mark error transaction = .ok loop) : loop.node = self.node := by
  rcases mark_cases h with ⟨_, rfl⟩ | ⟨_, rfl⟩ | ⟨_, _, tree, rfl⟩
  · rfl
  · rfl
  · rfl

theorem AbortLoop.next_withNode (self : AbortLoop K V) (node : FTree K (List Nat)) (transaction : Nat) :
    (self.withNode (keepNode node self.node.getValue.isSome)).next error transaction =
      (self.next error transaction).map fun loop =>
        loop.withNode (keepNode node loop.node.getValue.isSome) := by
  rw [next, next, mark_withNode]
  cases hmark : self.mark error transaction with
  | error stop => rfl
  | ok marked =>
      have hclear := marked.clear_withNode node
      rw [node_mark hmark] at hclear
      change (marked.withNode (keepNode node self.node.getValue.isSome)).clear >>= _ =
        (marked.clear >>= _).map _
      rw [hclear]
      cases marked.clear <;> rfl

theorem AbortLoop.foldlM_withNode (self : AbortLoop K V) (node : FTree K (List Nat)) (queue : List Nat) :
    queue.foldlM (next error) (self.withNode (keepNode node self.node.getValue.isSome)) =
      (queue.foldlM (next error) self).map fun loop =>
        loop.withNode (keepNode node loop.node.getValue.isSome) := by
  induction queue generalizing self with
  | nil => rfl
  | cons transaction rest ih =>
      rw [List.foldlM_cons, List.foldlM_cons, next_withNode]
      cases hnext : self.next error transaction with
      | error stop => rfl
      | ok loop => exact ih loop

/-- The loop of a queue at a node of its own, and whether the queue is still there at the end. -/
def abortQueue (error : FStatus) (queue : List Nat) : StateT (FRepo K V) (Except RepoStop) Bool :=
  fun repo => do
    let loop ← queue.foldlM (AbortLoop.next error)
      ⟨.ofRoot (FTreeNode.empty.setValue (some queue)), repo, queue, [], -1⟩
    return (loop.node.getValue.isSome, loop.repo)

theorem abortTransactionsAtNode_eq (node : FTree K (List Nat)) {queue : List Nat}
    (hvalue : node.getValue = some queue) :
    (abortTransactionsAtNode error node : StateT (FRepo K V) (Except RepoStop) (FTree K (List Nat))) =
      keepNode node <$> abortQueue error queue := by
  funext repo
  have hloop := AbortLoop.foldlM_withNode error
    ⟨.ofRoot (FTreeNode.empty.setValue (some queue)), repo, queue, [], -1⟩ node queue
  rw [abortTransactionsAtNode, hvalue]
  refine (congrArg (· >>= _) hloop).trans ?_
  change _ = (do
    let (keep, after) ← abortQueue error queue repo
    pure (keepNode node keep, after))
  rw [abortQueue]
  cases queue.foldlM (AbortLoop.next error)
    (⟨.ofRoot (FTreeNode.empty.setValue (some queue)), repo, queue, [], -1⟩ : AbortLoop K V) <;> rfl

/-- The visit of the root's queue. -/
def abortRootQueue (error : FStatus) :
    Option (List Nat) → StateT (FRepo K V) (Except RepoStop) (Option (List Nat))
  | none => pure none
  | some queue => (fun keep : Bool => if keep then some queue else none) <$> abortQueue error queue

theorem visits_abortTransactionsAtNode : FTree.Visits
      (abortTransactionsAtNode error :
        FTree K (List Nat) → StateT (FRepo K V) (Except RepoStop) (FTree K (List Nat)))
      (abortRootQueue error) (abortQueue error) (fun _ => True) where
  root node := by
    cases node with
    | node children childCount value =>
        cases value with
        | none => rfl
        | some queue =>
            rw [abortTransactionsAtNode_eq error _ rfl, FTreeNode.value_node, abortRootQueue, Functor.map_map]
            congr 1
            funext keep
            cases keep <;> rfl
  pass self _ hvalue := by
    funext repo
    rw [abortTransactionsAtNode, FTree.getValue, hvalue]
    rfl
  visit self _ _ queue hvalue _ := abortTransactionsAtNode_eq error self hvalue

/-- The aborts for a path go through the queues of the slots. -/
theorem Formed.abortTransactionsAtPath {slots : TreeSlots K (List Nat)} (h : self.Formed slots)
    {path affectedPath : FPath K} {error : FStatus}
    (habort : self.abortTransactionsAtPath path error = .ok (repo, affectedPath)) :
    self.transactionQueueTree.isEmpty = true ∧ repo = self ∨
    ∃ slots' aborted, repo = { aborted with transactionQueueTree := slots'.tree } ∧
      ((slots.visits path).foldlM
        (TreeSlots.visitSlot (abortRootQueue error) (abortQueue error)) slots).run self =
          .ok (slots', aborted) := by
  rw [FRepo.abortTransactionsAtPath] at habort
  split_ifs at habort with hempty
  · cases habort
    exact Or.inl ⟨hempty, rfl⟩
  · right
    obtain ⟨⟨visited, aborted⟩, hvisit, hresult⟩ := bind_eq_ok.mp habort
    cases hresult
    have hslots := (visits_abortTransactionsAtNode (V := V) error).visitRelated_tree h.sorted
      (fun _ _ => trivial) path
    rw [← h.tree, FTree.visitRelated_eq_foldlM _ _ slots h.sorted] at hslots
    have hrun := congrFun hslots self
    have hleft : (FTree.root <$> ((FTree.ofRoot self.transactionQueueTree).subTree path).visitRelated
        (abortTransactionsAtNode error) : StateT (FRepo K V) (Except RepoStop) _) self =
          .ok (visited.root, aborted) := by
      change (((FTree.ofRoot self.transactionQueueTree).subTree path).visitRelated
        (abortTransactionsAtNode error)).run self >>= _ = _
      rw [hvisit]
      rfl
    rw [hleft] at hrun
    obtain ⟨⟨slots', after⟩, hfold, hafter⟩ := bind_eq_ok.mp hrun.symm
    have hpair := Except.ok.inj hafter
    rw [← (Prod.mk.inj hpair).1, ← (Prod.mk.inj hpair).2]
    exact ⟨slots', after, rfl, hfold⟩

end Loop

/-! ### What is aborted -/

/-- Between two states a transaction is marked for its abort, or its unwatcher is called. -/
def Aborted (before after : FRepo K V) (transaction : Nat) : Prop :=
  before.status transaction ≠ .sentNeedsAbort ∧ after.status transaction = .sentNeedsAbort ∨
    (before.transactions transaction).unwatched < (after.transactions transaction).unwatched

/-- Between two states the transactions of a queue are aborted, except for the ones that are marked
already, and no others. -/
structure Marked (before after : FRepo K V) (queue : List Nat) : Prop where
  steady : Steady before after
  stays : ∀ transaction, before.status transaction = .sentNeedsAbort →
    after.status transaction = .sentNeedsAbort
  unwatched_le : ∀ transaction,
    (before.transactions transaction).unwatched ≤ (after.transactions transaction).unwatched
  aborted_iff : ∀ transaction, Aborted before after transaction ↔
    transaction ∈ queue ∧ before.status transaction ≠ .sentNeedsAbort

theorem Marked.refl (self : FRepo K V) : Marked self self [] where
  steady := .refl self
  stays _ h := h
  unwatched_le _ := Nat.le_refl _
  aborted_iff transaction := by simp [Aborted]

theorem Marked.trans {queue queue' : List Nat} (h : Marked self repo queue)
    (h' : Marked repo repo' queue') : Marked self repo' (queue ++ queue') where
  steady := h.steady.trans h'.steady
  stays transaction hstatus := h'.stays transaction (h.stays transaction hstatus)
  unwatched_le transaction := (h.unwatched_le transaction).trans (h'.unwatched_le transaction)
  aborted_iff transaction := by
    have hfirst := h.aborted_iff transaction
    have hsecond := h'.aborted_iff transaction
    have hle := h.unwatched_le transaction
    have hle' := h'.unwatched_le transaction
    have hstays := h.stays transaction
    have hstays' := h'.stays transaction
    unfold Aborted at hfirst hsecond ⊢
    rw [List.mem_append]
    by_cases hmarked : repo.status transaction = .sentNeedsAbort
    · have hend := hstays' hmarked
      constructor
      · rintro (⟨hne, _⟩ | hlt)
        · exact (hfirst.mp (Or.inl ⟨hne, hmarked⟩)).imp_left Or.inl
        · by_cases hbefore : (self.transactions transaction).unwatched <
              (repo.transactions transaction).unwatched
          · exact (hfirst.mp (Or.inr hbefore)).imp_left Or.inl
          · exact absurd hmarked (hsecond.mp (Or.inr (by omega))).2
      · rintro ⟨_, hne⟩
        exact Or.inl ⟨hne, hend⟩
    · have hstart : self.status transaction ≠ .sentNeedsAbort := fun heq => hmarked (hstays heq)
      constructor
      · rintro (⟨hne, hend⟩ | hlt)
        · exact ⟨Or.inr (hsecond.mp (Or.inl ⟨hmarked, hend⟩)).1, hne⟩
        · by_cases hbefore : (self.transactions transaction).unwatched <
              (repo.transactions transaction).unwatched
          · exact (hfirst.mp (Or.inr hbefore)).imp_left Or.inl
          · exact ⟨Or.inr (hsecond.mp (Or.inr (by omega))).1, hstart⟩
      · rintro ⟨hmem | hmem, hne⟩
        · rcases hfirst.mpr ⟨hmem, hne⟩ with ⟨_, heq⟩ | hlt
          · exact absurd heq hmarked
          · exact Or.inr (by omega)
        · rcases hsecond.mpr ⟨hmem, hmarked⟩ with ⟨_, hend⟩ | hlt
          · exact Or.inl ⟨hne, hend⟩
          · exact Or.inr (by omega)

theorem transactions_fire (self : FRepo K V) (callbacks : List (Nat × TransactionCompletion K V))
    (transaction : Nat) : (self.fire callbacks).transactions transaction =
      { self.transactions transaction with
        completions := (self.transactions transaction).completions ++
          (callbacks.filter fun callback => callback.1 = transaction).map Prod.snd } := by
  induction callbacks generalizing self with
  | nil => simp [fire]
  | cons callback rest ih =>
      have hcons : self.fire (callback :: rest) = (self.modify callback.1 fun record =>
          { record with completions := record.completions ++ [callback.2] }).fire rest := rfl
      rw [hcons, ih, transactions_modify]
      by_cases heq : transaction = callback.1
      · subst heq
        simp
      · simp [heq, Ne.symm heq]

/-- The calls of completion blocks change nothing that an abort is about. -/
theorem Marked.fire {queue : List Nat} (h : Marked self repo queue)
    (callbacks : List (Nat × TransactionCompletion K V)) : Marked self (repo.fire callbacks) queue where
  steady := h.steady.trans (steady_fire repo callbacks)
  stays transaction hstatus := by
    rw [status, transactions_fire]
    exact h.stays transaction hstatus
  unwatched_le transaction := by
    rw [transactions_fire]
    exact h.unwatched_le transaction
  aborted_iff transaction := by
    rw [← h.aborted_iff, Aborted, Aborted, status, status, transactions_fire]
    rfl

theorem marked_of_modify {transaction : Nat} (hsteady : Steady self repo)
    (hother : ∀ other, other ≠ transaction → repo.transactions other = self.transactions other)
    (hunmarked : self.status transaction ≠ .sentNeedsAbort) (hchange : repo.status transaction = .sentNeedsAbort ∧
        (repo.transactions transaction).unwatched = (self.transactions transaction).unwatched ∨
      (repo.transactions transaction).unwatched = (self.transactions transaction).unwatched + 1) :
    Marked self repo [transaction] where
  steady := hsteady
  stays other hstatus := by
    have hne : other ≠ transaction := by
      rintro rfl
      exact hunmarked hstatus
    rw [status, hother other hne]
    exact hstatus
  unwatched_le other := by
    by_cases heq : other = transaction
    · subst heq
      omega
    · rw [hother other heq]
  aborted_iff other := by
    rw [List.mem_singleton]
    by_cases heq : other = transaction
    · subst heq
      refine iff_of_true ?_ ⟨rfl, hunmarked⟩
      rcases hchange with ⟨hmarked, _⟩ | hunwatched
      · exact Or.inl ⟨hunmarked, hmarked⟩
      · exact Or.inr (by omega)
    · refine iff_of_false ?_ fun h => heq h.1
      rw [Aborted, status, status, hother other heq]
      rintro (⟨hne, hsame⟩ | hlt)
      · exact hne hsame
      · exact Nat.lt_irrefl _ hlt

theorem AbortLoop.repo_clear {self loop : AbortLoop K V} (h : self.clear = .ok loop) :
    loop.repo = self.repo ∧ loop.callbacks = self.callbacks := by
  rw [clear] at h
  split_ifs at h
  · cases h
    exact ⟨rfl, rfl⟩
  · obtain ⟨queue, _, rfl⟩ := map_eq_ok.mp h
    exact ⟨rfl, rfl⟩

section Marks

variable [DatabaseValue V] [QueryFilters K V]
variable {error : FStatus} {transaction : Nat}

theorem AbortLoop.marked_mark {self loop : AbortLoop K V} (h : self.mark error transaction = .ok loop) :
    Marked self.repo loop.repo [transaction] := by
  rcases mark_cases h with ⟨hmarked, rfl⟩ | ⟨hsent, rfl⟩ | ⟨hmarked, hsent, tree, rfl⟩
  · refine ⟨.refl _, fun _ h => h, fun _ => Nat.le_refl _, fun other => ?_⟩
    constructor
    · rintro (⟨hne, heq⟩ | hlt)
      · exact absurd heq hne
      · exact absurd hlt (Nat.lt_irrefl _)
    · rintro ⟨hmem, hne⟩
      rw [List.mem_singleton.mp hmem] at hne
      exact absurd hmarked hne
  · have hne : self.repo.status transaction ≠ .sentNeedsAbort := by
      rw [hsent]
      decide
    refine marked_of_modify ?_ (fun other hother => ?_) hne (Or.inl ⟨?_, ?_⟩)
    · have habort := steady_modify (self.repo.setStatus transaction .sentNeedsAbort) transaction
        (fun record => (rfl : (record.setAbortStatus (some error) none).path = record.path))
      exact (steady_setStatus self.repo transaction .sentNeedsAbort).trans habort
    · rw [transactions_modify, if_neg hother, setStatus, transactions_modify, if_neg hother]
    · rw [status, transactions_modify, if_pos rfl, setStatus, transactions_modify, if_pos rfl]
      rfl
    · rw [transactions_modify, if_pos rfl, setStatus, transactions_modify, if_pos rfl]
      rfl
  · refine marked_of_modify ?_ (fun other hother => ?_) hmarked (Or.inr ?_)
    · have hunwatch := steady_modify self.repo transaction (fun record => (rfl : record.unwatch.path = _))
      exact ⟨hunwatch.tree, hunwatch.started, hunwatch.path⟩
    · exact Function.update_of_ne hother _ _
    · change ((self.repo.modify transaction .unwatch).transactions transaction).unwatched = _
      rw [transactions_modify, if_pos rfl]
      rfl

theorem AbortLoop.marked_next {self loop : AbortLoop K V} (h : self.next error transaction = .ok loop) :
    Marked self.repo loop.repo [transaction] := by
  obtain ⟨marked, hmark, h⟩ := bind_eq_ok.mp h
  obtain ⟨cleared, hclear, hresult⟩ := bind_eq_ok.mp h
  cases hresult
  obtain ⟨hrepo, hcallbacks⟩ := repo_clear hclear
  dsimp only
  rw [hrepo]
  exact (marked_mark hmark).fire cleared.callbacks

theorem marked_abortQueue {queue : List Nat} {keep : Bool}
    (h : (abortQueue error queue).run self = .ok (keep, repo)) : Marked self repo queue := by
  obtain ⟨loop, hloop, hresult⟩ := bind_eq_ok.mp h
  cases hresult
  have hinvariant := foldlM_invariant
    (fun rest (loop : AbortLoop K V) => ∃ done, done ++ rest = queue ∧ Marked self loop.repo done)
    (fun transaction rest before after hbefore hnext => by
      obtain ⟨done, hdone, hmarked⟩ := hbefore
      exact ⟨done ++ [transaction], by rw [← hdone, List.append_assoc]; rfl,
        hmarked.trans (AbortLoop.marked_next hnext)⟩)
    ⟨[], rfl, .refl self⟩ hloop
  obtain ⟨done, hdone, hmarked⟩ := hinvariant
  rw [List.append_nil] at hdone
  exact hdone ▸ hmarked

end Marks

/-! ### All queues of a path -/

/-- The transactions that a visit finds. -/
def transactionsAt (slots : TreeSlots K (List Nat)) : Option K → List Nat
  | none => slots.value.getD []
  | some key => ((get key slots.slots).map Prod.snd).getD []

variable {slots : TreeSlots K (List Nat)}

theorem nodup_visits (hsorted : Sorted (· < ·) slots.slots) (path : FPath K) : (slots.visits path).Nodup := by
  cases path with
  | nil =>
      refine List.nodup_cons.mpr ⟨by simp, ?_⟩
      have hkeys : (slots.slots.map fun slot => some slot.1) = (slots.slots.map Prod.fst).map some := by
        rw [List.map_map]
        rfl
      rw [hkeys]
      exact hsorted.nodup_keys.map (Option.some_injective K)
  | cons front rest =>
      rw [TreeSlots.visits]
      cases get front slots.slots with
      | none => simp
      | some slot =>
          dsimp only
          split_ifs <;> simp

/-- The paths above, at and below a path. -/
def Related (path other : FPath K) : Prop := path <+: other ∨ other <+: path

instance (path other : FPath K) : Decidable (Related path other) :=
  inferInstanceAs (Decidable (_ ∨ _))

theorem none_mem_visits (slots : TreeSlots K (List Nat)) (path : FPath K) : none ∈ slots.visits path := by
  cases path with
  | nil => exact List.mem_cons_self
  | cons front rest =>
      rw [TreeSlots.visits]
      cases get front slots.slots with
      | none => simp
      | some slot =>
          dsimp only
          split_ifs <;> simp

theorem some_mem_visits_cons {front key : K} {rest : FPath K} : some key ∈ slots.visits (front :: rest) ↔
      key = front ∧ ∃ slot, get front slots.slots = some slot ∧ Related rest slot.1 := by
  rw [TreeSlots.visits]
  cases hget : get front slots.slots with
  | none => simp
  | some slot =>
      obtain ⟨place, queue⟩ := slot
      dsimp only [Related]
      split_ifs with hbelow habove
      · simp [hbelow]
      · simp [habove]
      · simp [hbelow, habove]

theorem Formed.mem_visits_iff (h : self.Formed slots) (path : FPath K) (transaction : Nat) :
    transaction ∈ (slots.visits path).flatMap (transactionsAt slots) ↔
      transaction ∈ self.queued ∧ Related path (self.transactions transaction).path := by
  rw [h.queued_eq, List.mem_flatMap, List.mem_append, List.mem_flatMap]
  have hslot : ∀ {key : K} {place : FPath K} {queue : List Nat},
      get key slots.slots = some (place, queue) → transaction ∈ queue →
        (self.transactions transaction).path = key :: place := by
    intro key place queue hget hmem
    obtain ⟨transaction', hqueue, _, hpath⟩ := h.slot _ (mem_of_get hget)
    rw [show queue = [transaction'] from hqueue, List.mem_singleton] at hmem
    exact hmem ▸ hpath
  cases path with
  | nil =>
      constructor
      · rintro ⟨visit, hvisit, hmem⟩
        refine ⟨?_, Or.inl List.nil_prefix⟩
        rcases List.mem_cons.mp hvisit with rfl | hvisit
        · exact Or.inl hmem
        · obtain ⟨⟨key, place, queue⟩, hslots, rfl⟩ := List.mem_map.mp hvisit
          rw [transactionsAt, h.sorted.get_of_mem hslots] at hmem
          exact Or.inr ⟨_, hslots, hmem⟩
      · rintro ⟨hroot | ⟨⟨key, place, queue⟩, hslots, hmem⟩, _⟩
        · exact ⟨none, List.mem_cons_self, hroot⟩
        · refine ⟨some key, List.mem_cons_of_mem _ (List.mem_map.mpr ⟨_, hslots, rfl⟩), ?_⟩
          rw [transactionsAt, h.sorted.get_of_mem hslots]
          exact hmem
  | cons front rest =>
      constructor
      · rintro ⟨visit, hvisit, hmem⟩
        cases visit with
        | none =>
            refine ⟨Or.inl hmem, ?_⟩
            rw [(h.root transaction hmem).2]
            exact Or.inr List.nil_prefix
        | some key =>
            obtain ⟨rfl, ⟨place, queue⟩, hget, hrelated⟩ := some_mem_visits_cons.mp hvisit
            rw [transactionsAt, hget] at hmem
            refine ⟨Or.inr ⟨_, mem_of_get hget, hmem⟩, ?_⟩
            rw [hslot hget hmem]
            exact hrelated.imp (List.cons_prefix_cons.mpr ⟨rfl, ·⟩) (List.cons_prefix_cons.mpr ⟨rfl, ·⟩)
      · rintro ⟨hroot | ⟨⟨key, place, queue⟩, hslots, hmem⟩, hrelated⟩
        · exact ⟨none, none_mem_visits slots _, hroot⟩
        · have hget := h.sorted.get_of_mem hslots
          rw [hslot hget hmem] at hrelated
          have hkey : key = front ∧ Related rest place := by
            rcases hrelated with hpre | hpre
            · obtain ⟨hkey, hbelow⟩ := List.cons_prefix_cons.mp hpre
              exact ⟨hkey.symm, Or.inl hbelow⟩
            · obtain ⟨hkey, habove⟩ := List.cons_prefix_cons.mp hpre
              exact ⟨hkey, Or.inr habove⟩
          obtain ⟨rfl, hplace⟩ := hkey
          refine ⟨some key, some_mem_visits_cons.mpr ⟨rfl, _, hget, hplace⟩, ?_⟩
          rw [transactionsAt, hget]
          exact hmem

theorem Formed.queued_of_isEmpty (h : self.Formed slots) (hempty : self.transactionQueueTree.isEmpty = true) :
    self.queued = [] := by
  rw [h.tree, (TreeSlots.wellFormed_tree h.sorted).isEmpty_iff] at hempty
  have hslots : slots.slots = [] := List.map_eq_nil_iff.mp hempty.1
  have hvalue : slots.value = none := hempty.2
  rw [h.queued_eq, hslots, hvalue]
  rfl

section Visits

variable [DatabaseValue V] [QueryFilters K V]
variable {error : FStatus}

theorem transactionsAt_visitSlot {slots slots' : TreeSlots K (List Nat)} {visit : Option K}
    (h : (slots.visitSlot (abortRootQueue error) (abortQueue error) visit).run self = .ok (slots', repo)) :
    Marked self repo (transactionsAt slots visit) ∧
      (∀ other, other ≠ visit → transactionsAt slots' other = transactionsAt slots other) ∧
      slots'.slots.Sublist slots.slots ∧
      ∀ transaction ∈ slots'.value.getD [], transaction ∈ slots.value.getD [] := by
  cases visit with
  | none =>
      obtain ⟨⟨value, after⟩, hvisit, hresult⟩ := bind_eq_ok.mp h
      cases hresult
      cases hvalue : slots.value with
      | none =>
          rw [hvalue] at hvisit
          cases hvisit
          refine ⟨?_, fun other hother => ?_, List.Sublist.refl _, fun t ht => ht⟩
          · rw [transactionsAt, hvalue]
            exact .refl self
          · cases other with
            | none => exact absurd rfl hother
            | some key => rfl
      | some queue =>
          rw [hvalue] at hvisit
          obtain ⟨⟨keep, after'⟩, hqueue, hkeep⟩ := bind_eq_ok.mp hvisit
          cases hkeep
          refine ⟨?_, fun other hother => ?_, List.Sublist.refl _, fun t ht => ?_⟩
          · rw [transactionsAt, hvalue]
            exact marked_abortQueue hqueue
          · cases other with
            | none => exact absurd rfl hother
            | some key => rfl
          · cases keep with
            | true => exact ht
            | false => cases ht
  | some key =>
      rw [TreeSlots.visitSlot] at h
      cases hget : get key slots.slots with
      | none =>
          rw [hget] at h
          cases h
          refine ⟨?_, fun other hother => rfl, List.Sublist.refl _, fun t ht => ht⟩
          rw [transactionsAt, hget]
          exact .refl self
      | some slot =>
          obtain ⟨place, queue⟩ := slot
          rw [hget] at h
          obtain ⟨⟨keep, after⟩, hqueue, hresult⟩ := bind_eq_ok.mp h
          cases hresult
          refine ⟨?_, fun other hother => ?_, ?_, fun t ht => ht⟩
          · rw [transactionsAt, hget]
            exact marked_abortQueue hqueue
          · cases other with
            | none => rfl
            | some other =>
                cases keep with
                | true => rfl
                | false =>
                    have hne : other ≠ key := fun heq => hother (congrArg some heq)
                    have hremove := get_remove key other slots.slots
                    rw [if_neg hne] at hremove
                    rw [transactionsAt, transactionsAt]
                    exact congrArg (fun slot => (Option.map Prod.snd slot).getD []) hremove
          · cases keep with
            | true => exact List.Sublist.refl _
            | false => exact List.filter_sublist

/-- The aborts for a path abort exactly the queued transactions at related paths, except for the ones
that are marked already. -/
theorem Formed.marked_abortTransactionsAtPath {slots : TreeSlots K (List Nat)} (h : self.Formed slots)
    {path affectedPath : FPath K} (habort : self.abortTransactionsAtPath path error = .ok (repo, affectedPath)) :
    (∃ slots', repo.Formed slots') ∧
      ∀ transaction, Aborted self repo transaction ↔
        (transaction ∈ self.queued ∧ Related path (self.transactions transaction).path) ∧
          self.status transaction ≠ .sentNeedsAbort := by
  rcases h.abortTransactionsAtPath habort with ⟨hempty, rfl⟩ | ⟨slots', aborted, rfl, hvisits⟩
  · refine ⟨⟨slots, h⟩, fun transaction => ?_⟩
    rw [h.queued_of_isEmpty hempty]
    refine iff_of_false ?_ (by simp)
    rintro (⟨hne, heq⟩ | hlt)
    · exact hne heq
    · exact Nat.lt_irrefl _ hlt
  · -- the visits that are done have marked what was queued at the start
    have hinvariant := foldlM_stateT_invariant
      (fun rest (current : TreeSlots K (List Nat)) (state : FRepo K V) =>
        ∃ done, done ++ rest = slots.visits path ∧
          Marked self state (done.flatMap (transactionsAt slots)) ∧
          (∀ visit ∈ rest, transactionsAt current visit = transactionsAt slots visit) ∧
          current.slots.Sublist slots.slots ∧
          ∀ transaction ∈ current.value.getD [], transaction ∈ slots.value.getD [])
      (fun visit rest current state current' state' hbefore hvisit => by
        obtain ⟨done, hdone, hmarked, hsame, hsub, hroot⟩ := hbefore
        obtain ⟨hnext, hother, hsub', hroot'⟩ := transactionsAt_visitSlot hvisit
        have hnodup := nodup_visits h.sorted path
        rw [← hdone] at hnodup
        have hnot := (List.nodup_cons.mp hnodup.of_append_right).1
        refine ⟨done ++ [visit], by rw [← hdone, List.append_assoc]; rfl, ?_, fun other hmem => ?_,
          hsub'.trans hsub, fun transaction hmem => hroot transaction (hroot' transaction hmem)⟩
        · rw [List.flatMap_append, List.flatMap_singleton, ← hsame visit List.mem_cons_self]
          exact hmarked.trans hnext
        · have hne : other ≠ visit := by
            rintro rfl
            exact hnot hmem
          rw [hother other hne, hsame other (List.mem_cons_of_mem _ hmem)])
      ⟨[], rfl, .refl self, fun _ _ => rfl, List.Sublist.refl _, fun _ hmem => hmem⟩ hvisits
    obtain ⟨done, hdone, hmarked, _, hsub, hroot⟩ := hinvariant
    rw [List.append_nil] at hdone
    rw [hdone] at hmarked
    refine ⟨⟨slots', h.of_subset hmarked.steady.started hmarked.steady.path rfl
      (List.Pairwise.sublist hsub h.sorted) hroot fun slot hslot => hsub.subset hslot⟩, fun transaction => ?_⟩
    rw [← h.mem_visits_iff]
    exact hmarked.aborted_iff transaction

end Visits

end FRepo

end FirebaseSwift.Database
