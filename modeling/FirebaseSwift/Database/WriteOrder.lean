import FirebaseSwift.Database.TransactionAborts

/-! Sets and updates against transactions. A write of the user aborts the transactions at related paths
when it goes on after its answer, and not when it is issued. So it aborts the ones that were started
while it waited as well. It aborts only older ones exactly if none of these is queued at a related path
by then. -/

namespace FirebaseSwift.Database

open SortedDictionary ExceptLoops StepRuns

variable {K V : Type} [DatabaseKey K]

namespace FRepo

variable {self repo repo' : FRepo K V}

/-! ### The queues in runs -/

/-- The queues have their form. -/
def HasSlots (self : FRepo K V) : Prop := ∃ slots, self.Formed slots

theorem hasSlots_initial : HasSlots (initial : FRepo K V) :=
  ⟨⟨none, []⟩, rfl, List.Pairwise.nil, by simp, by simp⟩

theorem HasSlots.steady (h : self.HasSlots) (hsteady : Steady self repo) : repo.HasSlots := by
  obtain ⟨slots, h⟩ := h
  exact ⟨slots, h.steady hsteady⟩

theorem HasSlots.prune (h : self.HasSlots) (path : FPath K) :
    (self.pruneCompletedTransactionsBelowPath path).HasSlots := by
  obtain ⟨slots, h⟩ := h
  exact ⟨_, h.prune path⟩

theorem HasSlots.sendAllReadyTransactions (h : self.HasSlots) : self.sendAllReadyTransactions.HasSlots :=
  (h.prune []).steady (steady_sendReadyTransactionsForTree [] _ _)

theorem HasSlots.withSyncTree (h : self.HasSlots) {serverSyncTree : Option (FSyncTree K V)}
    (htree : self.withSyncTree serverSyncTree = .ok repo) : repo.HasSlots :=
  h.steady (steady_withSyncTree htree)

/-- The transactions of the slots are the same when a new number is given away. -/
theorem Formed.of_register {slots : TreeSlots K (List Nat)} (h : self.Formed slots)
    (hstarted : repo.started = self.started + 1)
    (hother : ∀ t, t ≠ self.started → repo.transactions t = self.transactions t) :
    (∀ t ∈ slots.value.getD [], t < repo.started ∧ (repo.transactions t).path = []) ∧
      ∀ slot ∈ slots.slots, ∃ t, slot.2.2 = [t] ∧ t < repo.started ∧
        (repo.transactions t).path = slot.1 :: slot.2.1 := by
  have hold : ∀ t, t < self.started → t < repo.started ∧
      (repo.transactions t).path = (self.transactions t).path := by
    intro t hlt
    rw [hother t (by omega)]
    exact ⟨by omega, rfl⟩
  constructor
  · intro t ht
    obtain ⟨hlt, hpath⟩ := h.root t ht
    exact ⟨(hold t hlt).1, (hold t hlt).2.trans hpath⟩
  · intro slot hmem
    obtain ⟨t, hqueue, hlt, hpath⟩ := h.slot slot hmem
    exact ⟨t, hqueue, (hold t hlt).1, (hold t hlt).2.trans hpath⟩

theorem HasSlots.register (h : self.HasSlots) (htree : repo.transactionQueueTree = self.transactionQueueTree)
    (hstarted : repo.started = self.started + 1)
    (hother : ∀ t, t ≠ self.started → repo.transactions t = self.transactions t) : repo.HasSlots := by
  obtain ⟨slots, h⟩ := h
  obtain ⟨hroot, hslot⟩ := h.of_register hstarted hother
  exact ⟨slots, htree.trans h.tree, h.sorted, hroot, hslot⟩

/-- A new transaction joins the queue of the root, takes a free slot, or gets lost. -/
theorem HasSlots.queue (h : self.HasSlots) (path : FPath K)
    (htree : repo.transactionQueueTree = self.transactionQueueTree.setValueAt path
      (some ((self.transactionQueueTree.getValueAt path).getD [] ++ [self.started])))
    (hstarted : repo.started = self.started + 1) (hnew : (repo.transactions self.started).path = path)
    (hother : ∀ t, t ≠ self.started → repo.transactions t = self.transactions t) : repo.HasSlots := by
  obtain ⟨slots, h⟩ := h
  obtain ⟨hroot, hslot⟩ := h.of_register hstarted hother
  rw [h.tree, TreeSlots.setValueAt_tree h.sorted] at htree
  cases path with
  | nil =>
      refine ⟨_, htree, h.sorted, fun t ht => ?_, hslot⟩
      rcases List.mem_append.mp ht with ht | ht
      · exact hroot t ht
      · rw [List.mem_singleton.mp ht, hstarted]
        exact ⟨by omega, hnew⟩
  | cons front rest =>
      dsimp only at htree
      split_ifs at htree with hget
      · exact ⟨slots, htree, h.sorted, hroot, hslot⟩
      · have hnone : (slots.tree.getValueAt (front :: rest)).getD [] = [] := by
          rw [FTreeNode.getValueAt_eq, FTreeNode.nodeAt, slots.childAt_tree,
            Option.not_isSome_iff_eq_none.mp hget, Option.map_none, Option.getD_none, FTreeNode.nodeAt_empty]
          rfl
        rw [hnone, List.nil_append] at htree
        refine ⟨_, htree, h.sorted.set _ _ _, hroot, fun slot hmem => ?_⟩
        rcases mem_set _ hmem with rfl | hmem
        · exact ⟨self.started, rfl, by omega, hnew⟩
        · exact hslot slot hmem

section Calls

variable [DatabaseValue V] [QueryFilters K V]

theorem HasSlots.rerunTransactionQueue (h : self.HasSlots) {queue : List Nat}
    (hrerun : self.rerunTransactionQueue queue = .ok repo) : repo.HasSlots := by
  rw [FRepo.rerunTransactionQueue] at hrerun
  split_ifs at hrerun
  · cases hrerun
    exact h
  · obtain ⟨rerun, hloop, hresult⟩ := bind_eq_ok.mp hrerun
    cases hresult
    have hsteady : Steady self rerun.repo := foldlM_relation
      (fun before after : Rerun K V => Steady before.repo after.repo) (fun state => .refl state.repo)
      (fun hfirst hsecond => hfirst.trans hsecond) (fun _ _ _ hnext => steady_rerunTransaction hnext) hloop
    exact (((h.steady hsteady).prune []).steady (steady_fire _ _)).sendAllReadyTransactions

variable {path : FPath K} {status : FStatus} {call : RepoCall K V}

theorem HasSlots.rerunTransactionsForPath (h : self.HasSlots)
    (hrerun : self.rerunTransactionsForPath path = .ok repo) : repo.HasSlots := by
  rw [FRepo.rerunTransactionsForPath] at hrerun
  split_ifs at hrerun
  · cases hrerun
    exact h
  · exact h.rerunTransactionQueue hrerun

theorem HasSlots.abortTransactionsAtPath (h : self.HasSlots) {affectedPath : FPath K} {error : FStatus}
    (habort : self.abortTransactionsAtPath path error = .ok (repo, affectedPath)) : repo.HasSlots := by
  obtain ⟨slots, h⟩ := h
  exact (h.marked_abortTransactionsAtPath habort).1

theorem HasSlots.abortAndRerun (h : self.HasSlots) (habort : self.abortAndRerun path = .ok repo) :
    repo.HasSlots := by
  obtain ⟨⟨aborted, affectedPath⟩, haborted, hrerun⟩ := bind_eq_ok.mp habort
  exact (h.abortTransactionsAtPath haborted).rerunTransactionsForPath hrerun

theorem HasSlots.startTransactionOnPath (h : self.HasSlots)
    {update : Nat → FNode K V → Option (FNode K V × FNode K V)} {onComplete applyLocally : Bool}
    {persistenceServerCache : Option (FCacheNode K V)}
    (hstart : self.startTransactionOnPath path update onComplete applyLocally persistenceServerCache =
      .ok repo) : repo.HasSlots := by
  unfold FRepo.startTransactionOnPath at hstart
  dsimp only at hstart
  split at hstart
  · obtain ⟨applied, happlied, hresult⟩ := bind_eq_ok.mp hstart
    cases hresult
    refine HasSlots.sendAllReadyTransactions (HasSlots.steady ?_ (steady_withSyncTree happlied))
    refine h.queue path rfl rfl ?_ fun t ht => ?_
    · dsimp only
      rw [Function.update_self]
    · exact Function.update_of_ne ht _ _
  · cases hstart
    exact h.register rfl rfl fun t ht => Function.update_of_ne ht _ _

theorem HasSlots.handleTransactionPutResponse (h : self.HasSlots) {put : TransactionPut K V}
    {errorReason : Option String}
    (hresponse : self.handleTransactionPutResponse put status errorReason = .ok repo) : repo.HasSlots := by
  rw [FRepo.handleTransactionPutResponse] at hresponse
  split_ifs at hresponse
  · obtain ⟨⟨completed, callbacks⟩, hloop, hrerun⟩ := bind_eq_ok.mp hresponse
    have hsteady : Steady self completed := foldlM_relation
      (fun before after : FRepo K V × List (Nat × TransactionCompletion K V) => Steady before.1 after.1)
      (fun state => .refl state.1) (fun hfirst hsecond => hfirst.trans hsecond)
      (fun _ _ _ hnext => steady_completeTransaction hnext) hloop
    refine HasSlots.rerunTransactionsForPath ?_ hrerun
    exact (((h.steady hsteady).prune put.path).sendAllReadyTransactions).steady (steady_fire _ _)
  · refine HasSlots.rerunTransactionsForPath (h.steady ?_) hresponse
    exact steady_failTransactions status errorReason self put.queue

theorem HasSlots.ackWrite (h : self.HasSlots) {writeId : Int} {raisesEvents : Bool}
    (hack : self.ackWrite writeId path status raisesEvents = .ok repo) : repo.HasSlots := by
  rw [FRepo.ackWrite] at hack
  split_ifs at hack
  · cases hack
    exact h
  · obtain ⟨acked, hacked, hrerun⟩ := bind_eq_ok.mp hack
    exact (h.withSyncTree hacked).rerunTransactionsForPath hrerun
  · obtain ⟨acked, hacked, hrerun⟩ := bind_eq_ok.mp hack
    cases hrerun
    exact h.withSyncTree hacked

theorem HasSlots.performPart (h : self.HasSlots) {part : RepoPart K V}
    (hpart : self.performPart part = .ok repo) : repo.HasSlots := by
  cases part with
  | ackWrite writeId path status raisesEvents => exact h.ackWrite hpart
  | abortTransactions path started => exact h.abortAndRerun hpart
  | onDisconnect path resolved =>
      obtain ⟨applied, happlied, habort⟩ := bind_eq_ok.mp hpart
      exact (h.withSyncTree happlied).abortAndRerun habort
  | putResponse put status errorReason => exact h.handleTransactionPutResponse hpart

theorem HasSlots.set (h : self.HasSlots) {newNode : FNode K V} (hset : self.set path newNode = .ok repo) :
    repo.HasSlots := by
  obtain ⟨applied, happlied, hresult⟩ := bind_eq_ok.mp hset
  cases hresult
  have hcounter : Steady self { self with writeIdCounter := self.writeIdCounter + 1 } :=
    ⟨rfl, rfl, fun _ => rfl⟩
  have happly := (h.steady hcounter).withSyncTree happlied
  exact happly.steady ⟨rfl, rfl, fun _ => rfl⟩

theorem HasSlots.update (h : self.HasSlots) {nodes resolved : FCompoundWrite K V}
    (hupdate : self.update path nodes resolved = .ok repo) : repo.HasSlots := by
  rw [FRepo.update] at hupdate
  split_ifs at hupdate
  · cases hupdate
    exact h
  · obtain ⟨applied, happlied, hresult⟩ := bind_eq_ok.mp hupdate
    cases hresult
    have hcounter : Steady self { self with writeIdCounter := self.writeIdCounter + 1 } :=
      ⟨rfl, rfl, fun _ => rfl⟩
    have happly := (h.steady hcounter).withSyncTree happlied
    exact happly.steady ⟨rfl, rfl, fun _ => rfl⟩

theorem HasSlots.purgeOutstandingWrites (h : self.HasSlots)
    (hpurge : self.purgeOutstandingWrites = .ok repo) : repo.HasSlots := by
  obtain ⟨removed, hremoved, hpurge⟩ := bind_eq_ok.mp hpurge
  obtain ⟨⟨aborted, affectedPath⟩, haborted, hresult⟩ := bind_eq_ok.mp hpurge
  cases hresult
  have habort := (h.withSyncTree hremoved).abortTransactionsAtPath haborted
  exact habort.steady ⟨rfl, rfl, fun _ => rfl⟩

theorem HasSlots.perform (h : self.HasSlots) (hcall : self.perform call = some (.ok repo)) : repo.HasSlots := by
  cases call with
  | set path newNode => exact h.set (Option.some.inj hcall)
  | update path nodes resolved => exact h.update (Option.some.inj hcall)
  | answerWrite index status =>
      rw [FRepo.perform] at hcall
      split at hcall
      · cases hcall
        exact h.steady ⟨rfl, rfl, fun _ => rfl⟩
      · cases hcall
  | resumeWrite index raisesEvents =>
      rw [FRepo.perform] at hcall
      split at hcall
      · obtain ⟨status, _, hresult⟩ := Option.map_eq_some_iff.mp hcall
        cases hresult
        exact h.steady ⟨rfl, rfl, fun _ => rfl⟩
      · cases hcall
  | startTransaction path update onComplete applyLocally persistenceServerCache =>
      exact h.startTransactionOnPath (Option.some.inj hcall)
  | answerPut index status errorReason =>
      obtain ⟨put, _, hresponse⟩ := Option.map_eq_some_iff.mp hcall
      refine HasSlots.handleTransactionPutResponse (h.steady ?_) hresponse
      exact ⟨rfl, rfl, fun _ => rfl⟩
  | restoredWriteAnswered writeId path status raisesEvents => exact h.ackWrite (Option.some.inj hcall)
  | purgeOutstandingWrites => exact h.purgeOutstandingWrites (Option.some.inj hcall)
  | onDisconnect resolved =>
      cases hcall
      exact h.steady ⟨rfl, rfl, fun _ => rfl⟩
  | syncTree operation path raisesEvents =>
      obtain ⟨performed, hperformed, hrerun⟩ := bind_eq_ok.mp (Option.some.inj hcall)
      split_ifs at hrerun
      · exact (h.withSyncTree hperformed).rerunTransactionsForPath hrerun
      · cases hrerun
        exact h.withSyncTree hperformed
  | nextPart => cases hcall

theorem HasSlots.step (h : self.HasSlots) (hstep : self.step call = some repo) : repo.HasSlots := by
  unfold FRepo.step at hstep
  split at hstep
  · refine HasSlots.performPart (h.steady ?_) (toOption_eq_some.mp hstep)
    exact ⟨rfl, rfl, fun _ => rfl⟩
  · cases hstep
  · obtain ⟨result, hcall, hresult⟩ := Option.bind_eq_some_iff.mp hstep
    rw [toOption_eq_some] at hresult
    exact h.perform (hresult ▸ hcall)

end Calls

/-! ### The order of writes and transactions -/

/-- The next part of the current call, with the repo that does it. -/
def nextPart (self : FRepo K V) : RepoCall K V → Option (FRepo K V × RepoPart K V)
  | .nextPart =>
      match self.agenda with
      | part :: rest => some ({ self with agenda := rest }, part)
      | [] => none
  | _ => none

/-- When a set or an update goes on to abort transactions, every transaction that is queued at a related
path was started before it was issued, or is marked for its abort already. -/
def NoneYounger (self : FRepo K V) (call : RepoCall K V) : Prop :=
  match self.nextPart call with
  | some (before, .abortTransactions path started) =>
      ∀ transaction ∈ before.queued, Related path (before.transactions transaction).path →
        before.status transaction ≠ .sentNeedsAbort → transaction < started
  | _ => True

instance (self : FRepo K V) (call : RepoCall K V) : Decidable (self.NoneYounger call) := by
  unfold NoneYounger
  split <;> infer_instance

section Order

variable [DatabaseValue V] [QueryFilters K V]

/-- When a set or an update aborts transactions, they are at paths related to its own, and they were
started before it was issued. -/
def AbortsOnlyOlder (self : FRepo K V) (call : RepoCall K V) : Prop :=
  match self.nextPart call with
  | some (before, .abortTransactions path started) =>
      ∀ after affectedPath, before.abortTransactionsAtPath path .set = .ok (after, affectedPath) →
        ∀ transaction, Aborted before after transaction →
          Related path (before.transactions transaction).path ∧ transaction < started
  | _ => True

theorem HasSlots.abortsOnlyOlder_iff (h : self.HasSlots) {call : RepoCall K V}
    (hstep : (self.step call).isSome = true) : self.AbortsOnlyOlder call ↔ self.NoneYounger call := by
  rw [AbortsOnlyOlder, NoneYounger]
  cases call with
  | nextPart =>
      rw [nextPart]
      cases hagenda : self.agenda with
      | nil => exact Iff.rfl
      | cons part rest =>
          dsimp only
          cases part with
          | abortTransactions path started =>
              obtain ⟨repo, hrepo⟩ := Option.isSome_iff_exists.mp hstep
              unfold FRepo.step at hrepo
              rw [hagenda] at hrepo
              obtain ⟨⟨aborted, affectedPath⟩, haborted, _⟩ :=
                bind_eq_ok.mp (toOption_eq_some.mp hrepo)
              have hbefore : Steady self { self with agenda := rest } := ⟨rfl, rfl, fun _ => rfl⟩
              obtain ⟨slots, hslots⟩ := h.steady hbefore
              have hiff := (hslots.marked_abortTransactionsAtPath haborted).2
              constructor
              · intro hall transaction hqueued hrelated hunmarked
                exact (hall aborted affectedPath haborted transaction
                  ((hiff transaction).mpr ⟨⟨hqueued, hrelated⟩, hunmarked⟩)).2
              · intro hnone after path' hafter transaction habort
                rw [haborted] at hafter
                cases hafter
                obtain ⟨⟨hqueued, hrelated⟩, hunmarked⟩ := (hiff transaction).mp habort
                exact ⟨hrelated, hnone transaction hqueued hrelated hunmarked⟩
          | ackWrite writeId path status raisesEvents => exact Iff.rfl
          | onDisconnect path resolved => exact Iff.rfl
          | putResponse put status errorReason => exact Iff.rfl
  | set path newNode => exact Iff.rfl
  | update path nodes resolved => exact Iff.rfl
  | answerWrite index status => exact Iff.rfl
  | resumeWrite index raisesEvents => exact Iff.rfl
  | startTransaction path update onComplete applyLocally persistenceServerCache => exact Iff.rfl
  | answerPut index status errorReason => exact Iff.rfl
  | restoredWriteAnswered writeId path status raisesEvents => exact Iff.rfl
  | purgeOutstandingWrites => exact Iff.rfl
  | onDisconnect resolved => exact Iff.rfl
  | syncTree operation path raisesEvents => exact Iff.rfl

/-- In a run, sets and updates abort only older transactions exactly if no younger one is queued at a
related path whenever one of them goes on to abort. -/
theorem abortsOnlyOlder_run_iff (calls : List (RepoCall K V))
    (hrun : (run step (initial : FRepo K V) calls).isSome = true) :
    AllSteps step AbortsOnlyOlder (initial : FRepo K V) calls ↔
      AllSteps step NoneYounger (initial : FRepo K V) calls := by
  have hkeeps : ∀ (condition : FRepo K V → RepoCall K V → Prop) state call, HasSlots state →
      condition state call → ∀ state' ∈ step state call, HasSlots state' :=
    fun _ state call hslots _ state' hstep => hslots.step hstep
  constructor
  · intro hall
    exact hall.imp (hkeeps _) (fun state call hslots holder hstep =>
      (hslots.abortsOnlyOlder_iff hstep).mp holder) hasSlots_initial hrun
  · intro hall
    exact hall.imp (hkeeps _) (fun state call hslots hnone hstep =>
      (hslots.abortsOnlyOlder_iff hstep).mpr hnone) hasSlots_initial hrun

end Order

/-! ### A transaction that starts while a set waits -/

def leafOf (value : Int) : FNode String Int := .leaf value .empty

/-- A transaction that always writes the same leaf. -/
def startAt (path : FPath String) : RepoCall String Int :=
  .startTransaction path (fun _ _ => some (leafOf 2, leafOf 2)) true true none

/-- A set at one path, a transaction at another, and then the answer to the set and all it does after. -/
def setThenTransaction (path transactionPath : FPath String) : List (RepoCall String Int) :=
  [.set path (leafOf 1), startAt transactionPath, .answerWrite 0 .ok, .resumeWrite 0 false, .nextPart,
    .nextPart]

/-- The transaction starts after the set was issued, sees its data, and is aborted by it. -/
theorem abortsOnlyOlder_fails_for_waiting :
    ¬∀ calls : List (RepoCall String Int), (run step (initial : FRepo String Int) calls).isSome = true →
      AllSteps step AbortsOnlyOlder (initial : FRepo String Int) calls := by
  intro hall
  have holder := hall (setThenTransaction ["a"] ["a"]) (by decide +kernel)
  have hnone : AllSteps step NoneYounger (initial : FRepo String Int) (setThenTransaction ["a"] ["a"]) :=
    holder.imp (fun state call hslots _ state' hstep => HasSlots.step hslots hstep)
      (fun state call hslots hsafe hstep => (HasSlots.abortsOnlyOlder_iff hslots hstep).mp hsafe)
      hasSlots_initial (by decide +kernel)
  revert hnone
  decide +kernel

/-- A transaction beside the set is left alone. -/
theorem abortsOnlyOlder_run_iff_beside :
    AllSteps step AbortsOnlyOlder (initial : FRepo String Int) (setThenTransaction ["a"] ["b"]) ↔
      AllSteps step NoneYounger (initial : FRepo String Int) (setThenTransaction ["a"] ["b"]) :=
  abortsOnlyOlder_run_iff (setThenTransaction ["a"] ["b"]) (by decide +kernel)

/-! ### What is queued -/

/-- After every run each queued transaction was started, and below a key at most one is queued. -/
theorem queued_run [DatabaseValue V] [QueryFilters K V] {calls : List (RepoCall K V)}
    (hrun : run step (initial : FRepo K V) calls = some repo) :
    (∀ transaction ∈ repo.queued, transaction < repo.started) ∧
    ∀ key, ∀ transaction ∈ repo.queued, ∀ other ∈ repo.queued,
      (repo.transactions transaction).path.head? = some key → (repo.transactions other).path.head? = some key →
        transaction = other := by
  obtain ⟨slots, h⟩ := @history_run _ _ _ (fun _ => HasSlots) (fun _ _ _ hslots _ hstep => hslots.step hstep)
    [] calls _ _ hasSlots_initial hrun
  have hslot : ∀ key, ∀ transaction ∈ repo.queued, (repo.transactions transaction).path.head? = some key →
      ∃ along, (key, along, [transaction]) ∈ slots.slots := by
    intro key transaction hqueued hkey
    rw [h.queued_eq, List.mem_append, List.mem_flatMap] at hqueued
    rcases hqueued with hroot | ⟨slot, hmem, hin⟩
    · rw [(h.root transaction hroot).2] at hkey
      cases hkey
    · obtain ⟨found, hqueue, -, hpath⟩ := h.slot slot hmem
      rw [hqueue, List.mem_singleton] at hin
      rw [hin, hpath, List.head?_cons, Option.some_inj] at hkey
      exact ⟨slot.2.1, hkey ▸ hin ▸ hqueue ▸ hmem⟩
  constructor
  · intro transaction hqueued
    rw [h.queued_eq, List.mem_append, List.mem_flatMap] at hqueued
    rcases hqueued with hroot | ⟨slot, hmem, hin⟩
    · exact (h.root transaction hroot).1
    · obtain ⟨found, hqueue, hlt, -⟩ := h.slot slot hmem
      rw [hqueue, List.mem_singleton] at hin
      exact hin ▸ hlt
  · intro key transaction hqueued other hother hkey hkey'
    obtain ⟨along, hmem⟩ := hslot key transaction hqueued hkey
    obtain ⟨along', hmem'⟩ := hslot key other hother hkey'
    have hget := (h.sorted.get_of_mem hmem).symm.trans (h.sorted.get_of_mem hmem')
    cases hget
    rfl

/-- Two transactions at one path -/
theorem queued_run_startAt : ∃ repo, run step (initial : FRepo String Int) [startAt ["a"], startAt ["a"]] = some repo ∧
    ∀ transaction ∈ repo.queued, transaction < repo.started :=
  (Option.isSome_iff_exists.mp (by decide +kernel)).imp fun _ hrun => ⟨hrun, (queued_run hrun).1⟩

end FRepo

end FirebaseSwift.Database
