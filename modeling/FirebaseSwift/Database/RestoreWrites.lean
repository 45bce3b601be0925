import FirebaseSwift.Database.PendingWrites

/-! Restoring the persisted writes of a repo. At start-up a task sends every persisted write and waits
for its answer before it goes on with the next one, while sets, updates and transactions of the user
run whenever it waits. Writes of the task and of the user share the counter of the write ids, the
pending write tree and the persistent storage. The task adds a write to the tree only after its
answer, so that no answer finds the write it is for; and it sets the counter to the id after the one
of the write it sends, so that ids are handed out in order only as long as the user's writes do not
reach the next persisted one. -/

namespace FirebaseSwift.Database

open SortedDictionary

variable {K V : Type} [DatabaseKey K]

/-- The status of an answer of the server: ok, the one of purged writes, or another error. -/
inductive WriteStatus where
  | ok
  | writeCanceled
  | failed
  deriving DecidableEq

/-- Where the task of `restoreWrites` is: not started, waiting for the answer to a write with the
others still to come, at its end, or stopped by its check of the order. -/
inductive RestoreLoop (K V : Type) [DatabaseKey K] where
  | notStarted
  | awaiting (write : FWriteRecord K V) (remaining : List (FWriteRecord K V))
  | finished
  | trapped

/-- The writes of a repo. `outstanding` are the sets and updates that wait for an answer,
`transactionWrites` the current writes of transactions, and `issued` the ids that `nextWriteId` has
handed out. -/
structure RepoWrites (K V : Type) [DatabaseKey K] where
  writeIdCounter : Int
  pendingWriteTree : FWriteTree K V
  userWrites : List (Int × FWriteRecord K V)
  restoreLoop : RestoreLoop K V
  outstanding : List Int
  transactionWrites : List Int
  issued : List Int

inductive RepoEvent (K V : Type) [DatabaseKey K] where
  | startRestore
  | restoreAnswer (status : WriteStatus) (resolveSnapshot : FNode K V → FNode K V)
      (resolveCompoundWrite : FCompoundWrite K V → FCompoundWrite K V)
  | set (path : FPath K) (node newNode : FNode K V)
  | update (path : FPath K) (nodes resolved : FCompoundWrite K V)
  | answer (writeId : Int) (status : WriteStatus)
  | startTransaction (path : FPath K) (newNode : FNode K V) (applyLocally : Bool)
  | removeTransactionWrite (writeId : Int)

namespace RepoWrites

/-- A repo with the writes that it finds in its persistent storage. -/
def atStartUp (userWrites : List (Int × FWriteRecord K V)) : RepoWrites K V :=
  ⟨0, .initial, userWrites, .notStarted, [], [], []⟩

/-- What `ackUserWriteWithWriteId` does to the pending writes and to the storage. -/
def ackUserWriteWithWriteId (repo : RepoWrites K V) (writeId : Int) (persist : Bool) :
    RepoWrites K V :=
  match repo.pendingWriteTree.writeForId writeId with
  | none => repo
  | some write =>
      { repo with
        pendingWriteTree := (repo.pendingWriteTree.removeWriteId writeId).1
        userWrites :=
          if write.visible && persist then remove writeId repo.userWrites else repo.userWrites }

def ackWrite (repo : RepoWrites K V) (writeId : Int) (status : WriteStatus) : RepoWrites K V :=
  if status = .writeCanceled then repo else repo.ackUserWriteWithWriteId writeId true

/-- The loop of `restoreWrites` up to its next suspension. -/
def restoreNext (repo : RepoWrites K V) (lastWriteId : Option Int) :
    List (FWriteRecord K V) → RepoWrites K V
  | [] => { repo with restoreLoop := .finished }
  | write :: remaining =>
      if lastWriteId.any fun last => write.writeId ≤ last then { repo with restoreLoop := .trapped }
      else
        { repo with
          writeIdCounter := write.writeId + 1
          restoreLoop := .awaiting write remaining }

/-- The rest of one iteration, after the answer. -/
def restoreAnswered (repo : RepoWrites K V) (write : FWriteRecord K V)
    (remaining : List (FWriteRecord K V)) (status : WriteStatus)
    (resolveSnapshot : FNode K V → FNode K V)
    (resolveCompoundWrite : FCompoundWrite K V → FCompoundWrite K V) : RepoWrites K V :=
  let restored :=
    match write.record with
    | .overwrite overwrite =>
        let acked := repo.ackWrite write.writeId status
        { acked with
          pendingWriteTree := acked.pendingWriteTree.addOverwriteAtPath write.path
            (resolveSnapshot overwrite) write.writeId true }
    | .merge merge =>
        { repo with
          pendingWriteTree := repo.pendingWriteTree.addMergeAtPath write.path
            (resolveCompoundWrite merge) write.writeId }
  restored.restoreNext (some write.writeId) remaining

/-- `nextWriteId()` -/
def nextWriteId (repo : RepoWrites K V) : RepoWrites K V × Int :=
  ({ repo with
      writeIdCounter := repo.writeIdCounter + 1
      issued := repo.issued ++ [repo.writeIdCounter] }, repo.writeIdCounter)

/-- The part of `set` before it waits for the answer. -/
def set (repo : RepoWrites K V) (path : FPath K) (node newNode : FNode K V) : RepoWrites K V :=
  let (repo, writeId) := repo.nextWriteId
  { repo with
    userWrites := SortedDictionary.set (· < ·) writeId ⟨.overwrite node, writeId, path, true⟩
      repo.userWrites
    pendingWriteTree := repo.pendingWriteTree.addOverwriteAtPath path newNode writeId true
    outstanding := repo.outstanding ++ [writeId] }

/-- The part of `update` before it waits for the answer. -/
def update (repo : RepoWrites K V) (path : FPath K) (nodes resolved : FCompoundWrite K V) :
    RepoWrites K V :=
  if resolved.isEmpty then repo
  else
    let (repo, writeId) := repo.nextWriteId
    { repo with
      userWrites := SortedDictionary.set (· < ·) writeId ⟨.merge nodes, writeId, path, true⟩
        repo.userWrites
      pendingWriteTree := repo.pendingWriteTree.addMergeAtPath path resolved writeId
      outstanding := repo.outstanding ++ [writeId] }

/-- The write of a transaction that starts or runs again. It is not persisted. -/
def startTransaction (repo : RepoWrites K V) (path : FPath K) (newNode : FNode K V)
    (applyLocally : Bool) : RepoWrites K V :=
  let (repo, writeId) := repo.nextWriteId
  { repo with
    pendingWriteTree := repo.pendingWriteTree.addOverwriteAtPath path newNode writeId applyLocally
    transactionWrites := repo.transactionWrites ++ [writeId] }

/-- What an event does. There is no result where it cannot happen. -/
def step (repo : RepoWrites K V) : RepoEvent K V → Option (RepoWrites K V)
  | .startRestore =>
      match repo.restoreLoop with
      | .notStarted => some (repo.restoreNext none (repo.userWrites.map Prod.snd))
      | _ => none
  | .restoreAnswer status resolveSnapshot resolveCompoundWrite =>
      match repo.restoreLoop with
      | .awaiting write remaining =>
          some (repo.restoreAnswered write remaining status resolveSnapshot resolveCompoundWrite)
      | _ => none
  | .set path node newNode => some (repo.set path node newNode)
  | .update path nodes resolved => some (repo.update path nodes resolved)
  | .answer writeId status =>
      if writeId ∈ repo.outstanding then
        some { repo.ackWrite writeId status with outstanding := repo.outstanding.erase writeId }
      else none
  | .startTransaction path newNode applyLocally =>
      some (repo.startTransaction path newNode applyLocally)
  | .removeTransactionWrite writeId =>
      if writeId ∈ repo.transactionWrites then
        some { repo.ackUserWriteWithWriteId writeId false with
          transactionWrites := repo.transactionWrites.erase writeId }
      else none

/-- The persisted writes that a storage can hold: every one under its id. -/
def Storable (userWrites : List (Int × FWriteRecord K V)) : Prop :=
  Sorted (· < ·) userWrites ∧ ∀ entry ∈ userWrites, entry.2.writeId = entry.1

/-! ### Answers to restored writes -/

/-- A write with this id is pending in the tree. -/
def InPendingWriteTree (repo : RepoWrites K V) (writeId : Int) : Prop :=
  writeId ∈ repo.pendingWriteTree.allWrites.map FWriteRecord.writeId

/-- A write with this id is in the persistent storage. -/
def InStorage (repo : RepoWrites K V) (writeId : Int) : Prop := writeId ∈ repo.userWrites.map Prod.fst

/-- A run is the list of its events with the states before and after each of them. -/
inductive Run : RepoWrites K V → List (RepoWrites K V × RepoEvent K V × RepoWrites K V) →
    RepoWrites K V → Prop
  | nil (repo : RepoWrites K V) : Run repo [] repo
  | cons {repo next last : RepoWrites K V} {event : RepoEvent K V}
      {steps : List (RepoWrites K V × RepoEvent K V × RepoWrites K V)}
      (hstep : repo.step event = some next) (hrest : Run next steps last) :
      Run repo ((repo, event, next) :: steps) last

/-- In this step the answer to a restored write finds the write in the tree, and leaves it neither
there nor in the storage. -/
def AnswersRestored (before : RepoWrites K V) (event : RepoEvent K V) (after : RepoWrites K V) : Prop :=
  ∀ status resolveSnapshot resolveCompoundWrite write remaining,
    event = .restoreAnswer status resolveSnapshot resolveCompoundWrite →
      before.restoreLoop = .awaiting write remaining →
        before.InPendingWriteTree write.writeId ∧ ¬after.InPendingWriteTree write.writeId ∧
          ¬after.InStorage write.writeId

/-- The server answers a restored write in this event. -/
def IsRestoreAnswer : RepoEvent K V → Prop
  | .restoreAnswer _ _ _ => True
  | _ => False

theorem pendingWriteTree_restoreNext (repo : RepoWrites K V) (lastWriteId : Option Int)
    (writes : List (FWriteRecord K V)) :
    (repo.restoreNext lastWriteId writes).pendingWriteTree = repo.pendingWriteTree := by
  cases writes with
  | nil => rfl
  | cons write remaining =>
      rw [restoreNext]
      split_ifs <;> rfl

/-- A restored write is added to the tree after its answer, whatever the answer is. -/
theorem inPendingWriteTree_restoreAnswered (repo : RepoWrites K V) (write : FWriteRecord K V)
    (remaining : List (FWriteRecord K V)) (status : WriteStatus) (resolveSnapshot : FNode K V → FNode K V)
    (resolveCompoundWrite : FCompoundWrite K V → FCompoundWrite K V) :
    (repo.restoreAnswered write remaining status resolveSnapshot
      resolveCompoundWrite).InPendingWriteTree write.writeId := by
  rw [InPendingWriteTree, restoreAnswered, pendingWriteTree_restoreNext]
  cases write.record with
  | overwrite overwrite => simp [FWriteTree.addOverwriteAtPath]
  | merge merge => simp [FWriteTree.addMergeAtPath]

variable {event : RepoEvent K V} {repo : RepoWrites K V} {stored : List Int} {tree : FWriteTree K V}
variable {userWrites : List (Int × FWriteRecord K V)}

theorem not_answersRestored {before after : RepoWrites K V} (hstep : before.step event = some after)
    (hanswer : IsRestoreAnswer event) : ¬AnswersRestored before event after := by
  intro hall
  cases event with
  | restoreAnswer status resolveSnapshot resolveCompoundWrite =>
      cases hloop : before.restoreLoop with
      | awaiting write remaining =>
          rw [step, hloop] at hstep
          cases hstep
          exact (hall _ _ _ write remaining rfl hloop).2.1 (inPendingWriteTree_restoreAnswered ..)
      | notStarted => rw [step, hloop] at hstep; cases hstep
      | finished => rw [step, hloop] at hstep; cases hstep
      | trapped => rw [step, hloop] at hstep; cases hstep
  | _ => exact hanswer

theorem Run.step_of_mem {last : RepoWrites K V}
    {steps : List (RepoWrites K V × RepoEvent K V × RepoWrites K V)} (hrun : Run repo steps last) :
    ∀ s ∈ steps, s.1.step s.2.1 = some s.2.2 := by
  induction hrun with
  | nil repo =>
      intro s hs
      cases hs
  | cons hstep _ ih =>
      intro s hs
      rcases List.mem_cons.mp hs with rfl | hs
      · exact hstep
      · exact ih s hs

/-- Answers are processed as they should exactly in the runs in which the server answers no restored
write. -/
theorem answersRestored_iff_no_answer {userWrites : List (Int × FWriteRecord K V)}
    {steps : List (RepoWrites K V × RepoEvent K V × RepoWrites K V)} {last : RepoWrites K V}
    (hrun : Run (atStartUp userWrites) steps last) :
    (∀ s ∈ steps, AnswersRestored s.1 s.2.1 s.2.2) ↔ ∀ s ∈ steps, ¬IsRestoreAnswer s.2.1 := by
  constructor
  · intro hall s hs hanswer
    exact not_answersRestored (hrun.step_of_mem s hs) hanswer (hall s hs)
  · intro hnone s hs status resolveSnapshot resolveCompoundWrite write remaining hevent
    exact absurd (by rw [hevent]; exact trivial) (hnone s hs)

/-- A storage with an overwrite and a merge. -/
def twoStored : List (Int × FWriteRecord String Int) :=
  [(0, ⟨.overwrite (.leaf 1 .empty), 0, ["a"], true⟩),
    (1, ⟨.merge (FCompoundWrite.emptyWrite.addWrite (.leaf 2 .empty) ["c"]), 1, ["b"], true⟩)]

/-- The task waits for the answer to the first of them. -/
def awaitingFirst : RepoWrites String Int :=
  (atStartUp twoStored).restoreNext none (twoStored.map Prod.snd)

/-- The first answer leaves its write in the tree. -/
theorem answersRestored_fails_for_first :
    ¬∀ (userWrites : List (Int × FWriteRecord String Int))
      (steps : List (RepoWrites String Int × RepoEvent String Int × RepoWrites String Int))
      (last : RepoWrites String Int), Storable userWrites → Run (atStartUp userWrites) steps last →
        ∀ s ∈ steps, AnswersRestored s.1 s.2.1 s.2.2 := by
  intro hall
  have hstart : (atStartUp twoStored).step .startRestore = some awaitingFirst := rfl
  have hanswer : ∃ next, awaitingFirst.step (.restoreAnswer .ok id id) = some next := ⟨_, rfl⟩
  obtain ⟨next, hanswer⟩ := hanswer
  refine not_answersRestored hanswer trivial (hall twoStored _ next ⟨by decide, ?_⟩
    (.cons hstart (.cons hanswer (.nil next))) _ (List.mem_cons_of_mem _ List.mem_cons_self))
  simp [twoStored]

/-- A run in which the task waits. -/
def waitingRun : List (RepoWrites String Int × RepoEvent String Int × RepoWrites String Int) :=
  [(atStartUp twoStored, .startRestore, awaitingFirst)]

theorem answersRestored_iff_no_answer_waiting :
    (∀ s ∈ waitingRun, AnswersRestored s.1 s.2.1 s.2.2) ↔ ∀ s ∈ waitingRun, ¬IsRestoreAnswer s.2.1 :=
  answersRestored_iff_no_answer
    (show Run (atStartUp twoStored) waitingRun awaitingFirst from .cons rfl (.nil awaitingFirst))

/-! ### The ids of pending writes -/

/-- The event draws a write id. -/
def DrawsId : RepoEvent K V → Prop
  | .set _ _ _ => True
  | .update _ _ resolved => resolved.isEmpty = false
  | .startTransaction _ _ _ => True
  | _ => False

/-- A drawn id is below the ids of the persisted writes that are still to be sent, and the task does
not start while a write of this run is persisted. -/
def IdsSafe (repo : RepoWrites K V) (event : RepoEvent K V) : Prop :=
  (DrawsId event → match repo.restoreLoop with
    | .notStarted => ∀ entry ∈ repo.userWrites, entry.1 ∉ repo.issued → repo.writeIdCounter < entry.1
    | .awaiting _ remaining => ∀ record ∈ remaining, repo.writeIdCounter < record.writeId
    | _ => True) ∧
  (event = .startRestore → ∀ entry ∈ repo.userWrites, entry.1 ∉ repo.issued)

/-- The states of the runs whose events meet a condition. -/
inductive Reachable (condition : RepoWrites K V → RepoEvent K V → Prop)
    (userWrites : List (Int × FWriteRecord K V)) : RepoWrites K V → Prop
  | atStartUp : Reachable condition userWrites (atStartUp userWrites)
  | step {repo next : RepoWrites K V} (event : RepoEvent K V)
      (hrepo : Reachable condition userWrites repo) (hcondition : condition repo event)
      (hstep : repo.step event = some next) : Reachable condition userWrites next

/-- Ids are handed out in increasing order, no write is twice in the tree or in the storage, and an id
that was handed out is not the one of a write that was persisted before. -/
def DistinctIds (userWrites : List (Int × FWriteRecord K V)) (repo : RepoWrites K V) : Prop :=
  repo.issued.Pairwise (· < ·) ∧
    (repo.pendingWriteTree.allWrites.map FWriteRecord.writeId).Nodup ∧
    (repo.userWrites.map Prod.fst).Nodup ∧
    ∀ writeId, repo.InPendingWriteTree writeId ∨ repo.InStorage writeId →
      writeId ∈ repo.issued → writeId ∉ userWrites.map Prod.fst

/-- What the state of the task says about the ids. -/
def LoopInvariant (stored : List Int) (repo : RepoWrites K V) : Prop :=
  match repo.restoreLoop with
  | .notStarted =>
      (∀ writeId ∈ stored, repo.InStorage writeId) ∧
        (∀ writeId ∈ repo.issued, ∀ writeId' ∈ stored, writeId < writeId') ∧
          ∀ writeId, repo.InPendingWriteTree writeId → writeId ∈ repo.issued
  | .awaiting write remaining =>
      ((write :: remaining).map FWriteRecord.writeId).Pairwise (· < ·) ∧
        (∀ record ∈ write :: remaining, record.writeId ∈ stored ∧
          ¬repo.InPendingWriteTree record.writeId) ∧
        write.writeId < repo.writeIdCounter ∧
        (∀ record ∈ remaining, repo.writeIdCounter ≤ record.writeId) ∧
        ∀ writeId ∈ stored, writeId ≤ write.writeId ∨ ∃ record ∈ remaining, record.writeId = writeId
  | .finished => ∀ writeId ∈ stored, writeId < repo.writeIdCounter
  | .trapped => False

structure IdInvariant (stored : List Int) (repo : RepoWrites K V) : Prop where
  issued_increasing : repo.issued.Pairwise (· < ·)
  issued_lt_counter : ∀ writeId ∈ repo.issued, writeId < repo.writeIdCounter
  issued_not_stored : ∀ writeId ∈ repo.issued, writeId ∉ stored
  tree_nodup : (repo.pendingWriteTree.allWrites.map FWriteRecord.writeId).Nodup
  tree_known : ∀ writeId, repo.InPendingWriteTree writeId → writeId ∈ repo.issued ∨ writeId ∈ stored
  storable : Storable repo.userWrites
  storage_known : ∀ writeId, repo.InStorage writeId → writeId ∈ repo.issued ∨ writeId ∈ stored
  outstanding_issued : ∀ writeId ∈ repo.outstanding, writeId ∈ repo.issued
  loop : LoopInvariant stored repo

/-- The drawn id is new. -/
theorem IdInvariant.counter_new (h : IdInvariant stored repo) (hsafe : IdsSafe repo event)
    (hdraws : DrawsId event) : repo.writeIdCounter ∉ stored := by
  have hnext := hsafe.1 hdraws
  have hloop := h.loop
  intro hmem
  unfold LoopInvariant at hloop
  cases hrestore : repo.restoreLoop with
  | notStarted =>
      rw [hrestore] at hnext hloop
      obtain ⟨entry, hentry, hid⟩ := List.mem_map.mp (hloop.1 _ hmem)
      have hlt := hnext entry hentry fun hissued => (h.issued_not_stored _ hissued) (hid ▸ hmem)
      omega
  | awaiting write remaining =>
      rw [hrestore] at hnext hloop
      rcases hloop.2.2.2.2 _ hmem with hle | ⟨record, hrecord, hid⟩
      · have := hloop.2.2.1
        omega
      · have := hnext record hrecord
        omega
  | finished =>
      rw [hrestore] at hloop
      exact absurd (hloop _ hmem) (lt_irrefl _)
  | trapped =>
      rw [hrestore] at hloop
      exact hloop

/-- Removing a write from the tree keeps the order of the others. -/
theorem sublist_removeWriteId (tree : FWriteTree K V) (writeId : Int) :
    (tree.removeWriteId writeId).1.allWrites.Sublist tree.allWrites := by
  unfold FWriteTree.removeWriteId
  cases tree.allWrites.findIdx? fun record => record.writeId = writeId with
  | none => exact List.Sublist.refl _
  | some index =>
      cases hget : tree.allWrites[index]? with
      | none => simp [hget]
      | some record =>
          simp only [hget]
          split_ifs <;> exact List.eraseIdx_sublist _ _

/-- Writes may go away, but before the task starts the persisted ones stay. -/
theorem IdInvariant.shrink (h : IdInvariant stored repo)
    (htree : tree.allWrites.Sublist repo.pendingWriteTree.allWrites) (hstorage : userWrites.Sublist repo.userWrites)
    (hstays : repo.restoreLoop = .notStarted → ∀ writeId ∈ stored, writeId ∈ userWrites.map Prod.fst) :
    IdInvariant stored { repo with pendingWriteTree := tree, userWrites := userWrites } := by
  have hids : ∀ writeId, writeId ∈ tree.allWrites.map FWriteRecord.writeId →
      repo.InPendingWriteTree writeId := fun writeId hmem => (htree.map _).subset hmem
  refine ⟨h.issued_increasing, h.issued_lt_counter, h.issued_not_stored,
    h.tree_nodup.sublist (htree.map _), fun writeId hmem => h.tree_known writeId (hids writeId hmem),
    ⟨h.storable.1.sublist hstorage, fun entry hentry => h.storable.2 entry (hstorage.subset hentry)⟩,
    fun writeId hmem => h.storage_known writeId ((hstorage.map _).subset hmem), h.outstanding_issued, ?_⟩
  have hloop := h.loop
  unfold LoopInvariant at hloop ⊢
  cases hrestore : repo.restoreLoop with
  | notStarted =>
      rw [hrestore] at hloop
      exact ⟨hstays hrestore, hloop.2.1, fun writeId hmem => hloop.2.2 writeId (hids writeId hmem)⟩
  | awaiting write remaining =>
      rw [hrestore] at hloop
      exact ⟨hloop.1, fun record hrecord => ⟨(hloop.2.1 record hrecord).1,
        fun hmem => (hloop.2.1 record hrecord).2 (hids _ hmem)⟩, hloop.2.2⟩
  | finished => rwa [hrestore] at hloop
  | trapped => rwa [hrestore] at hloop

/-- Acknowledging a write takes it from the tree, and from the storage if it is persisted. -/
theorem IdInvariant.ackUserWriteWithWriteId (h : IdInvariant stored repo) (writeId : Int) (persist : Bool)
    (hnot : persist = true → writeId ∉ stored) :
    IdInvariant stored (repo.ackUserWriteWithWriteId writeId persist) := by
  unfold RepoWrites.ackUserWriteWithWriteId
  cases repo.pendingWriteTree.writeForId writeId with
  | none => exact h
  | some write =>
      refine h.shrink (sublist_removeWriteId _ _) ?_ fun hrestore id hid => ?_
      · split_ifs
        · exact List.filter_sublist
        · exact List.Sublist.refl _
      · have hloop := h.loop
        rw [LoopInvariant, hrestore] at hloop
        have hmem := hloop.1 id hid
        split_ifs with hpersist
        · have hne : id ≠ writeId := by
            rintro rfl
            exact hnot (Bool.and_eq_true_iff.mp hpersist).2 hid
          rw [mem_keys_iff, get_remove, if_neg hne, ← mem_keys_iff]
          exact hmem
        · exact hmem

theorem issued_ackWrite (repo : RepoWrites K V) (writeId : Int) (status : WriteStatus) :
    (repo.ackWrite writeId status).issued = repo.issued := by
  unfold ackWrite RepoWrites.ackUserWriteWithWriteId
  split_ifs
  · rfl
  · cases repo.pendingWriteTree.writeForId writeId <;> rfl

/-- Drawing an id for a new write. -/
theorem IdInvariant.draw (h : IdInvariant stored repo) (hsafe : IdsSafe repo event) (hdraws : DrawsId event)
    {outstanding : List Int} (transactionWrites : List Int) (htree : tree.allWrites.map FWriteRecord.writeId =
      repo.pendingWriteTree.allWrites.map FWriteRecord.writeId ++ [repo.writeIdCounter])
    (hstorable : Storable userWrites)
    (hkeeps : ∀ writeId, repo.InStorage writeId → writeId ∈ userWrites.map Prod.fst)
    (hstorage : ∀ writeId ∈ userWrites.map Prod.fst, writeId = repo.writeIdCounter ∨ repo.InStorage writeId)
    (houtstanding : ∀ writeId ∈ outstanding, writeId = repo.writeIdCounter ∨ writeId ∈ repo.outstanding) :
    IdInvariant stored
      ⟨repo.writeIdCounter + 1, tree, userWrites, repo.restoreLoop, outstanding, transactionWrites,
        repo.issued ++ [repo.writeIdCounter]⟩ := by
  have hnew := h.counter_new hsafe hdraws
  have hintree : ∀ writeId, writeId ∈ tree.allWrites.map FWriteRecord.writeId →
      writeId = repo.writeIdCounter ∨ repo.InPendingWriteTree writeId := by
    intro writeId hmem
    rw [htree, List.mem_append, List.mem_singleton] at hmem
    exact hmem.symm
  have hissued : ∀ writeId, writeId ∈ repo.issued ++ [repo.writeIdCounter] ↔
      writeId ∈ repo.issued ∨ writeId = repo.writeIdCounter := by
    simp
  constructor
  · refine List.pairwise_append.mpr ⟨h.issued_increasing, List.pairwise_singleton _ _, ?_⟩
    intro a ha b hb
    rw [List.mem_singleton.mp hb]
    exact h.issued_lt_counter a ha
  · intro writeId hmem
    change writeId < repo.writeIdCounter + 1
    rcases (hissued writeId).mp hmem with hmem | rfl
    · have := h.issued_lt_counter writeId hmem
      omega
    · omega
  · intro writeId hmem
    rcases (hissued writeId).mp hmem with hmem | rfl
    · exact h.issued_not_stored writeId hmem
    · exact hnew
  · change (tree.allWrites.map FWriteRecord.writeId).Nodup
    rw [htree, List.nodup_append]
    refine ⟨h.tree_nodup, List.pairwise_singleton _ _, fun a ha b hb hab => ?_⟩
    rw [List.mem_singleton.mp hb] at hab
    subst hab
    rcases h.tree_known _ ha with hmem | hmem
    · exact absurd (h.issued_lt_counter _ hmem) (lt_irrefl _)
    · exact hnew hmem
  · intro writeId hmem
    rcases hintree writeId hmem with rfl | hmem
    · exact Or.inl ((hissued _).mpr (Or.inr rfl))
    · exact (h.tree_known writeId hmem).imp_left fun hmem => (hissued _).mpr (Or.inl hmem)
  · exact hstorable
  · intro writeId hmem
    rcases hstorage writeId hmem with rfl | hmem
    · exact Or.inl ((hissued _).mpr (Or.inr rfl))
    · exact (h.storage_known writeId hmem).imp_left fun hmem => (hissued _).mpr (Or.inl hmem)
  · intro writeId hmem
    rcases houtstanding writeId hmem with rfl | hmem
    · exact (hissued _).mpr (Or.inr rfl)
    · exact (hissued _).mpr (Or.inl (h.outstanding_issued writeId hmem))
  · have hnext := hsafe.1 hdraws
    have hloop := h.loop
    unfold LoopInvariant at hloop ⊢
    cases hrestore : repo.restoreLoop with
    | notStarted =>
        rw [hrestore] at hloop hnext
        refine ⟨fun writeId hmem => hkeeps writeId (hloop.1 writeId hmem), ?_, ?_⟩
        · intro writeId hmem writeId' hmem'
          rcases (hissued writeId).mp hmem with hmem | rfl
          · exact hloop.2.1 writeId hmem writeId' hmem'
          · obtain ⟨entry, hentry, rfl⟩ := List.mem_map.mp (hloop.1 writeId' hmem')
            exact hnext entry hentry fun hissued => h.issued_not_stored _ hissued hmem'
        · intro writeId hmem
          rcases hintree writeId hmem with rfl | hmem
          · exact (hissued _).mpr (Or.inr rfl)
          · exact (hissued _).mpr (Or.inl (hloop.2.2 writeId hmem))
    | awaiting write remaining =>
        rw [hrestore] at hloop hnext
        obtain ⟨hsorted, hpending, hlt, hle, hcovers⟩ := hloop
        refine ⟨hsorted, fun record hrecord => ⟨(hpending record hrecord).1, fun hmem => ?_⟩,
          by change write.writeId < repo.writeIdCounter + 1; omega, fun record hrecord => ?_, hcovers⟩
        · rcases hintree _ hmem with heq | hmem
          · exact hnew (heq ▸ (hpending record hrecord).1)
          · exact (hpending record hrecord).2 hmem
        · have := hnext record hrecord
          change repo.writeIdCounter + 1 ≤ record.writeId
          omega
    | finished =>
        rw [hrestore] at hloop
        intro writeId hmem
        have := hloop writeId hmem
        change writeId < repo.writeIdCounter + 1
        omega
    | trapped => rwa [hrestore] at hloop

/-- Going on to the next persisted write, with the writes so far below it. -/
theorem IdInvariant.restoreNext {lastWriteId : Option Int} {writes : List (FWriteRecord K V)}
    (h : ∀ counter, (∀ writeId ∈ repo.issued, writeId < counter) → ∀ loop,
      LoopInvariant stored { repo with writeIdCounter := counter, restoreLoop := loop } →
        IdInvariant stored { repo with writeIdCounter := counter, restoreLoop := loop })
    (hcounter : ∀ writeId ∈ repo.issued, writeId < repo.writeIdCounter)
    (hlast : ∀ last ∈ lastWriteId, ∀ record ∈ writes, last < record.writeId)
    (hsorted : (writes.map FWriteRecord.writeId).Pairwise (· < ·))
    (hpending : ∀ record ∈ writes, record.writeId ∈ stored ∧ ¬repo.InPendingWriteTree record.writeId)
    (hissued : ∀ record ∈ writes, ∀ writeId ∈ repo.issued, writeId < record.writeId)
    (hcovers : ∀ writeId ∈ stored, (writeId < repo.writeIdCounter ∧ ∀ record ∈ writes, writeId ≤ record.writeId) ∨
        ∃ record ∈ writes, record.writeId = writeId) :
    IdInvariant stored (repo.restoreNext lastWriteId writes) := by
  cases writes with
  | nil =>
      refine h repo.writeIdCounter hcounter .finished fun writeId hmem => ?_
      rcases hcovers writeId hmem with hlt | ⟨record, hrecord, _⟩
      · exact hlt.1
      · cases hrecord
  | cons write remaining =>
      have hnot : (lastWriteId.any fun last => decide (write.writeId ≤ last)) = false := by
        cases lastWriteId with
        | none => rfl
        | some last =>
            have := hlast last rfl write List.mem_cons_self
            simpa using this
      rw [RepoWrites.restoreNext, hnot, if_neg (by simp)]
      rw [List.map_cons, List.pairwise_cons] at hsorted
      refine h (write.writeId + 1) (fun writeId hmem => ?_) (.awaiting write remaining)
        ⟨?_, hpending, ?_, fun record hrecord => ?_, fun writeId hmem => ?_⟩
      · have := hissued write List.mem_cons_self writeId hmem
        omega
      · rw [List.map_cons, List.pairwise_cons]
        exact hsorted
      · change write.writeId < write.writeId + 1
        omega
      · have := hsorted.1 _ (List.mem_map_of_mem hrecord)
        change write.writeId + 1 ≤ record.writeId
        omega
      · rcases hcovers writeId hmem with hlt | ⟨record, hrecord, rfl⟩
        · exact Or.inl (hlt.2 write List.mem_cons_self)
        · rcases List.mem_cons.mp hrecord with rfl | hrecord
          · exact Or.inl le_rfl
          · exact Or.inr ⟨record, hrecord, rfl⟩

theorem Storable.ids (h : Storable userWrites) :
    (userWrites.map Prod.snd).map FWriteRecord.writeId = userWrites.map Prod.fst := by
  rw [List.map_map]
  exact List.map_congr_left h.2

theorem Storable.set (h : Storable userWrites) {record : FWriteRecord K V} {writeId : Int}
    (hid : record.writeId = writeId) : Storable (SortedDictionary.set (· < ·) writeId record userWrites) := by
  refine ⟨h.1.set _ writeId record, fun entry hentry => ?_⟩
  rcases mem_set _ hentry with rfl | hentry
  · exact hid
  · exact h.2 entry hentry

theorem IdInvariant.startRestore (h : IdInvariant stored repo)
    (hnew : ∀ entry ∈ repo.userWrites, entry.1 ∉ repo.issued) (hrestore : repo.restoreLoop = .notStarted) :
    IdInvariant stored (repo.restoreNext none (repo.userWrites.map Prod.snd)) := by
  have hloop := h.loop
  rw [LoopInvariant, hrestore] at hloop
  obtain ⟨hstored, hbelow, htree⟩ := hloop
  have hids := h.storable.ids
  have hmem : ∀ record ∈ repo.userWrites.map Prod.snd, record.writeId ∈ stored := by
    intro record hrecord
    obtain ⟨entry, hentry, rfl⟩ := List.mem_map.mp hrecord
    rw [h.storable.2 entry hentry]
    exact (h.storage_known entry.1 (List.mem_map_of_mem hentry)).resolve_left (hnew entry hentry)
  refine IdInvariant.restoreNext (fun counter hcounter loop hloop => ?_) h.issued_lt_counter
    (fun _ hlast => by cases hlast) ?_ (fun record hrecord => ⟨hmem record hrecord, fun hin => ?_⟩)
    (fun record hrecord writeId hissued => hbelow writeId hissued _ (hmem record hrecord))
    (fun writeId hwriteId => ?_)
  · exact ⟨h.issued_increasing, hcounter, h.issued_not_stored, h.tree_nodup, h.tree_known, h.storable,
      h.storage_known, h.outstanding_issued, hloop⟩
  · rw [hids]
    exact List.pairwise_map.mpr h.storable.1
  · exact h.issued_not_stored _ (htree _ hin) (hmem record hrecord)
  · obtain ⟨entry, hentry, rfl⟩ := List.mem_map.mp (hstored writeId hwriteId)
    exact Or.inr ⟨entry.2, List.mem_map_of_mem hentry, h.storable.2 entry hentry⟩

/-- The answer finds no write in the tree, and the write is added. -/
theorem IdInvariant.restoreAnswered (h : IdInvariant stored repo) {write : FWriteRecord K V}
    {remaining : List (FWriteRecord K V)} (hrestore : repo.restoreLoop = .awaiting write remaining)
    (status : WriteStatus) (resolveSnapshot : FNode K V → FNode K V)
    (resolveCompoundWrite : FCompoundWrite K V → FCompoundWrite K V) :
    IdInvariant stored (repo.restoreAnswered write remaining status resolveSnapshot
      resolveCompoundWrite) := by
  have hloop := h.loop
  rw [LoopInvariant, hrestore] at hloop
  obtain ⟨hsorted, hpending, hlt, hle, hcovers⟩ := hloop
  rw [List.map_cons, List.pairwise_cons] at hsorted
  obtain ⟨hwriteStored, hwriteNew⟩ := hpending write List.mem_cons_self
  have hack : repo.ackWrite write.writeId status = repo := by
    have hnone : repo.pendingWriteTree.writeForId write.writeId = none := by
      refine List.find?_eq_none.mpr fun record hrecord heq => hwriteNew ?_
      have heq : record.writeId = write.writeId := by simpa using heq
      exact heq ▸ List.mem_map_of_mem hrecord
    rw [ackWrite, RepoWrites.ackUserWriteWithWriteId, hnone, ite_self]
  have htree : ∃ tree : FWriteTree K V,
      tree.allWrites.map FWriteRecord.writeId =
        repo.pendingWriteTree.allWrites.map FWriteRecord.writeId ++ [write.writeId] ∧
      repo.restoreAnswered write remaining status resolveSnapshot resolveCompoundWrite =
        { repo with pendingWriteTree := tree }.restoreNext (some write.writeId) remaining := by
    unfold RepoWrites.restoreAnswered
    cases write.record with
    | overwrite overwrite =>
        refine ⟨repo.pendingWriteTree.addOverwriteAtPath write.path (resolveSnapshot overwrite)
          write.writeId true, by simp [FWriteTree.addOverwriteAtPath], ?_⟩
        simp only [hack]
    | merge merge => exact ⟨_, by simp [FWriteTree.addMergeAtPath], rfl⟩
  obtain ⟨tree, hids, heq⟩ := htree
  rw [heq]
  have hintree : ∀ writeId, writeId ∈ tree.allWrites.map FWriteRecord.writeId →
      repo.InPendingWriteTree writeId ∨ writeId = write.writeId := by
    intro writeId hmem
    rw [hids, List.mem_append, List.mem_singleton] at hmem
    exact hmem
  refine IdInvariant.restoreNext (fun counter hcounter loop hloop => ?_) h.issued_lt_counter
    (fun last hlast record hrecord => ?_) hsorted.2 (fun record hrecord => ⟨?_, fun hin => ?_⟩)
    (fun record hrecord writeId hissued => ?_) (fun writeId hwriteId => ?_)
  · refine ⟨h.issued_increasing, hcounter, h.issued_not_stored, ?_, fun writeId hmem => ?_, h.storable,
      h.storage_known, h.outstanding_issued, hloop⟩
    · change (tree.allWrites.map FWriteRecord.writeId).Nodup
      rw [hids, List.nodup_append]
      refine ⟨h.tree_nodup, List.pairwise_singleton _ _, fun a ha b hb hab => ?_⟩
      rw [List.mem_singleton.mp hb] at hab
      exact hwriteNew (hab ▸ ha)
    · rcases hintree writeId hmem with hmem | rfl
      · exact h.tree_known writeId hmem
      · exact Or.inr hwriteStored
  · cases hlast
    exact hsorted.1 _ (List.mem_map_of_mem hrecord)
  · exact (hpending record (List.mem_cons_of_mem _ hrecord)).1
  · rcases hintree _ hin with hmem | hid
    · exact (hpending record (List.mem_cons_of_mem _ hrecord)).2 hmem
    · exact absurd (hsorted.1 _ (List.mem_map_of_mem hrecord)) (hid ▸ lt_irrefl _)
  · exact (h.issued_lt_counter writeId hissued).trans_le (hle record hrecord)
  · rcases hcovers writeId hwriteId with hle' | hex
    · refine Or.inl ⟨hle'.trans_lt hlt, fun record hrecord => ?_⟩
      exact hle'.trans (hsorted.1 _ (List.mem_map_of_mem hrecord)).le
    · exact Or.inr hex

theorem IdInvariant.step {next : RepoWrites K V} (h : IdInvariant stored repo) (hsafe : IdsSafe repo event)
    (hstep : repo.step event = some next) : IdInvariant stored next := by
  have hset : ∀ record : FWriteRecord K V, ∀ writeId : Int,
      writeId ∈ (SortedDictionary.set (· < ·) repo.writeIdCounter record repo.userWrites).map Prod.fst ↔
        writeId = repo.writeIdCounter ∨ repo.InStorage writeId := fun record writeId =>
    mem_keys_set (· < ·)
  cases event with
  | startRestore =>
      cases hrestore : repo.restoreLoop with
      | notStarted =>
          rw [RepoWrites.step, hrestore] at hstep
          cases hstep
          exact h.startRestore (hsafe.2 rfl) hrestore
      | awaiting write remaining => rw [RepoWrites.step, hrestore] at hstep; cases hstep
      | finished => rw [RepoWrites.step, hrestore] at hstep; cases hstep
      | trapped => rw [RepoWrites.step, hrestore] at hstep; cases hstep
  | restoreAnswer status resolveSnapshot resolveCompoundWrite =>
      cases hrestore : repo.restoreLoop with
      | notStarted => rw [RepoWrites.step, hrestore] at hstep; cases hstep
      | awaiting write remaining =>
          rw [RepoWrites.step, hrestore] at hstep
          cases hstep
          exact h.restoreAnswered hrestore status resolveSnapshot resolveCompoundWrite
      | finished => rw [RepoWrites.step, hrestore] at hstep; cases hstep
      | trapped => rw [RepoWrites.step, hrestore] at hstep; cases hstep
  | set path node newNode =>
      cases hstep
      exact h.draw hsafe trivial repo.transactionWrites (by simp [FWriteTree.addOverwriteAtPath])
        (h.storable.set rfl) (fun writeId hmem => (hset _ writeId).mpr (Or.inr hmem))
        (fun writeId hmem => (hset _ writeId).mp hmem)
        (fun writeId hmem => (List.mem_append.mp hmem).symm.imp_left List.mem_singleton.mp)
  | update path nodes resolved =>
      cases hempty : resolved.isEmpty with
      | true =>
          rw [RepoWrites.step, RepoWrites.update, hempty, if_pos rfl] at hstep
          cases hstep
          exact h
      | false =>
          rw [RepoWrites.step, RepoWrites.update, hempty, if_neg (by simp)] at hstep
          cases hstep
          exact h.draw hsafe hempty repo.transactionWrites (by simp [FWriteTree.addMergeAtPath])
            (h.storable.set rfl) (fun writeId hmem => (hset _ writeId).mpr (Or.inr hmem))
            (fun writeId hmem => (hset _ writeId).mp hmem)
            (fun writeId hmem => (List.mem_append.mp hmem).symm.imp_left List.mem_singleton.mp)
  | startTransaction path newNode applyLocally =>
      cases hstep
      exact h.draw hsafe trivial _ (by simp [FWriteTree.addOverwriteAtPath]) h.storable
        (fun _ hmem => hmem) (fun _ hmem => Or.inr hmem) (fun _ hmem => Or.inr hmem)
  | answer writeId status =>
      rw [RepoWrites.step] at hstep
      split_ifs at hstep with hmem
      cases hstep
      have hack : IdInvariant stored (repo.ackWrite writeId status) := by
        unfold ackWrite
        split_ifs
        · exact h
        · exact h.ackUserWriteWithWriteId writeId true
            fun _ => h.issued_not_stored _ (h.outstanding_issued _ hmem)
      refine ⟨hack.issued_increasing, hack.issued_lt_counter, hack.issued_not_stored, hack.tree_nodup,
        hack.tree_known, hack.storable, hack.storage_known, fun id hid => ?_, hack.loop⟩
      rw [issued_ackWrite]
      exact h.outstanding_issued id (List.mem_of_mem_erase hid)
  | removeTransactionWrite writeId =>
      rw [RepoWrites.step] at hstep
      split_ifs at hstep with hmem
      cases hstep
      have hack := h.ackUserWriteWithWriteId writeId false (by simp)
      exact ⟨hack.issued_increasing, hack.issued_lt_counter, hack.issued_not_stored, hack.tree_nodup,
        hack.tree_known, hack.storable, hack.storage_known, hack.outstanding_issued, hack.loop⟩

theorem IdInvariant.atStartUp (h : Storable userWrites) :
    IdInvariant (userWrites.map Prod.fst) (RepoWrites.atStartUp userWrites) := by
  refine ⟨List.Pairwise.nil, ?_, ?_, List.Pairwise.nil, ?_, h, fun _ hmem => Or.inr hmem, ?_,
    fun _ hmem => hmem, ?_, ?_⟩
  all_goals
    intro _ hmem
    cases hmem

theorem IdInvariant.of_reachable (hstorable : Storable userWrites) (h : Reachable IdsSafe userWrites repo) :
    IdInvariant (userWrites.map Prod.fst) repo := by
  induction h with
  | atStartUp => exact IdInvariant.atStartUp hstorable
  | step event _ hsafe hstep ih => exact ih.step hsafe hstep

/-- Ids are handed out in order and are distinct in every run in which no drawn id reaches a persisted
write that is still to be sent. -/
theorem distinctIds_of_idsSafe {userWrites : List (Int × FWriteRecord K V)}
    (hstorable : Storable userWrites) {repo : RepoWrites K V}
    (h : Reachable IdsSafe userWrites repo) : DistinctIds userWrites repo := by
  have hinvariant := IdInvariant.of_reachable hstorable h
  exact ⟨hinvariant.issued_increasing, hinvariant.tree_nodup, hinvariant.storable.1.nodup_keys,
    fun writeId _ hissued => hinvariant.issued_not_stored writeId hissued⟩

/-- A set while the task waits for the answer to the last persisted write. -/
theorem distinctIds_of_idsSafe_one : DistinctIds [(0, ⟨.overwrite (.leaf 1 .empty), 0, ["a"], true⟩)]
    ((((atStartUp [(0, ⟨.overwrite (.leaf 1 .empty), 0, ["a"], true⟩)]).restoreNext none
      [⟨.overwrite (.leaf 1 .empty), 0, ["a"], true⟩]).set ["b"] (.leaf 2 .empty)
        (.leaf 2 .empty) : RepoWrites String Int)) := by
  refine distinctIds_of_idsSafe ⟨by decide, by simp⟩ (.step (.set ["b"] (.leaf 2 .empty)
    (.leaf 2 .empty)) (.step .startRestore .atStartUp ⟨fun h => h.elim, fun _ => by simp [atStartUp]⟩
    rfl) ⟨fun _ => ?_, by simp⟩ rfl)
  intro record hrecord
  cases hrecord

/-- Two sets while the task waits for the first of two persisted writes: after its answer the counter
goes back, and the next set gets an id a second time. -/
theorem distinctIds_fails_for_two_sets :
    ¬∀ (userWrites : List (Int × FWriteRecord String Int)) (repo : RepoWrites String Int),
      Storable userWrites → Reachable (fun _ _ => True) userWrites repo →
        DistinctIds userWrites repo := by
  intro hall
  have hdistinct := hall twoStored _ ⟨by decide, by simp [twoStored]⟩
    (.step (.set ["d"] (.leaf 5 .empty) (.leaf 5 .empty)) (.step (.restoreAnswer .ok id id)
      (.step (.set ["d"] (.leaf 4 .empty) (.leaf 4 .empty))
        (.step (.set ["d"] (.leaf 3 .empty) (.leaf 3 .empty)) (.step .startRestore .atStartUp trivial rfl)
          trivial rfl) trivial rfl) trivial rfl) trivial rfl)
  exact absurd hdistinct.1 (by decide)

end RepoWrites

end FirebaseSwift.Database
