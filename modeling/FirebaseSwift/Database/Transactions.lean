import FirebaseSwift.Database.QueueTraversals
import FirebaseSwift.Database.SyncTreeRuns
import Mathlib.Data.List.Sort

/-! The transactions of a repo, with the sets and updates that abort them. A transaction is an object:
the queues in the tree and the queue that a put was sent for hold its number. Numbers are handed out in
the order of the calls, as the orders of the transactions are. What the client's blocks are called with
is kept with the transaction: how often its update block and its unwatcher have been called, and the
calls of its completion block.

A call on the database actor may have several parts, which follow each other without another call in
between; they are on the agenda. A set or an update is one call until it waits for its answer, and another
call when it goes on. Which events the sync tree raises is not modelled: whether there are any comes with
the call. -/

namespace FirebaseSwift.Database

/-- The status strings of answers and aborts that the repo compares. -/
inductive FStatus where
  | ok
  | dataStale
  | writeCanceled
  | set
  | tooManyRetries
  | other (status : String)
  deriving DecidableEq

inductive FTransactionStatus where
  | initializing
  | run
  | sent
  | completed
  | sentNeedsAbort
  | needsAbort
  deriving DecidableEq

def kFTransactionMaxRetries : Nat := 25

/-- `FUtilities.error(for:reason:)`, as the status and the reason that the error is made of. -/
def errorFor (status : FStatus) (reason : Option String) : Option (FStatus × Option String) :=
  if status = .ok then none else some (status, reason)

/-- Why there is no next state: the sync tree or `removeLast` stops the program. -/
inductive RepoStop where
  | syncTree
  | removeLast
  deriving DecidableEq

variable {K V : Type} [DatabaseKey K]

/-- A call of a completion block. -/
structure TransactionCompletion (K V : Type) [DatabaseKey K] where
  error : Option (FStatus × Option String)
  committed : Bool
  snapshot : Option (FNode K V)

/-- The update block gives the raw node and the one with its server values resolved, or no success. It may
answer differently every time. -/
structure FTupleTransaction (K V : Type) [DatabaseKey K] where
  path : FPath K
  update : Nat → FNode K V → Option (FNode K V × FNode K V)
  onComplete : Bool
  status : FTransactionStatus
  applyLocally : Bool
  retryCount : Nat
  abortStatus : Option FStatus
  abortReason : Option String
  currentWriteId : Int
  currentInputSnapshot : FNode K V
  currentOutputSnapshotRaw : FNode K V
  currentOutputSnapshotResolved : FNode K V
  updates : Nat
  unwatched : Nat
  completions : List (TransactionCompletion K V)

namespace FTupleTransaction

/-- A number that is not in use. -/
def unused : FTupleTransaction K V :=
  ⟨[], fun _ _ => none, false, .initializing, false, 0, none, none, 0, .empty, .empty, .empty, 0, 0, []⟩

def setAbortStatus (self : FTupleTransaction K V) (abortStatus : Option FStatus) (reason : Option String) :
    FTupleTransaction K V :=
  { self with abortStatus := abortStatus, abortReason := reason }

def abortError (self : FTupleTransaction K V) : Option (FStatus × Option String) :=
  self.abortStatus.bind fun status => errorFor status self.abortReason

/-- `unwatcher()` starts a task, and the registration is removed by a later call. -/
def unwatch (self : FTupleTransaction K V) : FTupleTransaction K V :=
  { self with unwatched := self.unwatched + 1 }

end FTupleTransaction

/-- A put of transactions that is outstanding: the queue, its path, and the data and the state it was
sent with. -/
structure TransactionPut (K V : Type) [DatabaseKey K] where
  queue : List Nat
  path : FPath K
  dataToSend : FNode K V
  latestState : FNode K V

/-- A set or an update that waits. `abortPaths` are the paths whose transactions it aborts, and `started`
is the number of transactions that had been started when it was issued. -/
structure UserWrite (K V : Type) [DatabaseKey K] where
  writeId : Int
  path : FPath K
  abortPaths : List (FPath K)
  started : Nat
  answer : Option FStatus

/-- A part of a call that is still to be done. -/
inductive RepoPart (K V : Type) [DatabaseKey K] where
  | ackWrite (writeId : Int) (path : FPath K) (status : FStatus) (raisesEvents : Bool)
  | abortTransactions (path : FPath K) (started : Nat)
  | onDisconnect (path : FPath K) (resolved : FNode K V)
  | putResponse (put : TransactionPut K V) (status : FStatus) (errorReason : Option String)

/-- The calls that a repo answers. A purge and the events of a disconnect leave parts on the agenda, and so
does a write that goes on; `nextPart` does the first of them. -/
inductive RepoCall (K V : Type) [DatabaseKey K] where
  | set (path : FPath K) (newNode : FNode K V)
  | update (path : FPath K) (nodes resolved : FCompoundWrite K V)
  | answerWrite (index : Nat) (status : FStatus)
  | resumeWrite (index : Nat) (raisesEvents : Bool)
  | startTransaction (path : FPath K) (update : Nat → FNode K V → Option (FNode K V × FNode K V))
      (onComplete applyLocally : Bool) (persistenceServerCache : Option (FCacheNode K V))
  | answerPut (index : Nat) (status : FStatus) (errorReason : Option String)
  | restoredWriteAnswered (writeId : Int) (path : FPath K) (status : FStatus) (raisesEvents : Bool)
  | purgeOutstandingWrites
  | onDisconnect (resolved : List (FPath K × FNode K V))
  | syncTree (operation : SyncTreeOperation K V) (path : FPath K) (raisesEvents : Bool)
  | nextPart

structure FRepo (K V : Type) [DatabaseKey K] where
  serverSyncTree : FSyncTree K V
  writeIdCounter : Int
  transactionQueueTree : FTreeNode K (List Nat)
  transactions : Nat → FTupleTransaction K V
  started : Nat
  puts : List (TransactionPut K V)
  writes : List (UserWrite K V)
  agenda : List (RepoPart K V)

/-! ### Queues -/

section Queues

mutual

/-- The transactions of the queues at a node and below it. -/
def aggregateTransactionQueuesForNode : FTreeNode K (List Nat) → List Nat
  | .node children _ value => value.getD [] ++ aggregateTransactionQueuesForChildren children

def aggregateTransactionQueuesForChildren : List (K × FTreeNode K (List Nat)) → List Nat
  | [] => []
  | (_, child) :: rest =>
      aggregateTransactionQueuesForNode child ++ aggregateTransactionQueuesForChildren rest

end

/-- They are sorted by their orders, which are their numbers. -/
def buildTransactionQueueAtNode (node : FTreeNode K (List Nat)) : List Nat :=
  (aggregateTransactionQueuesForNode node).insertionSort (· ≤ ·)

/-- The handle where the search for a queue on the path ends. -/
def ancestorTransactionNode (node : FTree K (List Nat)) : FPath K → FTree K (List Nat)
  | [] => node
  | front :: rest =>
      if node.getValue.isNone then ancestorTransactionNode (node.child front) rest else node

end Queues

namespace FRepo

/-- A new repo. -/
def initial : FRepo K V :=
  ⟨.initial, 0, FTreeNode.empty, fun _ => .unused, 0, [], [], []⟩

def getAncestorTransactionNodeForPath (self : FRepo K V) (path : FPath K) : FTree K (List Nat) :=
  ancestorTransactionNode (.ofRoot self.transactionQueueTree) path

/-- A change of one transaction. -/
def modify (self : FRepo K V) (transaction : Nat)
    (change : FTupleTransaction K V → FTupleTransaction K V) : FRepo K V :=
  { self with
    transactions := Function.update self.transactions transaction (change (self.transactions transaction)) }

def status (self : FRepo K V) (transaction : Nat) : FTransactionStatus :=
  (self.transactions transaction).status

def setStatus (self : FRepo K V) (transaction : Nat) (status : FTransactionStatus) : FRepo K V :=
  self.modify transaction fun record => { record with status := status }

/-- The repo with what the sync tree has become. -/
def withSyncTree (self : FRepo K V) (serverSyncTree : Option (FSyncTree K V)) :
    Except RepoStop (FRepo K V) :=
  match serverSyncTree with
  | none => .error .syncTree
  | some serverSyncTree => .ok { self with serverSyncTree := serverSyncTree }

/-- The calls of completion blocks that were put off. -/
def fire (self : FRepo K V) (callbacks : List (Nat × TransactionCompletion K V)) : FRepo K V :=
  callbacks.foldl (fun repo callback => repo.modify callback.1 fun record =>
    { record with completions := record.completions ++ [callback.2] }) self

/-- The action of `pruneCompletedTransactionsBelowNode` at one node. -/
def pruneNode (transactions : Nat → FTupleTransaction K V) (node : FTree K (List Nat)) :
    Id (FTree K (List Nat)) :=
  match node.getValue with
  | none => node
  | some queue =>
      let filtered := queue.filter fun transaction => (transactions transaction).status ≠ .completed
      node.setValue (if filtered.isEmpty then none else some filtered)

/-- `pruneCompletedTransactionsBelowNode(transactionQueueTree.subTree(path))` -/
def pruneCompletedTransactionsBelowPath (self : FRepo K V) (path : FPath K) : FRepo K V :=
  let node := (FTree.ofRoot self.transactionQueueTree).subTree path
  { self with
    transactionQueueTree := (Id.run (FTree.visitWithSelf (pruneNode self.transactions) node.node node)).root }

section Latest

variable [DatabaseValue V]

def latestStateAtPath (self : FRepo K V) (path : FPath K) (excludeWriteIds : List Int) : FNode K V :=
  (self.serverSyncTree.calcCompleteEventCacheAtPath path excludeWriteIds).getD .empty

/-- One iteration of `sendTransactionQueue`, on the repo and the node to send. -/
def sendTransaction (path : FPath K) (state : FRepo K V × FNode K V) (transaction : Nat) :
    FRepo K V × FNode K V :=
  let record := state.1.transactions transaction
  (state.1.modify transaction fun record =>
      { record with status := .sent, retryCount := record.retryCount + 1 },
    state.2.updateChild (FPath.relativePath path record.path) record.currentOutputSnapshotRaw)

def sendTransactionQueue (self : FRepo K V) (queue : List Nat) (path : FPath K) : FRepo K V :=
  let latestState := self.latestStateAtPath path
    (queue.map fun transaction => (self.transactions transaction).currentWriteId)
  let (repo, snapToSend) := queue.foldl (sendTransaction path) (self, latestState)
  { repo with puts := repo.puts ++ [⟨queue, path, snapToSend, latestState⟩] }

mutual

def sendReadyTransactionsForTree (path : FPath K) : FTreeNode K (List Nat) → FRepo K V → FRepo K V
  | .node children childCount value, repo =>
      if value.isSome then
        let queue := buildTransactionQueueAtNode (.node children childCount value)
        if queue.all fun transaction => repo.status transaction = .run then
          repo.sendTransactionQueue queue path
        else repo
      else if 0 < childCount then sendReadyTransactionsForChildren path children repo
      else repo

def sendReadyTransactionsForChildren (path : FPath K) :
    List (K × FTreeNode K (List Nat)) → FRepo K V → FRepo K V
  | [], repo => repo
  | (name, child) :: rest, repo =>
      sendReadyTransactionsForChildren path rest (sendReadyTransactionsForTree (path ++ [name]) child repo)

end

def sendAllReadyTransactions (self : FRepo K V) : FRepo K V :=
  let pruned := self.pruneCompletedTransactionsBelowPath []
  pruned.sendReadyTransactionsForTree [] pruned.transactionQueueTree

variable [QueryFilters K V]

def ackUserWrite (self : FRepo K V) (writeId : Int) (revert : Bool) : Except RepoStop (FRepo K V) :=
  self.withSyncTree (self.serverSyncTree.ackUserWriteWithWriteId writeId revert)

def applyUserOverwrite (self : FRepo K V) (path : FPath K) (newData : FNode K V) (writeId : Int)
    (isVisible : Bool) : Except RepoStop (FRepo K V) :=
  self.withSyncTree (self.serverSyncTree.applyUserOverwriteAtPath path newData writeId isVisible)

/-! ### Reruns -/

/-- The state of the loop of `rerunTransactionQueue`. -/
structure Rerun (K V : Type) [DatabaseKey K] where
  repo : FRepo K V
  writeIdsToExclude : List Int
  callbacks : List (Nat × TransactionCompletion K V)

/-- The end of an iteration with `abortTransaction`. -/
def Rerun.abort (self : Rerun K V) (transaction : Nat) : Rerun K V :=
  let aborted := (self.repo.setStatus transaction .completed).modify transaction .unwatch
  let record := aborted.transactions transaction
  { self with
    repo := aborted
    callbacks := self.callbacks ++
      if record.onComplete then
        [(transaction, ⟨record.abortError, false, some record.currentInputSnapshot⟩)]
      else [] }

/-- The abort status is set, and the write is reverted. -/
def Rerun.abortWith (self : Rerun K V) (transaction : Nat) (abortStatus : Option FStatus) :
    Except RepoStop (Rerun K V) := do
  let failed := self.repo.modify transaction fun record => record.setAbortStatus abortStatus none
  let reverted ← failed.ackUserWrite (failed.transactions transaction).currentWriteId true
  return { self with repo := reverted : Rerun K V }.abort transaction

/-- The new run of a transaction whose update block has given a node. -/
def Rerun.updateTo (self : Rerun K V) (transaction : Nat) (newVal newValResolved : FNode K V) :
    Except RepoStop (Rerun K V) := do
  let oldWriteId := (self.repo.transactions transaction).currentWriteId
  let writeId := self.repo.writeIdCounter
  let updated := { self.repo with writeIdCounter := writeId + 1 : FRepo K V }.modify transaction
    fun record => { record with
      currentOutputSnapshotRaw := newVal
      currentOutputSnapshotResolved := newValResolved
      currentWriteId := writeId }
  let record := updated.transactions transaction
  let applied ← updated.applyUserOverwrite record.path newValResolved writeId record.applyLocally
  let acked ← applied.ackUserWrite oldWriteId true
  return { self with
    repo := acked
    writeIdsToExclude := self.writeIdsToExclude.filter fun writeId => writeId ≠ oldWriteId }

/-- One iteration of `rerunTransactionQueue`. -/
def rerunTransaction (self : Rerun K V) (transaction : Nat) : Except RepoStop (Rerun K V) :=
  let record := self.repo.transactions transaction
  match record.status with
  | .needsAbort =>
      if record.abortStatus ≠ some .writeCanceled then do
        let reverted ← self.repo.ackUserWrite record.currentWriteId true
        return { self with repo := reverted : Rerun K V }.abort transaction
      else .ok (self.abort transaction)
  | .run =>
      if kFTransactionMaxRetries ≤ record.retryCount then
        self.abortWith transaction (some .tooManyRetries)
      else
        let currentNode := self.repo.latestStateAtPath record.path self.writeIdsToExclude
        let called := { self with
          repo := self.repo.modify transaction fun record =>
            { record with currentInputSnapshot := currentNode, updates := record.updates + 1 } }
        match record.update record.updates currentNode with
        | some (newVal, newValResolved) => called.updateTo transaction newVal newValResolved
        | none => called.abortWith transaction none
  | _ => .ok self

def rerunTransactionQueue (self : FRepo K V) (queue : List Nat) : Except RepoStop (FRepo K V) :=
  if queue.isEmpty then .ok self
  else do
    let rerun ← queue.foldlM rerunTransaction
      ⟨self, queue.map fun transaction => (self.transactions transaction).currentWriteId, []⟩
    let pruned := rerun.repo.pruneCompletedTransactionsBelowPath []
    return (pruned.fire rerun.callbacks).sendAllReadyTransactions

def rerunTransactionsForPath (self : FRepo K V) (changedPath : FPath K) :
    Except RepoStop (FRepo K V) :=
  if self.transactionQueueTree.isEmpty then .ok self
  else
    self.rerunTransactionQueue
      (buildTransactionQueueAtNode (self.getAncestorTransactionNodeForPath changedPath).node)

/-! ### Aborts -/

/-- `queue.removeLast(count)` stops the program for a negative count and for one that is too big. -/
def removeLast (queue : List Nat) (count : Int) : Except RepoStop (List Nat) :=
  if count < 0 ∨ queue.length < count then .error .removeLast
  else .ok (queue.take (queue.length - count.toNat))

/-- The state of the loop of `abortTransactionsAtNode`. The loop goes through the queue that it started
with. -/
structure AbortLoop (K V : Type) [DatabaseKey K] where
  node : FTree K (List Nat)
  repo : FRepo K V
  queue : List Nat
  callbacks : List (Nat × TransactionCompletion K V)
  lastSent : Int

/-- What the loop does with one transaction before it clears the queue. -/
def AbortLoop.mark (error : FStatus) (self : AbortLoop K V) (transaction : Nat) :
    Except RepoStop (AbortLoop K V) :=
  let record := self.repo.transactions transaction
  if record.status = .sentNeedsAbort then .ok self
  else if record.status = .sent then
    .ok { self with
      lastSent := self.lastSent + 1
      repo := (self.repo.setStatus transaction .sentNeedsAbort).modify transaction fun record =>
        record.setAbortStatus (some error) none }
  else do
    let unwatched := self.repo.modify transaction .unwatch
    let reverted ←
      if error = .set then unwatched.ackUserWrite record.currentWriteId true else .ok unwatched
    return { self with
      repo := reverted
      callbacks := self.callbacks ++
        if record.onComplete then [(transaction, ⟨errorFor error none, false, none⟩)] else [] }

/-- The queue of the node is cleared, or the loop's own copy of it is cut. -/
def AbortLoop.clear (self : AbortLoop K V) : Except RepoStop (AbortLoop K V) :=
  if self.lastSent = -1 then .ok { self with node := self.node.setValue none }
  else
    (removeLast self.queue (self.queue.length - (self.lastSent + 1))).map fun queue =>
      { self with queue := queue }

/-- One iteration of `abortTransactionsAtNode`. -/
def AbortLoop.next (error : FStatus) (self : AbortLoop K V) (transaction : Nat) :
    Except RepoStop (AbortLoop K V) := do
  let marked ← self.mark error transaction
  let cleared ← marked.clear
  return { cleared with repo := cleared.repo.fire cleared.callbacks }

def abortTransactionsAtNode (error : FStatus) (node : FTree K (List Nat)) :
    StateT (FRepo K V) (Except RepoStop) (FTree K (List Nat)) := fun repo =>
  match node.getValue with
  | none => .ok (node, repo)
  | some queue => do
      let loop ← queue.foldlM (AbortLoop.next error) ⟨node, repo, queue, [], -1⟩
      return (loop.node, loop.repo)

/-- The repo, and the path where transactions are affected. -/
def abortTransactionsAtPath (self : FRepo K V) (path : FPath K) (error : FStatus) :
    Except RepoStop (FRepo K V × FPath K) :=
  if self.transactionQueueTree.isEmpty then .ok (self, path)
  else do
    let affectedPath := (self.getAncestorTransactionNodeForPath path).path
    let transactionNode := (FTree.ofRoot self.transactionQueueTree).subTree path
    let (visited, repo) ← (transactionNode.visitRelated (abortTransactionsAtNode error)).run self
    return ({ repo with transactionQueueTree := visited.root }, affectedPath)

/-! ### Calls -/

def startTransactionOnPath (self : FRepo K V) (path : FPath K)
    (update : Nat → FNode K V → Option (FNode K V × FNode K V)) (onComplete applyLocally : Bool)
    (persistenceServerCache : Option (FCacheNode K V)) : Except RepoStop (FRepo K V) :=
  let number := self.started
  let registered := { self with
    started := number + 1
    serverSyncTree := self.serverSyncTree.addEventRegistration (.handle number)
      (.defaultQueryAtPath path) persistenceServerCache }
  let currentState := registered.latestStateAtPath path []
  match update 0 currentState with
  | some (newValUnresolved, newVal) => do
      let writeId := registered.writeIdCounter
      let nodeQueue := (registered.transactionQueueTree.getValueAt path).getD []
      let queued := { registered with
        writeIdCounter := writeId + 1
        transactions := Function.update registered.transactions number
          ⟨path, update, onComplete, .run, applyLocally, 0, none, none, writeId, currentState,
            newValUnresolved, newVal, 1, 0, []⟩
        transactionQueueTree :=
          registered.transactionQueueTree.setValueAt path (some (nodeQueue ++ [number])) }
      let applied ← queued.applyUserOverwrite path newVal writeId applyLocally
      return applied.sendAllReadyTransactions
  | none =>
      -- no object is made, and the number keeps what its blocks are called with
      let completions :=
        if onComplete then [⟨none, false, some currentState⟩] else []
      .ok { registered with
        transactions := Function.update registered.transactions number
          ⟨path, update, onComplete, .completed, applyLocally, 0, none, none, 0, currentState,
            currentState, currentState, 1, 1, completions⟩ }

/-- One iteration of `handleTransactionPutResponse` for a put that was accepted. -/
def completeTransaction (state : FRepo K V × List (Nat × TransactionCompletion K V)) (transaction : Nat) :
    Except RepoStop (FRepo K V × List (Nat × TransactionCompletion K V)) := do
  let completed := state.1.setStatus transaction .completed
  let record := completed.transactions transaction
  let acked ← completed.ackUserWrite record.currentWriteId false
  let callback := (transaction, ⟨none, true, some record.currentOutputSnapshotResolved⟩)
  return (acked.modify transaction .unwatch,
    state.2 ++ if record.onComplete then [callback] else [])

/-- What an answer that is not ok does to one transaction. -/
def failTransaction (status : FStatus) (errorReason : Option String) (self : FRepo K V)
    (transaction : Nat) : FRepo K V :=
  if status = .dataStale then
    self.setStatus transaction
      (if self.status transaction = .sentNeedsAbort then .needsAbort else .run)
  else
    (self.setStatus transaction .needsAbort).modify transaction fun record =>
      record.setAbortStatus (some status) errorReason

def handleTransactionPutResponse (self : FRepo K V) (put : TransactionPut K V) (status : FStatus)
    (errorReason : Option String) : Except RepoStop (FRepo K V) :=
  if status = .ok then do
    let (completed, callbacks) ← put.queue.foldlM completeTransaction (self, [])
    let sent := (completed.pruneCompletedTransactionsBelowPath put.path).sendAllReadyTransactions
    (sent.fire callbacks).rerunTransactionsForPath put.path
  else
    (put.queue.foldl (failTransaction status errorReason) self).rerunTransactionsForPath put.path

def ackWrite (self : FRepo K V) (writeId : Int) (path : FPath K) (status : FStatus)
    (raisesEvents : Bool) : Except RepoStop (FRepo K V) :=
  if status = .writeCanceled then .ok self
  else do
    let acked ← self.ackUserWrite writeId (status ≠ .ok)
    if raisesEvents then acked.rerunTransactionsForPath path else .ok acked

/-- The aborts that a set or an update makes for one of its paths. -/
def abortAndRerun (self : FRepo K V) (path : FPath K) : Except RepoStop (FRepo K V) := do
  let (aborted, affectedPath) ← self.abortTransactionsAtPath path .set
  aborted.rerunTransactionsForPath affectedPath

def performPart (self : FRepo K V) : RepoPart K V → Except RepoStop (FRepo K V)
  | .ackWrite writeId path status raisesEvents => self.ackWrite writeId path status raisesEvents
  | .abortTransactions path _ => self.abortAndRerun path
  | .onDisconnect path resolved => do
      let applied ← self.withSyncTree (self.serverSyncTree.applyServerOverwriteAtPath path resolved)
      applied.abortAndRerun path
  | .putResponse put status errorReason => self.handleTransactionPutResponse put status errorReason

/-- The part of `set` before it waits for the answer. -/
def set (self : FRepo K V) (path : FPath K) (newNode : FNode K V) : Except RepoStop (FRepo K V) := do
  let writeId := self.writeIdCounter
  let applied ← { self with writeIdCounter := writeId + 1 : FRepo K V }.applyUserOverwrite path newNode
    writeId true
  return { applied with
    writes := applied.writes ++ [⟨writeId, path, [path], applied.started, none⟩] }

/-- The part of `update` before it waits for the answer. -/
def update (self : FRepo K V) (path : FPath K) (nodes resolved : FCompoundWrite K V) :
    Except RepoStop (FRepo K V) :=
  if resolved.isEmpty then .ok self
  else do
    let writeId := self.writeIdCounter
    let applied ← { self with writeIdCounter := writeId + 1 : FRepo K V }.withSyncTree
      (self.serverSyncTree.applyUserMergeAtPath path resolved writeId)
    let abortPaths := nodes.enumerateWrites.map fun write => path.child write.1
    return { applied with
      writes := applied.writes ++ [⟨writeId, path, abortPaths, applied.started, none⟩] }

/-- What `set` and `update` do when they go on after the answer. -/
def partsAfterAnswer (write : UserWrite K V) (status : FStatus) (raisesEvents : Bool) :
    List (RepoPart K V) :=
  .ackWrite write.writeId write.path status raisesEvents ::
    write.abortPaths.map fun path => .abortTransactions path write.started

def purgeOutstandingWrites (self : FRepo K V) : Except RepoStop (FRepo K V) := do
  let removed ← self.withSyncTree self.serverSyncTree.removeAllWrites
  let (aborted, _) ← removed.abortTransactionsAtPath [] .writeCanceled
  -- the connection answers all its puts, and the waiting writes go on later
  return { aborted with
    puts := []
    agenda := aborted.puts.map fun put => .putResponse put .writeCanceled none
    writes := aborted.writes.map fun write =>
      { write with answer := write.answer.or (some .writeCanceled) } }

/-- There is no result where the call cannot happen. -/
def perform (self : FRepo K V) : RepoCall K V → Option (Except RepoStop (FRepo K V))
  | .set path newNode => some (self.set path newNode)
  | .update path nodes resolved => some (self.update path nodes resolved)
  | .answerWrite index status =>
      match self.writes[index]? with
      | some ⟨writeId, path, abortPaths, started, none⟩ =>
          some (.ok { self with
            writes := self.writes.set index ⟨writeId, path, abortPaths, started, some status⟩ })
      | _ => none
  | .resumeWrite index raisesEvents =>
      match self.writes[index]? with
      | some write =>
          write.answer.map fun status => .ok { self with
            writes := self.writes.eraseIdx index
            agenda := partsAfterAnswer write status raisesEvents }
      | none => none
  | .startTransaction path update onComplete applyLocally persistenceServerCache =>
      some (self.startTransactionOnPath path update onComplete applyLocally persistenceServerCache)
  | .answerPut index status errorReason =>
      self.puts[index]?.map fun put =>
        { self with puts := self.puts.eraseIdx index : FRepo K V }.handleTransactionPutResponse put status
          errorReason
  | .restoredWriteAnswered writeId path status raisesEvents =>
      some (self.ackWrite writeId path status raisesEvents)
  | .purgeOutstandingWrites => some self.purgeOutstandingWrites
  | .onDisconnect resolved =>
      some (.ok { self with agenda := resolved.map fun write => .onDisconnect write.1 write.2 })
  | .syncTree operation path raisesEvents => some do
      let performed ← self.withSyncTree (self.serverSyncTree.perform operation)
      if raisesEvents then performed.rerunTransactionsForPath path else .ok performed
  | .nextPart => none

/-- Parts come before other calls. There is no next state where the call cannot happen or the program
stops. -/
def step (self : FRepo K V) (call : RepoCall K V) : Option (FRepo K V) :=
  match self.agenda, call with
  | part :: rest, .nextPart => ({ self with agenda := rest : FRepo K V }.performPart part).toOption
  | _ :: _, _ => none
  | [], call => (self.perform call).bind Except.toOption

end Latest

end FRepo

end FirebaseSwift.Database
