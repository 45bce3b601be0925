import FirebaseSwift.Library.StepRuns
import FirebaseSwift.Library.Waiters
import Mathlib.Data.List.Count
import Mathlib.Tactic.SplitIfs

/-! App credentials, `AuthAppCredentialManager`. A receipt that is started stays pending until its secret comes
in a notification or newer receipts take its place, and who started it waits for the secret or a timeout. The
credential and the pending receipts are kept in the keychain, which the next process loads. A step is what is
done under the lock once, with resuming the callers that were taken out there. -/

namespace FirebaseSwift.Auth

open StepRuns

structure AuthAppCredential where
  receipt : String
  secret : Option String
deriving DecidableEq

/-- What is saved to the keychain -/
structure AppCredentials where
  credential : Option AuthAppCredential := none
  pendingReceipts : List String := []
deriving DecidableEq

/-- Receipts in the order of their last start, those of them that were finished since, and how often a receipt
was started, and answered to be pending -/
structure ReceiptLedger where
  recency : List String := []
  finished : List String := []
  starts : List String := []
  answers : List String := []

/-- The manager with the receipt of each caller, the callers whose timers are outstanding, and the receipts
that are about to be finished by a notification. The ledger and the callers whose timers have run are not
kept in the source. -/
structure AuthAppCredentialManager where
  credential : Option AuthAppCredential := none
  pendingReceipts : List String := []
  callers : Waiters AuthAppCredential := {}
  receipts : List String := []
  fakeCredential : Option AuthAppCredential := none
  saved : Option AppCredentials := none
  timers : List Nat := []
  finishing : List String := []
  timedOut : List Nat := []
  ledger : ReceiptLedger := {}

inductive AppCredentialEvent where
  | didStartVerification (receipt : String)
  | canFinishVerification (receipt secret : String)
  /-- The rest of `canFinishVerification` -/
  | finish (receipt : String)
  | timeout (caller : Nat)
  | clearCredential
  | setFakeCredential (newValue : Option AuthAppCredential)
  /-- A new process with the same keychain -/
  | restart

namespace AuthAppCredentialManager

def maximumNumberOfPendingReceipts : Nat := 32

section Operations

variable (manager : AuthAppCredentialManager)

def saveData : AuthAppCredentialManager :=
  { manager with saved := some ⟨manager.credential, manager.pendingReceipts⟩ }

/-- The pending receipts with one that is started. The oldest makes room. -/
def recordReceipt (pendingReceipts : List String) (receipt : String) : List String :=
  let others := pendingReceipts.filter (· ≠ receipt)
  (if others.length ≥ maximumNumberOfPendingReceipts then others.tail else others) ++ [receipt]

def didStartVerification (receipt : String) : AuthAppCredentialManager :=
  saveData { manager with
    pendingReceipts := recordReceipt manager.pendingReceipts receipt
    callers := manager.callers.join
    receipts := manager.receipts ++ [receipt]
    timers := manager.timers ++ [manager.callers.called]
    ledger := { manager.ledger with
      recency := manager.ledger.recency.filter (· ≠ receipt) ++ [receipt]
      finished := manager.ledger.finished.filter (· ≠ receipt)
      starts := manager.ledger.starts ++ [receipt] } }

def canFinishVerification (receipt secret : String) : AuthAppCredentialManager :=
  if receipt ∈ manager.pendingReceipts then
    saveData { manager with
      pendingReceipts := manager.pendingReceipts.filter (· ≠ receipt)
      credential := some ⟨receipt, some secret⟩
      finishing := manager.finishing ++ [receipt]
      ledger := { manager.ledger with
        finished := manager.ledger.finished ++ [receipt]
        answers := manager.ledger.answers ++ [receipt] } }
  else manager

def clearCredential : AuthAppCredentialManager := saveData { manager with credential := none }

/-- Resumes those who wait for a receipt. -/
def finishVerification (receipt : String) : AuthAppCredentialManager :=
  let credential := (manager.fakeCredential <|> manager.credential).getD ⟨receipt, none⟩
  { manager with callers := manager.callers.release (fun caller => manager.receipts[caller]? = some receipt) credential }

def finish (receipt : String) : Option AuthAppCredentialManager :=
  if receipt ∈ manager.finishing then
    some { manager.finishVerification receipt with finishing := manager.finishing.erase receipt }
  else none

def timeout (caller : Nat) : Option AuthAppCredentialManager :=
  if caller ∈ manager.timers then
    manager.receipts[caller]?.map fun receipt =>
      { manager.finishVerification receipt with
        timers := manager.timers.erase caller, timedOut := manager.timedOut ++ [caller] }
  else none

/-- `init`, with what was saved -/
def load (saved : Option AppCredentials) (ledger : ReceiptLedger) : AuthAppCredentialManager where
  credential := (saved.getD {}).credential
  pendingReceipts := (saved.getD {}).pendingReceipts
  saved := saved
  ledger := ledger

end Operations

def step (manager : AuthAppCredentialManager) : AppCredentialEvent → Option AuthAppCredentialManager
  | .didStartVerification receipt => some (manager.didStartVerification receipt)
  | .canFinishVerification receipt secret => some (manager.canFinishVerification receipt secret)
  | .finish receipt => manager.finish receipt
  | .timeout caller => manager.timeout caller
  | .clearCredential => some manager.clearCredential
  | .setFakeCredential newValue => some { manager with fakeCredential := newValue }
  | .restart => some (load manager.saved manager.ledger)

/-! ### Pending receipts -/

/-- Pending are receipts in the order of their last start. One that is not pending was finished since, or as
many as may be pending were started after it. -/
structure ReceiptsKept (pendingReceipts : List String) (ledger : ReceiptLedger) : Prop where
  sublist : pendingReceipts.Sublist ledger.recency
  recency_nodup : ledger.recency.Nodup
  length_le : pendingReceipts.length ≤ maximumNumberOfPendingReceipts
  recent : ∀ older receipt newer, ledger.recency = older ++ receipt :: newer →
    receipt ∈ pendingReceipts ∨ receipt ∈ ledger.finished ∨ maximumNumberOfPendingReceipts ≤ newer.length
  answered : ∀ receipt, ledger.answers.count receipt + pendingReceipts.count receipt ≤ ledger.starts.count receipt

variable {pendingReceipts : List String} {ledger : ReceiptLedger}

theorem ReceiptsKept.nodup (h : ReceiptsKept pendingReceipts ledger) : pendingReceipts.Nodup :=
  h.recency_nodup.sublist h.sublist

theorem receiptsKept_empty : ReceiptsKept [] {} where
  sublist := List.Sublist.refl []
  recency_nodup := List.nodup_nil
  length_le := Nat.zero_le _
  recent _ _ _ h := absurd h.symm (List.append_ne_nil_of_right_ne_nil _ (List.cons_ne_nil _ _))
  answered _ := Nat.le_refl _

/-- What stands behind the first element of a sublist -/
theorem sublist_of_cons_sublist {x : String} {rest older newer : List String} (hnodup : (older ++ x :: newer).Nodup)
    (h : (x :: rest).Sublist (older ++ x :: newer)) : rest.Sublist newer := by
  obtain ⟨front, back, heq, hfront, hback⟩ := List.sublist_append_iff.mp h
  cases front with
  | nil =>
      rw [List.nil_append] at heq
      rw [← heq] at hback
      exact List.cons_sublist_cons.mp hback
  | cons y front =>
      obtain ⟨rfl, -⟩ := List.cons.inj heq
      exact absurd rfl ((List.nodup_append.mp hnodup).2.2 _ (hfront.subset List.mem_cons_self) _ List.mem_cons_self)

/-- Where the receipts that are pending with a new one come from -/
theorem recordReceipt_eq (pendingReceipts : List String) (receipt : String) :
    ∃ kept, recordReceipt pendingReceipts receipt = kept ++ [receipt] ∧
      kept.Sublist (pendingReceipts.filter (· ≠ receipt)) ∧
      ((pendingReceipts.filter (· ≠ receipt)).length < maximumNumberOfPendingReceipts ∧
          kept = pendingReceipts.filter (· ≠ receipt) ∨
        maximumNumberOfPendingReceipts ≤ (pendingReceipts.filter (· ≠ receipt)).length ∧
          ∃ oldest, pendingReceipts.filter (· ≠ receipt) = oldest :: kept) := by
  rw [recordReceipt]
  split_ifs with hfull
  · refine ⟨_, rfl, List.tail_sublist _, .inr ⟨hfull, ?_⟩⟩
    cases hothers : pendingReceipts.filter (· ≠ receipt) with
    | nil =>
        rw [hothers] at hfull
        exact absurd hfull (by decide)
    | cons oldest rest => exact ⟨oldest, rfl⟩
  · exact ⟨_, rfl, List.Sublist.refl _, .inl ⟨Nat.lt_of_not_ge hfull, rfl⟩⟩

theorem length_filter_ne {receipts : List String} (h : receipts.Nodup) (receipt : String) :
    receipts.length ≤ (receipts.filter (· ≠ receipt)).length + 1 := by
  have hsplit := receipts.length_eq_length_filter_add fun other => decide (other ≠ receipt)
  have hsame : (receipts.filter fun other => !decide (other ≠ receipt)).length ≤ 1 := by
    rw [← List.countP_eq_length_filter]
    refine le_trans (le_of_eq (List.countP_congr fun other _ => ?_)) (List.nodup_iff_count_le_one.mp h receipt)
    simp
  omega

theorem count_filter_ne (receipts : List String) (receipt other : String) :
    (receipts.filter (· ≠ receipt)).count other = if other = receipt then 0 else receipts.count other := by
  split_ifs with heq
  · rw [heq]
    exact List.count_eq_zero.mpr fun hmem => absurd rfl (of_decide_eq_true (List.mem_filter.mp hmem).2)
  · exact List.count_filter (decide_eq_true heq)

theorem ReceiptsKept.start (h : ReceiptsKept pendingReceipts ledger) (receipt : String) :
    ReceiptsKept (recordReceipt pendingReceipts receipt) { ledger with
      recency := ledger.recency.filter (· ≠ receipt) ++ [receipt]
      finished := ledger.finished.filter (· ≠ receipt)
      starts := ledger.starts ++ [receipt] } := by
  obtain ⟨kept, hkept, hsublist, hroom⟩ := recordReceipt_eq pendingReceipts receipt
  have hothers : (pendingReceipts.filter (· ≠ receipt)).Sublist (ledger.recency.filter (· ≠ receipt)) := h.sublist.filter _
  have hothersLength : (pendingReceipts.filter (· ≠ receipt)).length ≤ maximumNumberOfPendingReceipts :=
    (List.length_filter_le _ _).trans h.length_le
  have hfilterNodup : (ledger.recency.filter (· ≠ receipt)).Nodup := h.recency_nodup.filter _
  rw [hkept]
  refine ⟨(hsublist.trans hothers).append (List.Sublist.refl _), ?_, ?_, ?_, fun other => ?_⟩
  · refine List.nodup_append.mpr ⟨hfilterNodup, List.nodup_singleton _, fun other hother last hlast heq => ?_⟩
    rw [heq, List.mem_singleton.mp hlast] at hother
    exact of_decide_eq_true (List.mem_filter.mp hother).2 rfl
  · rw [List.length_append, List.length_singleton]
    rcases hroom with ⟨hlt, rfl⟩ | ⟨-, oldest, hoverflow⟩
    · exact hlt
    · rw [hoverflow, List.length_cons] at hothersLength
      exact hothersLength
  · intro older other newer hrecency
    rcases newer.eq_nil_or_concat with rfl | ⟨newer, last, rfl⟩
    · obtain ⟨-, hlast⟩ := List.append_inj' hrecency rfl
      exact .inl (List.mem_append_right _ (hlast ▸ List.mem_singleton_self _))
    · rw [List.concat_eq_append, ← List.cons_append, ← List.append_assoc] at hrecency
      obtain ⟨hfilter, -⟩ := List.append_inj' hrecency rfl
      obtain ⟨older', behind, hsplit, hfront, hbehind⟩ := List.filter_eq_append_iff.mp hfilter
      obtain ⟨skipped, newer', rfl, hskipped, hne, hnewer⟩ := List.filter_eq_cons_iff.mp hbehind
      have hne : other ≠ receipt := of_decide_eq_true hne
      rw [← List.append_assoc] at hsplit
      rw [List.concat_eq_append, List.length_append, List.length_singleton]
      rcases h.recent _ other newer' hsplit with hpending | hfinished | hmany
      · have hother : other ∈ pendingReceipts.filter (· ≠ receipt) := List.mem_filter.mpr ⟨hpending, decide_eq_true hne⟩
        rcases hroom with ⟨-, rfl⟩ | ⟨hfull, oldest, hoverflow⟩
        · exact .inl (List.mem_append_left _ hother)
        · rw [hoverflow] at hother hothers hfull
          rcases List.mem_cons.mp hother with rfl | hmem
          · -- The oldest makes room for as many as may be pending, all started after it.
            rw [hfilter] at hothers hfilterNodup
            have hlength := (sublist_of_cons_sublist hfilterNodup hothers).length_le
            rw [List.length_cons] at hfull
            exact .inr (.inr (hfull.trans (Nat.succ_le_succ hlength)))
          · exact .inl (List.mem_append_left _ hmem)
      · exact .inr (.inl (List.mem_filter.mpr ⟨hfinished, decide_eq_true hne⟩))
      · have hnodup : newer'.Nodup := by
          have hrecencyNodup := h.recency_nodup
          rw [hsplit] at hrecencyNodup
          exact (List.nodup_cons.mp hrecencyNodup.of_append_right).2
        rw [← hnewer]
        exact .inr (.inr (hmany.trans (length_filter_ne hnodup receipt)))
  · have hcount := h.answered other
    have hkeptCount := hsublist.count_le other
    rw [count_filter_ne] at hkeptCount
    show ledger.answers.count other + (kept ++ [receipt]).count other ≤ (ledger.starts ++ [receipt]).count other
    rw [List.count_append, List.count_append]
    split_ifs at hkeptCount with heq
    · omega
    · omega

theorem ReceiptsKept.finish (h : ReceiptsKept pendingReceipts ledger) {receipt : String} (hpending : receipt ∈ pendingReceipts) :
    ReceiptsKept (pendingReceipts.filter (· ≠ receipt)) { ledger with
      finished := ledger.finished ++ [receipt]
      answers := ledger.answers ++ [receipt] } where
  sublist := List.filter_sublist.trans h.sublist
  recency_nodup := h.recency_nodup
  length_le := (List.length_filter_le _ _).trans h.length_le
  recent older other newer hrecency := by
    rcases h.recent older other newer hrecency with hother | hfinished | hmany
    · by_cases heq : other = receipt
      · exact .inr (.inl (List.mem_append_right _ (List.mem_singleton.mpr heq)))
      · exact .inl (List.mem_filter.mpr ⟨hother, decide_eq_true heq⟩)
    · exact .inr (.inl (List.mem_append_left _ hfinished))
    · exact .inr (.inr hmany)
  answered other := by
    have hcount := h.answered other
    show (ledger.answers ++ [receipt]).count other + _ ≤ ledger.starts.count other
    rw [List.count_append, count_filter_ne]
    split_ifs with heq
    · have hpos := List.count_pos_iff.mpr hpending
      rw [heq, List.count_singleton_self, Nat.add_zero]
      rw [heq] at hcount
      omega
    · rw [List.count_singleton, if_neg (by rw [beq_iff_eq]; exact fun hsame => heq hsame.symm)]
      exact hcount

/-! ### What holds after every step -/

structure Formed (manager : AuthAppCredentialManager) : Prop where
  kept : manager.callers.Kept
  recorded : manager.receipts.length = manager.callers.called
  pending : ReceiptsKept manager.pendingReceipts manager.ledger
  saved : manager.saved.getD {} = ⟨manager.credential, manager.pendingReceipts⟩
  outstanding : ∀ caller ∈ manager.callers.waiting, caller ∈ manager.timers
  timers_nodup : manager.timers.Nodup
  timers_lt : ∀ caller ∈ manager.timers, caller < manager.callers.called
  timedOut : ∀ caller ∈ manager.timedOut, caller < manager.callers.called ∧ caller ∉ manager.timers

variable {manager manager' : AuthAppCredentialManager}

theorem formed_load {saved : Option AppCredentials} (h : ReceiptsKept (saved.getD {}).pendingReceipts ledger) :
    (load saved ledger).Formed where
  kept := Waiters.kept_empty
  recorded := rfl
  pending := h
  saved := rfl
  outstanding _ h := absurd h List.not_mem_nil
  timers_nodup := List.nodup_nil
  timers_lt _ h := absurd h List.not_mem_nil
  timedOut _ h := absurd h List.not_mem_nil

theorem Formed.didStartVerification (h : manager.Formed) (receipt : String) :
    (manager.didStartVerification receipt).Formed where
  kept := h.kept.join
  recorded := by
    show (manager.receipts ++ [receipt]).length = manager.callers.called + 1
    rw [List.length_append, h.recorded, List.length_singleton]
  pending := h.pending.start receipt
  saved := rfl
  outstanding caller hcaller := by
    rcases List.mem_append.mp hcaller with hcaller | hcaller
    · exact List.mem_append_left _ (h.outstanding caller hcaller)
    · exact List.mem_append_right _ hcaller
  timers_nodup := List.nodup_append.mpr ⟨h.timers_nodup, List.nodup_singleton _, fun caller hcaller last hlast heq => by
    rw [heq, List.mem_singleton.mp hlast] at hcaller
    exact lt_irrefl _ (h.timers_lt _ hcaller)⟩
  timers_lt := List.forall_mem_append.mpr ⟨fun caller hcaller => Nat.lt_succ_of_lt (h.timers_lt caller hcaller),
    List.forall_mem_singleton.mpr (Nat.lt_succ_self _)⟩
  timedOut caller hcaller := by
    obtain ⟨hlt, hnot⟩ := h.timedOut caller hcaller
    refine ⟨Nat.lt_succ_of_lt hlt, fun hmem => ?_⟩
    rcases List.mem_append.mp hmem with hmem | hmem
    · exact hnot hmem
    · exact hlt.ne (List.mem_singleton.mp hmem)

theorem Formed.canFinishVerification (h : manager.Formed) (receipt secret : String) :
    (manager.canFinishVerification receipt secret).Formed := by
  rw [AuthAppCredentialManager.canFinishVerification]
  split_ifs with hpending
  · exact ⟨h.kept, h.recorded, h.pending.finish hpending, rfl, h.outstanding, h.timers_nodup, h.timers_lt, h.timedOut⟩
  · exact h

theorem Formed.finishVerification (h : manager.Formed) (receipt : String) : (manager.finishVerification receipt).Formed where
  kept := h.kept.release _ _
  recorded := h.recorded
  pending := h.pending
  saved := h.saved
  outstanding caller hcaller := h.outstanding caller (Waiters.mem_release_waiting.mp hcaller).1
  timers_nodup := h.timers_nodup
  timers_lt := h.timers_lt
  timedOut := h.timedOut

/-- After the timer of a caller nobody waits with its receipt, so that the caller does not wait. -/
theorem Formed.timeout (h : manager.Formed) {caller : Nat} (hstep : manager.timeout caller = some manager') :
    manager'.Formed := by
  rw [AuthAppCredentialManager.timeout] at hstep
  split_ifs at hstep with htimer
  obtain ⟨receipt, hreceipt, rfl⟩ := Option.map_eq_some_iff.mp hstep
  have hfinished := h.finishVerification receipt
  refine ⟨hfinished.kept, hfinished.recorded, hfinished.pending, hfinished.saved, fun other hother => ?_,
    h.timers_nodup.erase _, fun other hother => h.timers_lt other (List.mem_of_mem_erase hother), ?_⟩
  · have hne : other ≠ caller := by
      rintro rfl
      exact of_decide_eq_false (Waiters.mem_release_waiting.mp hother).2 hreceipt
    exact (List.mem_erase_of_ne hne).mpr (hfinished.outstanding other hother)
  · refine List.forall_mem_append.mpr ⟨fun other hother => ?_, List.forall_mem_singleton.mpr ?_⟩
    · obtain ⟨hlt, hnot⟩ := h.timedOut other hother
      exact ⟨hlt, fun hmem => hnot (List.mem_of_mem_erase hmem)⟩
    · exact ⟨h.timers_lt caller htimer, h.timers_nodup.not_mem_erase⟩

theorem Formed.step (h : manager.Formed) {event : AppCredentialEvent} (hstep : manager.step event = some manager') :
    manager'.Formed := by
  cases event with
  | didStartVerification receipt =>
      cases hstep
      exact h.didStartVerification receipt
  | canFinishVerification receipt secret =>
      cases hstep
      exact h.canFinishVerification receipt secret
  | finish receipt =>
      rw [AuthAppCredentialManager.step, finish] at hstep
      split_ifs at hstep
      cases hstep
      have hfinished := h.finishVerification receipt
      exact ⟨hfinished.kept, hfinished.recorded, hfinished.pending, hfinished.saved, hfinished.outstanding,
        hfinished.timers_nodup, hfinished.timers_lt, hfinished.timedOut⟩
  | timeout caller => exact h.timeout hstep
  | clearCredential =>
      cases hstep
      exact ⟨h.kept, h.recorded, h.pending, rfl, h.outstanding, h.timers_nodup, h.timers_lt, h.timedOut⟩
  | setFakeCredential newValue =>
      cases hstep
      exact ⟨h.kept, h.recorded, h.pending, h.saved, h.outstanding, h.timers_nodup, h.timers_lt, h.timedOut⟩
  | restart =>
      cases hstep
      refine formed_load ?_
      rw [h.saved]
      exact h.pending

/-! ### Runs -/

theorem formed_run {events : List AppCredentialEvent} (hrun : run step (load none {}) events = some manager) :
    manager.Formed := by
  have hinitial : (load none {}).Formed := @formed_load {} none receiptsKept_empty
  exact invariant_run (fun _ _ h (_ : True) _ hstep => h.step hstep) hinitial (allSteps_true (fun _ _ => trivial) _ _) hrun

/-- The callers that were resumed -/
def resumedCallers (manager : AuthAppCredentialManager) : List Nat := manager.callers.resumed.map Prod.fst

end AuthAppCredentialManager

end FirebaseSwift.Auth
