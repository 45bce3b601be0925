import FirebaseSwift.Library.AnswerBooks
import FirebaseSwift.Database.PutBookkeeping

/-! Puts and their answers. The answer to a put is held back while the response to a listen is awaited, and
the count of these starts anew when the connection goes. In a run in which no connection closes while an
answer is held back, and no completion puts more while the outstanding puts are cancelled, every put is
told its answer at most once, no put gets lost, and the answers of the server are passed on in the order
in which they came. -/

namespace FirebaseSwift.Database

open SortedDictionary StepRuns

variable {K V A : Type} [DatabaseKey K]

/-- A connection with the answers to puts that came, in their order. -/
structure PutHistory (K V A : Type) [DatabaseKey K] where
  connection : FPersistentConnection K V A := {}
  answers : List (Nat × PutAnswer) := []

namespace PutHistory

def step [DatabaseValue V] (wire : WireFormat K A) (self : PutHistory K V A) (event : FPersistentConnection.Event K V A) :
    Option (PutHistory K V A) :=
  some
    { connection := self.connection.handle wire event
      answers := self.answers ++ (self.connection.answersPut wire event).toList }

/-- The answers that were passed on, and those that are held back, are the answers that came, in order. No
put is told twice, none is lost, and nothing is held back while no listen is counted. -/
structure PutsAnswered (history : PutHistory K V A) : Prop where
  called_once : (history.connection.calledPuts.map Prod.fst).Nodup
  kept : ∀ index, 1 ≤ index → index < history.connection.putCounter →
    index ∉ history.connection.calledPuts.map Prod.fst →
    get index history.connection.outstandingPuts ≠ none ∨ index ∈ history.connection.heldAnswers.map Prod.fst
  in_order : AnswerBook.passedOf history.answers history.connection.calledPuts ++
    history.connection.heldAnswers = history.answers
  acknowledged : history.connection.unackedListensCount = 0 → history.connection.putsToAck = []

/-- The books of a history. -/
def book (self : PutHistory K V A) : AnswerBook Nat PutAnswer where
  issued := {index | 1 ≤ index ∧ index < self.connection.putCounter}
  outstanding := {index | get index self.connection.outstandingPuts ≠ none}
  held := self.connection.heldAnswers
  passed := self.connection.calledPuts
  answers := self.answers
  counted := self.connection.unackedListensCount
  awaited := self.connection.awaitedListens

/-- What a run keeps under the condition. -/
structure PutsKept (history : PutHistory K V A) : Prop where
  sorted : Sorted (· < ·) history.connection.outstandingPuts
  counter : 1 ≤ history.connection.putCounter
  formed : history.book.Formed

theorem PutsKept.putsAnswered {history : PutHistory K V A} (h : history.PutsKept) : history.PutsAnswered where
  called_once := h.formed.passed_once
  kept := fun index hpos hlt hnot => h.formed.kept index ⟨hpos, hlt⟩ hnot
  in_order := h.formed.in_order
  acknowledged := fun hzero => List.map_eq_nil_iff.mp (h.formed.released hzero)

theorem PutsKept.empty : PutsKept ({} : PutHistory K V A) where
  sorted := sorted_nil _
  counter := Nat.le_refl 1
  formed := by
    refine ⟨List.nodup_nil, List.nodup_nil, fun index hissued => ?_, rfl, fun _ => rfl, le_refl _, ?_, nofun, nofun⟩
    · exact absurd hissued.2 (Nat.not_lt.mpr hissued.1)
    · exact fun index houtstanding => absurd rfl houtstanding

variable {state state' : FPersistentConnection K V A} {answers : List (Nat × PutAnswer)}

theorem PutsKept.keepsPuts (h : PutsKept ⟨state, answers⟩) (hkeeps : state.KeepsPuts state') :
    PutsKept ⟨state', answers⟩ := by
  refine ⟨hkeeps.sorted h.sorted, hkeeps.putCounter ▸ h.counter, ?_⟩
  have hbook : book ⟨state', answers⟩ =
      { book ⟨state, answers⟩ with
        counted := state'.unackedListensCount, awaited := state'.awaitedListens } := by
    simp only [book, FPersistentConnection.heldAnswers, hkeeps.putCounter, hkeeps.putsToAck, hkeeps.called, ne_eq,
      hkeeps.outstanding]
  rw [hbook]
  exact h.formed.move (.await _ _ hkeeps.grows hkeeps.gap)

/-- A put is issued under a new number. -/
theorem PutsKept.putInternal (h : PutsKept ⟨state, answers⟩) (put : FOutstandingPut K A) :
    PutsKept ⟨state.putInternal put, answers⟩ := by
  have hadded : PutsKept
      ⟨{ state with
          putCounter := state.putCounter + 1
          outstandingPuts := set (· < ·) state.putCounter put state.outstandingPuts }, answers⟩ := by
    refine ⟨h.sorted.set _ _ _, h.counter.trans (Nat.le_succ _), ?_⟩
    have hmove := h.formed.move (.issue state.putCounter fun hissued => lt_irrefl _ hissued.2)
    convert hmove using 1
    have hcounter := h.counter
    simp only [book] at hcounter ⊢
    congr 1
    · ext index
      simp only [Set.mem_ofPred_eq, Set.mem_insert_iff]
      omega
    · ext index
      simp only [Set.mem_ofPred_eq, Set.mem_insert_iff]
      rw [get_set]
      split_ifs with heq <;> simp [heq]
  unfold FPersistentConnection.putInternal
  extract_lets index added
  split_ifs
  · exact hadded.keepsPuts (FPersistentConnection.keepsPuts_sendPut added index)
  · exact hadded

theorem PutsKept.foldl_putInternal (h : PutsKept ⟨state, answers⟩) (puts : List (FOutstandingPut K A)) :
    PutsKept ⟨puts.foldl FPersistentConnection.putInternal state, answers⟩ := by
  induction puts generalizing state with
  | nil => exact h
  | cons put puts ih => exact ih (h.putInternal put)

/-- Puts that are made take numbers and change nothing that was told or is held back. -/
theorem foldl_putInternal_fields (puts : List (FOutstandingPut K A)) (state : FPersistentConnection K V A) :
    (puts.foldl FPersistentConnection.putInternal state).putCounter = state.putCounter + puts.length ∧
      (puts.foldl FPersistentConnection.putInternal state).calledPuts = state.calledPuts ∧
      (puts.foldl FPersistentConnection.putInternal state).putsToAck = state.putsToAck := by
  induction puts generalizing state with
  | nil => exact ⟨rfl, rfl, rfl⟩
  | cons put puts ih =>
      have hput : (state.putInternal put).putCounter = state.putCounter + 1 ∧
          (state.putInternal put).calledPuts = state.calledPuts ∧
          (state.putInternal put).putsToAck = state.putsToAck := by
        unfold FPersistentConnection.putInternal
        extract_lets index added
        split_ifs
        · have hsent := FPersistentConnection.keepsPuts_sendPut added index
          exact ⟨hsent.putCounter, hsent.called, hsent.putsToAck⟩
        · exact ⟨rfl, rfl, rfl⟩
      obtain ⟨hcounter, hcalled, hputsToAck⟩ := ih (state.putInternal put)
      refine ⟨?_, hcalled.trans hput.2.1, hputsToAck.trans hput.2.2⟩
      rw [List.foldl_cons, hcounter, hput.1, List.length_cons]
      omega

theorem calledPuts_append (puts : List (Nat × PutAnswer)) {outputs : List (Output K A)}
    (houtputs : state'.outputs = state.outputs ++ outputs) (hputs : outputs.filterMap Output.calledPut = puts) :
    state'.calledPuts = state.calledPuts ++ puts := by
  rw [FPersistentConnection.calledPuts, houtputs, List.filterMap_append, hputs]
  rfl

/-- Told puts are the puts that were told. -/
theorem calledPut_map {α : Type} (l : List α) (index : α → Nat) (answer : α → PutAnswer) :
    (l.map fun a => (Output.put (index a) (answer a).1 (answer a).2 : Output K A)).filterMap Output.calledPut =
      l.map fun a => (index a, answer a) := by
  rw [List.filterMap_map, ← List.filterMap_eq_map]
  rfl

theorem calledPuts_ackPuts : state.ackPuts.calledPuts = state.calledPuts ++ state.heldAnswers :=
  calledPuts_append _ rfl (calledPut_map _ PutToAck.index fun put => (put.status, put.errorReason))

theorem book_ackPuts : book ⟨state.ackPuts, answers⟩ = (book ⟨state, answers⟩).release := by
  simp only [book, AnswerBook.release, calledPuts_ackPuts]
  rfl

theorem PutsKept.ackPuts (h : PutsKept ⟨state, answers⟩) : PutsKept ⟨state.ackPuts, answers⟩ := by
  refine ⟨h.sorted, h.counter, ?_⟩
  rw [book_ackPuts]
  exact h.formed.move .release

/-- The answer to a put is passed on or held back. -/
theorem PutsKept.onPutResponse (h : PutsKept ⟨state, answers⟩) {index : Nat} {put : FOutstandingPut K A}
    (hfound : get index state.outstandingPuts = some put) (body : Option (Response A)) : PutsKept
      ⟨state.onPutResponse index body, answers ++ [(index, (body.bind Response.status).getD "failed",
          (body.bind Response.data).bind ResponseData.asString)]⟩ := by
  have houtstanding : index ∈ (book ⟨state, answers⟩).outstanding := by
    change get index state.outstandingPuts ≠ none
    rw [hfound]
    exact Option.some_ne_none put
  have hmove := h.formed.move (.answer (index, (body.bind Response.status).getD "failed",
    (body.bind Response.data).bind ResponseData.asString) houtstanding)
  unfold FPersistentConnection.onPutResponse
  simp only [hfound]
  have hremaining : {index' | get index' (remove index state.outstandingPuts) ≠ none} =
      {index' | get index' state.outstandingPuts ≠ none} \ {index} := by
    ext index'
    simp only [Set.mem_ofPred_eq, Set.mem_sdiff, Set.mem_singleton_iff]
    rw [get_remove]
    split_ifs with heq <;> simp [heq]
  split_ifs with hzero
  · refine ⟨h.sorted.remove index, h.counter, ?_⟩
    convert hmove using 1
    simp only [AnswerBook.answer, book, hzero, if_true, FPersistentConnection.output, hremaining]
    congr 1
    exact calledPuts_append _ rfl rfl
  · refine ⟨h.sorted.remove index, h.counter, ?_⟩
    convert hmove using 1
    simp only [AnswerBook.answer, book, hzero, if_false, hremaining]
    congr 1
    exact List.map_append

/-- The puts of sent transactions are cancelled when the connection goes. -/
theorem PutsKept.cancelSentTransactions (h : PutsKept ⟨state, answers⟩) :
    PutsKept ⟨state.cancelSentTransactions, answers⟩ := by
  let sentTransaction : Nat × FOutstandingPut K A → Bool := fun entry => entry.2.hash.isSome && entry.2.sent
  let cancelled := (state.outstandingPuts.filter sentTransaction).map fun entry =>
    (entry.1, (("disconnect", some "Client was disconnected while running a transaction") : PutAnswer))
  have hkeys : cancelled.map Prod.fst = (state.outstandingPuts.filter sentTransaction).map Prod.fst := by
    simp [cancelled]
  have hnodup : (cancelled.map Prod.fst).Nodup := by
    rw [hkeys]
    exact h.sorted.nodup_keys.sublist (List.filter_sublist.map Prod.fst)
  have houtstanding : ∀ index ∈ cancelled.map Prod.fst, index ∈ (book ⟨state, answers⟩).outstanding := by
    intro index hindex
    rw [hkeys] at hindex
    exact mem_keys_iff.mp (List.map_subset _ List.filter_sublist.subset hindex)
  have hmove := h.formed.move (.cancel cancelled hnodup houtstanding)
  refine ⟨h.sorted.sublist List.filter_sublist, h.counter, ?_⟩
  convert hmove using 1
  simp only [book, AnswerBook.cancel]
  congr 1
  · ext index
    rw [Set.mem_ofPred_eq, Set.mem_sdiff, Set.mem_ofPred_eq, Set.mem_ofPred_eq, hkeys]
    rw [← mem_keys_iff, ← mem_keys_iff]
    refine (h.sorted.mem_keys_filter _ index).trans (and_congr_right fun _ => ?_)
    simp only [sentTransaction, Bool.not_not]
  · exact calledPuts_append _ rfl (calledPut_map _ Prod.fst fun _ =>
      ("disconnect", some "Client was disconnected while running a transaction"))

/-- Where no answer is held back, the count of listens may start anew. -/
theorem PutsKept.onDisconnect (h : PutsKept ⟨state, answers⟩) (hheld : state.putsToAck = []) :
    PutsKept ⟨state.onDisconnect, answers⟩ := by
  have hdropped : PutsKept ⟨{ state with connectionState := .disconnected, realtime := none }, answers⟩ :=
    h.keepsPuts (.of_same rfl rfl rfl rfl rfl rfl)
  have hcancelled := hdropped.cancelSentTransactions
  unfold FPersistentConnection.onDisconnect
  extract_lets dropped reset scheduled
  have hreset : PutsKept ⟨reset, answers⟩ :=
    ⟨hcancelled.sorted, hcancelled.counter, hcancelled.formed.move (.reset (by
      change (state.putsToAck.map _) = []
      rw [hheld]
      rfl))⟩
  have hscheduled : reset.KeepsPuts scheduled := by
    dsimp only [scheduled]
    split_ifs
    · exact FPersistentConnection.keepsPuts_tryScheduleReconnect reset
    · exact .refl reset
  exact hreset.keepsPuts (hscheduled.trans (FPersistentConnection.keepsPuts_output rfl))

theorem PutsKept.closes (h : PutsKept ⟨state, answers⟩) (hheld : state.putsToAck = [])
    (hcloses : state.Closes state') : PutsKept ⟨state', answers⟩ := by
  obtain ⟨dropped, hdropped, hclosed, _⟩ := hcloses
  exact ((h.keepsPuts hdropped).onDisconnect (hdropped.putsToAck.trans hheld)).keepsPuts hclosed

/-- Outstanding puts are cancelled, and those that are put meanwhile only take numbers. -/
theorem purgeOutstandingWrites_fields {acked : FPersistentConnection K V A}
    (acknowledging cancelling : List (FOutstandingPut K A))
    (hacked : acked = acknowledging.foldl FPersistentConnection.putInternal state.ackPuts) :
    (state.purgeOutstandingWrites acknowledging cancelling).putCounter = acked.putCounter + cancelling.length ∧
      (state.purgeOutstandingWrites acknowledging cancelling).calledPuts =
        acked.calledPuts ++ acked.cancelledPuts ∧
      (state.purgeOutstandingWrites acknowledging cancelling).putsToAck = [] := by
  subst hacked
  unfold FPersistentConnection.purgeOutstandingWrites
  extract_lets acked cancelled cancelled'
  have hcancelled : cancelled.calledPuts = acked.calledPuts ++ acked.cancelledPuts :=
    calledPuts_append _ rfl (calledPut_map _ Prod.fst fun _ => ("write_canceled", none))
  obtain ⟨hcounter, hcalled, hputsToAck⟩ := foldl_putInternal_fields cancelling cancelled
  obtain ⟨_, _, hackedPuts⟩ := foldl_putInternal_fields acknowledging state.ackPuts
  refine ⟨hcounter, ?_, hputsToAck.trans hackedPuts⟩
  refine Eq.trans ?_ (hcalled.trans hcancelled)
  refine (calledPuts_append [] rfl (List.filterMap_eq_nil_iff.mpr fun output houtput => ?_)).trans
    (List.append_nil _)
  obtain ⟨tuple, _, rfl⟩ := List.mem_map.mp houtput
  rfl

theorem keys_cancelledPuts : state.cancelledPuts.map Prod.fst = state.outstandingPuts.map Prod.fst := by
  rw [FPersistentConnection.cancelledPuts, List.map_map]
  rfl

theorem PutsKept.purgeOutstandingWrites (h : PutsKept ⟨state, answers⟩)
    (acknowledging : List (FOutstandingPut K A)) :
    PutsKept ⟨state.purgeOutstandingWrites acknowledging [], answers⟩ := by
  have hkept := h.ackPuts.foldl_putInternal acknowledging
  generalize hacked : acknowledging.foldl FPersistentConnection.putInternal state.ackPuts = acked at hkept
  obtain ⟨hcounter, hcalled, hputsToAck⟩ := purgeOutstandingWrites_fields acknowledging [] hacked.symm
  obtain ⟨_, _, hackedPuts⟩ := foldl_putInternal_fields acknowledging state.ackPuts
  have hmove := hkept.formed.move (.cancel acked.cancelledPuts
    (by rw [keys_cancelledPuts]; exact hkept.sorted.nodup_keys) fun index hindex => by
      rw [keys_cancelledPuts] at hindex
      exact mem_keys_iff.mp hindex)
  refine ⟨sorted_nil _, hcounter ▸ hkept.counter, ?_⟩
  convert hmove using 1
  simp only [book, AnswerBook.cancel, hcounter, hcalled]
  congr 1
  · ext index
    rw [Set.mem_ofPred_eq, Set.mem_sdiff, Set.mem_ofPred_eq, Set.mem_ofPred_eq, keys_cancelledPuts]
    exact iff_of_false (fun hne => hne rfl) fun hmem => hmem.2 (mem_keys_iff.mpr hmem.1)
  · rw [FPersistentConnection.heldAnswers, FPersistentConnection.heldAnswers, hputsToAck, ← hacked, hackedPuts]
    rfl
  · subst hacked
    rfl
  · subst hacked
    rfl

/-- What completions put while outstanding puts are cancelled is lost. -/
theorem not_putsAnswered_purge (h : PutsKept ⟨state, answers⟩) (acknowledging : List (FOutstandingPut K A))
    {cancelling : List (FOutstandingPut K A)} (hcancelling : cancelling ≠ []) {answers' : List (Nat × PutAnswer)} :
    ¬ PutsAnswered ⟨state.purgeOutstandingWrites acknowledging cancelling, answers'⟩ := by
  intro hanswered
  have hkept := h.ackPuts.foldl_putInternal acknowledging
  generalize hacked : acknowledging.foldl FPersistentConnection.putInternal state.ackPuts = acked at hkept
  obtain ⟨hcounter, hcalled, hputsToAck⟩ := purgeOutstandingWrites_fields acknowledging cancelling hacked.symm
  have hlt : acked.putCounter < acked.putCounter + cancelling.length :=
    Nat.lt_add_of_pos_right (List.length_pos_iff.mpr hcancelling)
  have hnot : acked.putCounter ∉ (acked.calledPuts ++ acked.cancelledPuts).map Prod.fst := by
    rw [List.map_append, keys_cancelledPuts, List.mem_append]
    rintro (hmem | hmem)
    · exact lt_irrefl _ (hkept.formed.passed _ hmem).2
    · exact lt_irrefl _ (hkept.formed.outstanding _ (mem_keys_iff.mp hmem)).1.2
  rcases hanswered.kept acked.putCounter hkept.counter (hcounter ▸ hlt) (hcalled ▸ hnot) with houtstanding | hheld
  · exact houtstanding rfl
  · rw [FPersistentConnection.heldAnswers, hputsToAck] at hheld
    cases hheld

/-- One listen fewer is counted where one fewer is awaited. -/
theorem PutsKept.countListen (h : PutsKept ⟨state, answers⟩) (hcounter : state'.putCounter = state.putCounter)
    (houtstanding : state'.outstandingPuts = state.outstandingPuts) (hputsToAck : state'.putsToAck = state.putsToAck)
    (hcalled : state'.calledPuts = state.calledPuts)
    (hcount : state'.unackedListensCount = state.unackedListensCount - 1)
    (hawaited : state'.awaitedListens < state.awaitedListens) :
    PutsKept ⟨if state'.unackedListensCount = 0 then state'.ackPuts else state', answers⟩ := by
  have hmove := h.formed.move (.settle state'.awaitedListens hawaited)
  have hsorted : Sorted (· < ·) state'.outstandingPuts := houtstanding ▸ h.sorted
  have hpos : 1 ≤ state'.putCounter := hcounter ▸ h.counter
  have hbook : book ⟨state', answers⟩ =
      { book ⟨state, answers⟩ with
        counted := state.unackedListensCount - 1, awaited := state'.awaitedListens } := by
    simp only [book, FPersistentConnection.heldAnswers, hcalled, hcounter, houtstanding, hputsToAck, hcount]
  rw [hcount]
  split_ifs with hlast
  · refine ⟨hsorted, hpos, ?_⟩
    convert hmove using 1
    exact book_ackPuts.trans ((congrArg AnswerBook.release hbook).trans (if_pos hlast).symm)
  · refine ⟨hsorted, hpos, ?_⟩
    convert hmove using 1
    exact hbook.trans (if_neg hlast).symm

theorem messageAnswersPut_of_drops {message : ServerMessage (DataMessage K A)}
    (hdrops : state.messageDrops message = true) : state.messageAnswersPut message = none := by
  cases message with
  | data message =>
      cases message with
      | response number body =>
          obtain ⟨callback, hfound, hanswers⟩ := (Option.any_eq_true _ _).mp (Bool.and_eq_true_iff.mp hdrops).1
          rw [FPersistentConnection.messageAnswersPut, hfound]
          cases callback with
          | put index => cases hanswers
          | _ => rfl
      | _ => rfl
  | _ => rfl

/-- No put is answered where the connection closes. -/
theorem answersPut_of_closes (wire : WireFormat K A) {event : FPersistentConnection.Event K V A}
    (hcloses : state.closesConnection wire event = true) : state.answersPut wire event = none := by
  cases event with
  | connection id event =>
      cases event with
      | job position =>
          obtain ⟨⟨job, webSocket⟩, hjob, hcloses⟩ := (Option.any_eq_true _ _).mp hcloses
          rw [FPersistentConnection.answersPut, hjob, Option.bind_some]
          rcases Bool.or_eq_true_iff.mp hcloses with hclose | hmessage
          · have honClose : job = .onClose := of_decide_eq_true (Bool.and_eq_true_iff.mp hclose).1
            rw [honClose]
            rfl
          · obtain ⟨message, hdecoded, hdrops⟩ := (Option.any_eq_true _ _).mp hmessage
            rw [hdecoded, Option.bind_some, messageAnswersPut_of_drops hdrops]
      | _ => rfl
  | _ => rfl

section Listens

variable [DatabaseValue V]

/-- The listen whose response came is counted no more. -/
theorem PutsKept.onListenResponse (h : PutsKept ⟨state, answers⟩) {number : Nat}
    {listenSpec : FOutstandingQuery K V} (hcallback : get number state.requestCBHash = some (.listen listenSpec))
    (body : Option (Response A)) : PutsKept
      ⟨FPersistentConnection.onListenResponse
          { state with requestCBHash := remove number state.requestCBHash } listenSpec body, answers⟩ := by
  have hawaited : (remove number state.requestCBHash).countP (fun entry => entry.2.isListen) <
      state.awaitedListens := countP_remove_lt hcallback rfl
  unfold FPersistentConnection.onListenResponse
  extract_lets answered counted
  have hanswered : answered.putCounter = state.putCounter ∧ answered.outstandingPuts = state.outstandingPuts ∧
      answered.putsToAck = state.putsToAck ∧ answered.calledPuts = state.calledPuts ∧
      answered.unackedListensCount = state.unackedListensCount ∧
      answered.requestCBHash = remove number state.requestCBHash := by
    dsimp only [answered]
    split
    · split_ifs
      · exact ⟨rfl, rfl, rfl, (FPersistentConnection.keepsPuts_output rfl).called, rfl, rfl⟩
      · exact ⟨rfl, rfl, rfl, (FPersistentConnection.keepsPuts_output rfl).called, rfl, rfl⟩
      · exact ⟨rfl, rfl, rfl, rfl, rfl, rfl⟩
    · exact ⟨rfl, rfl, rfl, rfl, rfl, rfl⟩
  obtain ⟨hcounter, houtstanding, hputsToAck, hcalled, hcount, hrequests⟩ := hanswered
  refine h.countListen hcounter houtstanding hputsToAck hcalled (congrArg (· - 1) hcount) ?_
  exact (congrArg (List.countP fun entry => entry.2.isListen) hrequests).trans_lt hawaited

/-- A response that does not make the client close the connection. -/
theorem PutsKept.onResponse (h : PutsKept ⟨state, answers⟩) (number : Nat) (body : Option (Response A))
    (hdrops : state.messageDrops (.data (.response number body)) = false) : PutsKept
      ⟨state.onDataMessage (.response number body),
        answers ++ (state.messageAnswersPut (.data (.response number body))).toList⟩ := by
  simp only [FPersistentConnection.onDataMessage, FPersistentConnection.messageAnswersPut]
  cases hcallback : get number state.requestCBHash with
  | none => exact (List.append_nil answers).symm ▸ h
  | some callback =>
      have hforget := h.keepsPuts (FPersistentConnection.keepsPuts_forget state number)
      cases callback with
      | put index =>
          cases hfound : get index state.outstandingPuts with
          | none =>
              simp only [FPersistentConnection.runCallback, FPersistentConnection.onPutResponse, hfound,
                Option.map_none, Option.toList_none, List.append_nil]
              exact hforget
          | some put =>
              simp only [hfound, Option.map_some, Option.toList_some]
              exact hforget.onPutResponse hfound body
      | listen listenSpec =>
          simp only [Option.toList_none, List.append_nil]
          exact h.onListenResponse hcallback body
      | auth restore =>
          have hok : body.bind Response.status = some "ok" := by
            simpa [FPersistentConnection.messageDrops, hcallback, RequestCallback.answersToken] using hdrops
          simp only [Option.toList_none, List.append_nil, FPersistentConnection.runCallback,
            FPersistentConnection.onAuthResponse, if_pos hok]
          have hanswered := hforget.keepsPuts (FPersistentConnection.keepsPuts_connectionState _ .connected)
          split_ifs
          · exact hanswered.keepsPuts (FPersistentConnection.keepsPuts_restoreState _)
          · exact hanswered
      | appCheck =>
          have hok : body.bind Response.status = some "ok" := by
            simpa [FPersistentConnection.messageDrops, hcallback, RequestCallback.answersToken] using hdrops
          simp only [Option.toList_none, List.append_nil, FPersistentConnection.runCallback,
            FPersistentConnection.onAppCheckResponse, if_pos hok]
          exact hforget
      | onDisconnect number =>
          simp only [Option.toList_none, List.append_nil]
          exact hforget.keepsPuts (FPersistentConnection.keepsPuts_onDisconnectResponse _ number body)
      | get index =>
          simp only [Option.toList_none, List.append_nil]
          exact hforget.keepsPuts (FPersistentConnection.keepsPuts_onGetResponse _ index body)
      | unlisten =>
          simp only [Option.toList_none, List.append_nil]
          exact hforget
      | stats =>
          simp only [Option.toList_none, List.append_nil]
          exact hforget

variable (wire : WireFormat K A) {event : FPersistentConnection.Event K V A}

/-- A message that does not make the client close the connection. -/
theorem PutsKept.onMessage (h : PutsKept ⟨state, answers⟩) (id : Nat)
    (message : ServerMessage (DataMessage K A)) (hdrops : state.messageDrops message = false) : PutsKept
      ⟨state.onMessage wire id message, answers ++ (state.messageAnswersPut message).toList⟩ := by
  cases message with
  | data message =>
      cases message with
      | response number body => exact h.onResponse number body hdrops
      | push push =>
          refine (List.append_nil answers).symm ▸ h.keepsPuts ?_
          cases push with
          | dataUpdate isMerge path data tagId =>
              simp only [FPersistentConnection.onMessage, FPersistentConnection.onDataMessage,
                FPersistentConnection.onDataPush]
              split
              · split
                · exact .refl state
                · exact FPersistentConnection.keepsPuts_output rfl
              · exact .refl state
          | rangeMerge path ranges tagId =>
              cases path with
              | none => exact .refl state
              | some path => exact FPersistentConnection.keepsPuts_output rfl
          | authRevoked status reason => cases hdrops
          | listenCancelled path =>
              cases path with
              | none => exact .refl state
              | some path => exact FPersistentConnection.keepsPuts_onListenRevoked state path
          | securityDebug message => exact .refl state
          | unsupported => exact .refl state
      | error text => exact (List.append_nil answers).symm ▸ h
      | other => exact (List.append_nil answers).symm ▸ h
  | control message =>
      refine (List.append_nil answers).symm ▸ h.keepsPuts ?_
      cases message with
      | shutdown reason => cases hdrops
      | reset host => cases hdrops
      | hello timestamp sessionID =>
          simp only [FPersistentConnection.onMessage]
          split
          · exact .refl state
          · split_ifs
            · have hready : state.KeepsPuts
                  { state with
                    connections := state.connections.modify id fun connection =>
                      { connection with state := .connected } } := .of_same rfl rfl rfl rfl rfl rfl
              exact hready.trans (FPersistentConnection.keepsPuts_onReady _ timestamp)
            · exact .refl state
      | unknown => exact .refl state
  | unrecognized => exact (List.append_nil answers).symm ▸ h

/-- A job that the held connection does not have tells the client nothing. -/
theorem keepsPuts_otherJob {id position : Nat} (hjob : state.heldJob id position = none) :
    state.KeepsPuts (state.handle wire (.connection id (.job position))) := by
  simp only [FPersistentConnection.handle, FPersistentConnection.connectionEvent]
  split
  · exact .refl state
  · rename_i connection hconnection
    split
    · exact .refl state
    · rename_i job webSocket htaken
      have hrealtime : state.realtime ≠ some id := by
        intro hrealtime
        rw [FPersistentConnection.heldJob, if_pos hrealtime, hconnection] at hjob
        rw [Option.bind_some, htaken] at hjob
        cases hjob
      have htake := FPersistentConnection.keepsPuts_updateWebSocket state id fun _ => webSocket
      refine htake.trans ?_
      have hrealtime' : (state.updateWebSocket id fun _ => webSocket).realtime ≠ some id := hrealtime
      cases job with
      | onOpen =>
          simp only [FPersistentConnection.runJob]
          exact FPersistentConnection.keepsPuts_updateWebSocket _ id _
      | onMessage message =>
          simp only [FPersistentConnection.runJob, if_neg hrealtime']
          split <;> exact FPersistentConnection.keepsPuts_updateWebSocket _ id _
      | onClose =>
          simp only [FPersistentConnection.runJob, hrealtime', and_false, if_false]
          exact (FPersistentConnection.keepsPuts_updateWebSocket _ id _).trans
            (FPersistentConnection.keepsPuts_updateWebSocket _ id _)

/-- A job of the held connection that does not make the client close it. -/
theorem PutsKept.heldJob (h : PutsKept ⟨state, answers⟩) {id position : Nat}
    {job : WebSocketJob × FWebSocketConnection} (hjob : state.heldJob id position = some job)
    (hcloses : state.jobDrops wire id position = false) : PutsKept
      ⟨state.handle wire (.connection id (.job position)),
        answers ++ ((FPersistentConnection.jobMessage wire job).bind state.messageAnswersPut).toList⟩ := by
  rw [FPersistentConnection.jobDrops, hjob, Option.any_some, Bool.or_eq_false_iff] at hcloses
  obtain ⟨hopen, hmessage⟩ := hcloses
  cases hdecoded : FPersistentConnection.jobMessage wire job with
  | some message =>
      rw [hdecoded, Option.any_some] at hmessage
      obtain ⟨webSocket, hhandled⟩ := FPersistentConnection.handle_jobMessage wire hjob hdecoded
      have hupdated := h.keepsPuts (FPersistentConnection.keepsPuts_updateWebSocket state id fun _ => webSocket)
      rw [hhandled]
      exact hupdated.onMessage wire id message hmessage
  | none =>
      obtain ⟨hrealtime, hhandled⟩ := FPersistentConnection.handle_heldJob wire hjob
      rw [hhandled]
      have hupdated := h.keepsPuts (FPersistentConnection.keepsPuts_updateWebSocket state id fun _ => job.2)
      simp only [Option.bind_none, Option.toList_none, List.append_nil]
      obtain ⟨job, webSocket⟩ := job
      refine hupdated.keepsPuts ?_
      cases job with
      | onOpen =>
          simp only [FPersistentConnection.runJob]
          exact FPersistentConnection.keepsPuts_updateWebSocket _ id _
      | onMessage text =>
          have hnone : (webSocket.handleIncomingFrame text).2.bind wire.decode = none := hdecoded
          simp only [FPersistentConnection.runJob, hnone]
          exact FPersistentConnection.keepsPuts_updateWebSocket _ id _
      | onClose =>
          have hclosed : webSocket.isClosed = true := by simpa using hopen
          simp only [FPersistentConnection.runJob, hclosed, Bool.not_true, Bool.false_eq_true, false_and, if_false]
          exact (FPersistentConnection.keepsPuts_updateWebSocket _ id _).trans
            (FPersistentConnection.keepsPuts_updateWebSocket _ id _)

theorem PutsKept.handle (hheld : state.Held) (h : PutsKept ⟨state, answers⟩)
    (hspares : state.sparesPuts wire event = true) :
    PutsKept ⟨state.handle wire event, answers ++ (state.answersPut wire event).toList⟩ := by
  obtain ⟨hcloses, hquiet⟩ := Bool.and_eq_true_iff.mp hspares
  cases hclosing : state.closesConnection wire event with
  | true =>
      rw [hclosing] at hcloses
      rw [answersPut_of_closes wire hclosing, Option.toList_none, List.append_nil]
      exact h.closes (List.isEmpty_iff.mp hcloses) (FPersistentConnection.closes_handle wire hheld hclosing)
  | false =>
      cases event with
      | putData path data hash => exact (List.append_nil answers).symm ▸ h.putInternal _
      | mergeData path data => exact (List.append_nil answers).symm ▸ h.putInternal _
      | purgeOutstandingWrites acknowledging cancelling =>
          rw [List.isEmpty_iff.mp hquiet]
          exact (List.append_nil answers).symm ▸ h.purgeOutstandingWrites acknowledging
      | connection id event =>
          cases event with
          | job position =>
              cases hjob : state.heldJob id position with
              | none =>
                  simp only [FPersistentConnection.answersPut, hjob, Option.bind_none, Option.toList_none,
                    List.append_nil]
                  exact h.keepsPuts (keepsPuts_otherJob wire hjob)
              | some job =>
                  simp only [FPersistentConnection.answersPut, hjob, Option.bind_some]
                  exact h.heldJob wire hjob hclosing
          | channel event =>
              refine (List.append_nil answers).symm ▸ h.keepsPuts ?_
              simp only [FPersistentConnection.handle, FPersistentConnection.connectionEvent]
              split
              · exact .refl state
              · exact FPersistentConnection.keepsPuts_updateWebSocket _ id _
          | connectTimeout =>
              refine (List.append_nil answers).symm ▸ h.keepsPuts ?_
              simp only [FPersistentConnection.handle, FPersistentConnection.connectionEvent]
              split
              · exact .refl state
              · split_ifs
                · exact FPersistentConnection.keepsPuts_updateWebSocket _ id _
                · exact .refl state
      | listen query tagId =>
          exact (List.append_nil answers).symm ▸ h.keepsPuts (FPersistentConnection.keepsPuts_listen state query tagId)
      | unlisten query tagId =>
          exact (List.append_nil answers).symm ▸
            h.keepsPuts (FPersistentConnection.keepsPuts_unlisten state query tagId)
      | onDisconnectData action path data =>
          exact (List.append_nil answers).symm ▸
            h.keepsPuts (FPersistentConnection.keepsPuts_onDisconnectData state action path data)
      | getDataAtPath path params =>
          exact (List.append_nil answers).symm ▸
            h.keepsPuts (FPersistentConnection.keepsPuts_getDataAtPath state path params)
      | getTimedOut index =>
          exact (List.append_nil answers).symm ▸ h.keepsPuts (FPersistentConnection.keepsPuts_getTimedOut state index)
      | refreshAuthToken token =>
          exact (List.append_nil answers).symm ▸
            h.keepsPuts (FPersistentConnection.keepsPuts_refreshAuthToken state token)
      | refreshAppCheckToken token =>
          exact (List.append_nil answers).symm ▸
            h.keepsPuts (FPersistentConnection.keepsPuts_refreshAppCheckToken state token)
      | interruptForReason reason =>
          have hrealtime : state.realtime = none := Option.isSome_eq_false_iff.mp hclosing |> Option.isNone_iff_eq_none.mp
          exact (List.append_nil answers).symm ▸
            h.keepsPuts (FPersistentConnection.keepsPuts_interruptForReason hrealtime reason)
      | resumeForReason reason =>
          exact (List.append_nil answers).symm ▸
            h.keepsPuts (FPersistentConnection.keepsPuts_resumeForReason state reason)
      | enteringForeground =>
          exact (List.append_nil answers).symm ▸ h.keepsPuts (FPersistentConnection.keepsPuts_enteringForeground state)
      | retryTask task =>
          exact (List.append_nil answers).symm ▸ h.keepsPuts (FPersistentConnection.keepsPuts_retryTask state task)
      | tokenFetched attempt token result =>
          refine (List.append_nil answers).symm ▸ h.keepsPuts ?_
          simp only [FPersistentConnection.handle]
          split_ifs
          · exact FPersistentConnection.keepsPuts_tokenFetched state attempt token result
          · exact .refl state
      | tokenFailed attempt =>
          refine (List.append_nil answers).symm ▸ h.keepsPuts ?_
          simp only [FPersistentConnection.handle]
          split_ifs
          · exact FPersistentConnection.keepsPuts_tokenFailed state attempt
          · exact .refl state

theorem PutsKept.sparesPuts_of_handle (hheld : state.Held) (h : PutsKept ⟨state, answers⟩)
    {answers' : List (Nat × PutAnswer)} (hanswered : PutsAnswered ⟨state.handle wire event, answers'⟩) :
    state.sparesPuts wire event = true := by
  refine Bool.and_eq_true_iff.mpr ⟨?_, ?_⟩
  · cases hclosing : state.closesConnection wire event with
    | false => rfl
    | true =>
        have hcloses := FPersistentConnection.closes_handle wire hheld hclosing
        have hnone := hanswered.acknowledged hcloses.unackedListensCount
        rw [hcloses.putsToAck] at hnone
        exact List.isEmpty_iff.mpr hnone
  · cases event with
    | purgeOutstandingWrites acknowledging cancelling =>
        refine List.isEmpty_iff.mpr ?_
        by_contra hcancelling
        exact not_putsAnswered_purge h acknowledging hcancelling hanswered
    | _ => rfl

theorem run_isSome (history : PutHistory K V A) (events : List (FPersistentConnection.Event K V A)) :
    (run (step wire) history events).isSome = true := by
  induction events generalizing history with
  | nil => rfl
  | cons event rest ih => exact ih _

/-- In all states of a run puts are told their answers once and in order, and none is lost, exactly if no
connection closes while an answer is held back and no completion puts more while puts are cancelled. -/
theorem putsAnswered_run_iff (wire : WireFormat K A) (events : List (FPersistentConnection.Event K V A)) :
    AllSteps (step wire) (fun history event => history.connection.sparesPuts wire event = true) {} events ↔
      ∀ before, before <+: events → ∀ history ∈ run (step wire) {} before, history.PutsAnswered := by
  have hempty : ({} : FPersistentConnection K V A).Held ∧ PutsKept ({} : PutHistory K V A) :=
    ⟨FPersistentConnection.Linked.empty.toHeld, PutsKept.empty⟩
  have hstep : ∀ (history : PutHistory K V A) event, history.connection.Held ∧ history.PutsKept →
      history.connection.sparesPuts wire event = true → ∀ history' ∈ step wire history event,
        history'.connection.Held ∧ history'.PutsKept := by
    rintro history event ⟨hheld, hkept⟩ hspares history' hhistory'
    cases hhistory'
    exact ⟨hheld.handle wire event, hkept.handle wire hheld hspares⟩
  refine allSteps_iff_forall_law hstep (fun _ h => h.2.putsAnswered)
    (fun history event h history' hhistory' hanswered => ?_) hempty (run_isSome wire {} events)
  cases hhistory'
  exact h.2.sparesPuts_of_handle wire h.1 hanswered

end Listens

/-- The server says hello, and that the third request is ok. -/
def answerFormat : WireFormat String Unit where
  decode
    | ['h'] => some (.control (.hello 0 ""))
    | ['p'] => some (.data (.response 3 (some { status := some "ok", data := none })))
    | _ => none
  urlHasHost := fun _ => true

/-- A put is answered before a listen is, and the connection closes. -/
def heldAnswerRun : List (FPersistentConnection.Event String Int Unit) :=
  [.resumeForReason "waiting_for_open", .retryTask 0, .tokenFetched 1 none .connected,
    .connection 0 (.channel .handlerAdded), .connection 0 (.job 0), .connection 0 (.channel (.text ['h'])),
    .connection 0 (.job 0), .listen ⟨["a"], .defaultInstance⟩ none, .putData ["b"] () none,
    .connection 0 (.channel (.text ['p'])), .connection 0 (.job 0),
    .connection 0 (.channel .connectionClose), .connection 0 (.job 0)]

theorem putsAnswered_fails_heldAnswer :
    ¬∀ (wire : WireFormat String Unit) (events : List (FPersistentConnection.Event String Int Unit))
      (history : PutHistory String Int Unit),
      run (step wire) {} events = some history → history.PutsAnswered := by
  intro hall
  have hbad : (run (step answerFormat) {} heldAnswerRun).any (fun history =>
      decide (history.connection.unackedListensCount = 0) && !history.connection.putsToAck.isEmpty) = true := by
    decide +kernel
  obtain ⟨history, hrun, hhistory⟩ := (Option.any_eq_true _ _).mp hbad
  obtain ⟨hzero, hheld⟩ := Bool.and_eq_true_iff.mp hhistory
  rw [(hall _ heldAnswerRun history hrun).acknowledged (of_decide_eq_true hzero)] at hheld
  cases hheld

end PutHistory

end FirebaseSwift.Database
