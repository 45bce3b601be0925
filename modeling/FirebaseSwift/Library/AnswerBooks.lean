import Mathlib.Data.Set.Insert
import Mathlib.Data.List.Nodup

/-! Books of requests that are answered once. An answer is passed on to who asked, or held back while
something else is still awaited. Requests may also be cancelled, which is passed on at once. However
requests are issued, answered, held, released and cancelled, nobody is told twice, no request gets lost,
and answers are passed on in the order in which they came. -/

/-- What is issued and unanswered, the answers that are held back, all that was passed on, the answers as
they came, and how many things are awaited: as counted, and as there really are. -/
structure AnswerBook (ι α : Type) where
  issued : Set ι
  outstanding : Set ι
  held : List (ι × α)
  passed : List (ι × α)
  answers : List (ι × α)
  counted : Int
  awaited : Nat

namespace AnswerBook

variable {ι α : Type}

/-- An answer is passed on at once where nothing is awaited. -/
def answer (book : AnswerBook ι α) (entry : ι × α) : AnswerBook ι α :=
  { book with
    outstanding := book.outstanding \ {entry.1}
    answers := book.answers ++ [entry]
    held := if book.counted = 0 then book.held else book.held ++ [entry]
    passed := if book.counted = 0 then book.passed ++ [entry] else book.passed }

def release (book : AnswerBook ι α) : AnswerBook ι α :=
  { book with held := [], passed := book.passed ++ book.held }

def cancel (book : AnswerBook ι α) (entries : List (ι × α)) : AnswerBook ι α :=
  { book with
    outstanding := book.outstanding \ {request | request ∈ entries.map Prod.fst}
    passed := book.passed ++ entries }

/-- What was awaited has come. The held answers are released when nothing more is counted. -/
def settle (book : AnswerBook ι α) (awaited : Nat) : AnswerBook ι α :=
  if book.counted - 1 = 0 then release { book with counted := book.counted - 1, awaited }
  else { book with counted := book.counted - 1, awaited }

inductive Move (book : AnswerBook ι α) : AnswerBook ι α → Prop
  | await (counted : Int) (awaited : Nat) (hgrows : book.counted ≤ counted)
      (hgap : book.counted - book.awaited ≤ counted - awaited) : Move book { book with counted, awaited }
  | issue (request : ι) (hnew : request ∉ book.issued) :
      Move book { book with issued := insert request book.issued, outstanding := insert request book.outstanding }
  | answer (entry : ι × α) (houtstanding : entry.1 ∈ book.outstanding) : Move book (book.answer entry)
  | settle (awaited : Nat) (hawaited : awaited < book.awaited) : Move book (book.settle awaited)
  | release : Move book book.release
  | cancel (entries : List (ι × α)) (hnodup : (entries.map Prod.fst).Nodup)
      (houtstanding : ∀ request ∈ entries.map Prod.fst, request ∈ book.outstanding) :
      Move book (book.cancel entries)
  | reset (hheld : book.held = []) : Move book { book with counted := 0, awaited := 0 }

/-- What was passed on of the requests that were answered. -/
def passedOf [DecidableEq ι] (answers passed : List (ι × α)) : List (ι × α) :=
  passed.filter fun entry => decide (entry.1 ∈ answers.map Prod.fst)

/-- Every request is in one place, and answers keep their order. -/
structure Formed [DecidableEq ι] (book : AnswerBook ι α) : Prop where
  passed_once : (book.passed.map Prod.fst).Nodup
  answered_once : (book.answers.map Prod.fst).Nodup
  kept : ∀ request ∈ book.issued, request ∉ book.passed.map Prod.fst →
    request ∈ book.outstanding ∨ request ∈ book.held.map Prod.fst
  in_order : passedOf book.answers book.passed ++ book.held = book.answers
  released : book.counted = 0 → book.held = []
  counts : (book.awaited : Int) ≤ book.counted
  outstanding : ∀ request ∈ book.outstanding,
    request ∈ book.issued ∧ request ∉ book.passed.map Prod.fst ∧ request ∉ book.answers.map Prod.fst
  passed : ∀ request ∈ book.passed.map Prod.fst, request ∈ book.issued
  answers : ∀ request ∈ book.answers.map Prod.fst, request ∈ book.issued

variable [DecidableEq ι] {book book' : AnswerBook ι α}

theorem Formed.answered_of_held (h : book.Formed) {request : ι} (hheld : request ∈ book.held.map Prod.fst) :
    request ∈ book.answers.map Prod.fst := by
  rw [← h.in_order, List.map_append]
  exact List.mem_append_right _ hheld

/-- What was passed on is held back no longer. -/
theorem Formed.not_held_of_passed (h : book.Formed) {request : ι}
    (hpassed : request ∈ book.passed.map Prod.fst) : request ∉ book.held.map Prod.fst := by
  intro hheld
  have hanswers := h.answered_once
  rw [← h.in_order, List.map_append] at hanswers
  obtain ⟨entry, hentry, rfl⟩ := List.mem_map.mp hpassed
  have hpassedAnswer : entry ∈ passedOf book.answers book.passed :=
    List.mem_filter.mpr ⟨hentry, decide_eq_true (h.answered_of_held hheld)⟩
  exact (List.disjoint_of_nodup_append hanswers) (List.mem_map_of_mem hpassedAnswer) hheld

theorem Formed.await (h : book.Formed) {counted : Int} {awaited : Nat} (hgrows : book.counted ≤ counted)
    (hgap : book.counted - book.awaited ≤ counted - awaited) : Formed { book with counted, awaited } := by
  have hcounts := h.counts
  refine ⟨h.passed_once, h.answered_once, h.kept, h.in_order, fun hzero => h.released ?_, ?_, h.outstanding,
    h.passed, h.answers⟩
  · dsimp only at hzero
    omega
  · dsimp only
    omega

theorem Formed.issue (h : book.Formed) {request : ι} (hnew : request ∉ book.issued) : Formed
      { book with issued := insert request book.issued, outstanding := insert request book.outstanding } := by
  refine ⟨h.passed_once, h.answered_once, fun request' hissued hpassed => ?_, h.in_order, h.released, h.counts,
    fun request' houtstanding => ?_, fun request' hpassed => Or.inr (h.passed request' hpassed),
    fun request' hanswered => Or.inr (h.answers request' hanswered)⟩
  · rcases hissued with rfl | hissued
    · exact Or.inl (Or.inl rfl)
    · exact (h.kept request' hissued hpassed).imp_left Or.inr
  · rcases houtstanding with rfl | houtstanding
    · exact ⟨Or.inl rfl, fun hpassed => hnew (h.passed _ hpassed), fun hanswered => hnew (h.answers _ hanswered)⟩
    · obtain ⟨hissued, hrest⟩ := h.outstanding request' houtstanding
      exact ⟨Or.inr hissued, hrest⟩

/-- A new answer says nothing about what was passed on of other requests. -/
theorem passedOf_append {answers passed : List (ι × α)} {entry : ι × α} (hnew : entry.1 ∉ passed.map Prod.fst) :
    passedOf (answers ++ [entry]) passed = passedOf answers passed := by
  refine List.filter_congr fun passed hpassed => ?_
  have hne : passed.1 ≠ entry.1 := fun heq => hnew (heq ▸ List.mem_map_of_mem hpassed)
  simp [hne]

theorem Formed.answer (h : book.Formed) {entry : ι × α} (houtstanding : entry.1 ∈ book.outstanding) :
    (book.answer entry).Formed := by
  obtain ⟨hissued, hunpassed, hunanswered⟩ := h.outstanding _ houtstanding
  have hanswered : ∀ request, request ∈ (book.answers ++ [entry]).map Prod.fst ↔
      request ∈ book.answers.map Prod.fst ∨ request = entry.1 := by
    intro request
    rw [List.map_append, List.mem_append, List.map_singleton, List.mem_singleton]
  have hpassed : ∀ request, request ∈ (book.answer entry).passed.map Prod.fst →
      request ∈ book.passed.map Prod.fst ∨ request = entry.1 := by
    intro request hrequest
    simp only [AnswerBook.answer] at hrequest
    split_ifs at hrequest
    · rwa [List.map_append, List.mem_append, List.map_singleton, List.mem_singleton] at hrequest
    · exact Or.inl hrequest
  refine ⟨?_, ?_, fun request hrequest hnot => ?_, ?_, fun hzero => ?_, h.counts, fun request hrequest => ?_,
    fun request hrequest => ?_, fun request hrequest => ?_⟩
  · simp only [AnswerBook.answer]
    split_ifs
    · rw [List.map_append, List.map_singleton]
      exact List.Nodup.append h.passed_once (List.nodup_singleton _) (by simpa using hunpassed)
    · exact h.passed_once
  · simp only [AnswerBook.answer, List.map_append, List.map_singleton]
    exact List.Nodup.append h.answered_once (List.nodup_singleton _) (by simpa using hunanswered)
  · by_cases heq : request = entry.1
    · subst heq
      simp only [AnswerBook.answer] at hnot ⊢
      split_ifs at hnot ⊢
      · simp at hnot
      · simp
    · have hunpassed' : request ∉ book.passed.map Prod.fst := by
        intro hmem
        refine hnot ?_
        simp only [AnswerBook.answer]
        split_ifs
        · exact List.map_subset _ (List.subset_append_left _ _) hmem
        · exact hmem
      refine (h.kept request hrequest hunpassed').imp (fun hmem => ⟨hmem, heq⟩) fun hheld => ?_
      simp only [AnswerBook.answer]
      split_ifs
      · exact hheld
      · exact List.map_subset _ (List.subset_append_left _ _) hheld
  · have horder := h.in_order
    by_cases hzero : book.counted = 0
    · have hself : passedOf (book.answers ++ [entry]) [entry] = [entry] := by simp [passedOf]
      rw [h.released hzero, List.append_nil] at horder
      simp only [AnswerBook.answer, if_pos hzero]
      rw [h.released hzero, List.append_nil, passedOf, List.filter_append, ← passedOf, ← passedOf, hself,
        passedOf_append hunpassed, horder]
    · simp only [AnswerBook.answer, if_neg hzero]
      rw [passedOf_append hunpassed, ← List.append_assoc, horder]
  · simp only [AnswerBook.answer] at hzero ⊢
    rw [if_pos hzero]
    exact h.released hzero
  · obtain ⟨hissued', hunpassed', hunanswered'⟩ := h.outstanding request hrequest.1
    refine ⟨hissued', fun hmem => ?_, fun hmem => ?_⟩
    · exact (hpassed request hmem).elim hunpassed' hrequest.2
    · exact ((hanswered request).mp hmem).elim hunanswered' hrequest.2
  · exact (hpassed request hrequest).elim (h.passed request) fun heq => heq ▸ hissued
  · exact ((hanswered request).mp hrequest).elim (h.answers request) fun heq => heq ▸ hissued

theorem Formed.release (h : book.Formed) : book.release.Formed := by
  have hpassed : ∀ request, request ∈ book.release.passed.map Prod.fst ↔
      request ∈ book.passed.map Prod.fst ∨ request ∈ book.held.map Prod.fst := by
    intro request
    rw [AnswerBook.release, List.map_append, List.mem_append]
  refine ⟨?_, h.answered_once, fun request hrequest hnot => ?_, ?_, fun _ => rfl, h.counts,
    fun request hrequest => ?_, fun request hrequest => ?_, h.answers⟩
  · have hanswers := h.answered_once
    rw [← h.in_order, List.map_append] at hanswers
    rw [AnswerBook.release, List.map_append]
    exact List.Nodup.append h.passed_once hanswers.of_append_right fun _ hmem hheld =>
      h.not_held_of_passed hmem hheld
  · rw [hpassed, not_or] at hnot
    exact (h.kept request hrequest hnot.1).imp_right fun hheld => absurd hheld hnot.2
  · have hheld : passedOf book.answers book.held = book.held :=
      List.filter_eq_self.mpr fun entry hentry =>
        decide_eq_true (h.answered_of_held (List.mem_map_of_mem hentry))
    simp only [AnswerBook.release]
    rw [List.append_nil, passedOf, List.filter_append, ← passedOf, ← passedOf, hheld, h.in_order]
  · obtain ⟨hissued, hunpassed, hunanswered⟩ := h.outstanding request hrequest
    refine ⟨hissued, fun hmem => ?_, hunanswered⟩
    exact ((hpassed request).mp hmem).elim hunpassed fun hheld => hunanswered (h.answered_of_held hheld)
  · exact ((hpassed request).mp hrequest).elim (h.passed request) fun hheld =>
      h.answers request (h.answered_of_held hheld)

theorem Formed.cancel (h : book.Formed) {entries : List (ι × α)} (hnodup : (entries.map Prod.fst).Nodup)
    (houtstanding : ∀ request ∈ entries.map Prod.fst, request ∈ book.outstanding) :
    (book.cancel entries).Formed := by
  have hpassed : ∀ request, request ∈ (book.cancel entries).passed.map Prod.fst ↔
      request ∈ book.passed.map Prod.fst ∨ request ∈ entries.map Prod.fst := by
    intro request
    rw [AnswerBook.cancel, List.map_append, List.mem_append]
  refine ⟨?_, h.answered_once, fun request hrequest hnot => ?_, ?_, h.released, h.counts,
    fun request hrequest => ?_, fun request hrequest => ?_, h.answers⟩
  · rw [AnswerBook.cancel, List.map_append]
    exact List.Nodup.append h.passed_once hnodup fun request hmem hentry =>
      (h.outstanding request (houtstanding request hentry)).2.1 hmem
  · rw [hpassed, not_or] at hnot
    exact (h.kept request hrequest hnot.1).imp_left fun hmem => ⟨hmem, hnot.2⟩
  · have hnone : passedOf book.answers entries = [] := by
      refine List.filter_eq_nil_iff.mpr fun entry hentry hanswered => ?_
      exact (h.outstanding entry.1 (houtstanding _ (List.mem_map_of_mem hentry))).2.2 (of_decide_eq_true hanswered)
    simp only [AnswerBook.cancel]
    rw [passedOf, List.filter_append, ← passedOf, ← passedOf, hnone, List.append_nil, h.in_order]
  · obtain ⟨hissued, hunpassed, hunanswered⟩ := h.outstanding request hrequest.1
    exact ⟨hissued, fun hmem => ((hpassed request).mp hmem).elim hunpassed hrequest.2, hunanswered⟩
  · exact ((hpassed request).mp hrequest).elim (h.passed request) fun hentry =>
      (h.outstanding request (houtstanding request hentry)).1

/-- The count is never below what is awaited, so it only falls to zero here, where what is held is released. -/
theorem Formed.settle (h : book.Formed) {awaited : Nat} (hawaited : awaited < book.awaited) :
    (book.settle awaited).Formed := by
  have hcounts := h.counts
  have hcounted : ((awaited : Int) ≤ book.counted - 1) := by omega
  rw [AnswerBook.settle]
  split_ifs with hzero
  · -- the count of the new book matters only for what is held, and that is released
    have hreleased := h.release
    exact ⟨hreleased.passed_once, hreleased.answered_once, hreleased.kept, hreleased.in_order, fun _ => rfl,
      hcounted, hreleased.outstanding, hreleased.passed, hreleased.answers⟩
  · exact ⟨h.passed_once, h.answered_once, h.kept, h.in_order, fun hcount => absurd hcount hzero, hcounted,
      h.outstanding, h.passed, h.answers⟩

theorem Formed.reset (h : book.Formed) (hheld : book.held = []) : Formed { book with counted := 0, awaited := 0 } :=
  ⟨h.passed_once, h.answered_once, h.kept, h.in_order, fun _ => hheld, le_refl _, h.outstanding, h.passed,
    h.answers⟩

/-- No request gets lost or is answered twice by a move, and answers stay in order. -/
theorem Formed.move (h : book.Formed) (hmove : book.Move book') : book'.Formed := by
  cases hmove with
  | await counted awaited hgrows hgap => exact h.await hgrows hgap
  | issue request hnew => exact h.issue hnew
  | answer entry houtstanding => exact h.answer houtstanding
  | settle awaited hawaited => exact h.settle hawaited
  | release => exact h.release
  | cancel entries hnodup houtstanding => exact h.cancel hnodup houtstanding
  | reset hheld => exact h.reset hheld

end AnswerBook
