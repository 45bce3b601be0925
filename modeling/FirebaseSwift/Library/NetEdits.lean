import Mathlib.Logic.Function.Basic
import Mathlib.Data.List.Basic

/-! Edits of values at keys, and the net edit of each key. A later edit of a key is composed with the net edit so far,
where it fits to it. Edits that apply to the values one after the other always fit, and the net edit of a key says what
its value was at the start and what it is at the end. -/

namespace NetEdits

variable {K N : Type}

inductive Edit (N : Type) where
  | added (value : N)
  | removed (value : N)
  | changed (value oldValue : N)

namespace Edit

def before : Edit N → Option N
  | .added _ => none
  | .removed value => some value
  | .changed _ oldValue => some oldValue

def after : Edit N → Option N
  | .added value => some value
  | .removed _ => none
  | .changed value _ => some value

/-- An edit and a later one in one. There is no result where the later one does not fit, and no edit where it takes the
first one back. -/
def compose : Edit N → Edit N → Option (Option (Edit N))
  | .removed oldValue, .added value => some (some (.changed value oldValue))
  | .added _, .removed _ => some none
  | .changed _ oldValue, .removed _ => some (some (.removed oldValue))
  | .added _, .changed value _ => some (some (.added value))
  | .changed _ oldValue, .changed value _ => some (some (.changed value oldValue))
  | _, _ => none

end Edit

/-- The edit that leads from one value to another, if there is one of the two -/
def between : Option N → Option N → Option (Edit N)
  | none, none => none
  | none, some value => some (.added value)
  | some oldValue, none => some (.removed oldValue)
  | some oldValue, some value => some (.changed value oldValue)

theorem between_before_after (edit : Edit N) : between edit.before edit.after = some edit := by
  cases edit <;> rfl

/-- An edit of the value that another one leaves fits to it. -/
theorem compose_of_meets {edit later : Edit N} (h : later.before = edit.after) :
    edit.compose later = some (between edit.before later.after) := by
  cases edit with
  | added value =>
      cases later with
      | added value' => cases h
      | _ => rfl
  | removed value =>
      cases later with
      | added value' => rfl
      | _ => cases h
  | changed value oldValue =>
      cases later with
      | added value' => cases h
      | _ => rfl

variable [DecidableEq K] {start values values' values'' : K → Option N} {edits edits' : List (K × Edit N)}

/-- The edits apply to the values one after the other, and the others are the values after them. -/
inductive Applies : (K → Option N) → List (K × Edit N) → (K → Option N) → Prop
  | nil (values : K → Option N) : Applies values [] values
  | cons {values values' : K → Option N} {key : K} {edit : Edit N} {edits : List (K × Edit N)}
      (hbefore : edit.before = values key) (happlies : Applies (Function.update values key edit.after) edits values') :
      Applies values ((key, edit) :: edits) values'

theorem Applies.append (h : Applies values edits values') (h' : Applies values' edits' values'') :
    Applies values (edits ++ edits') values'' := by
  induction h with
  | nil values => exact h'
  | cons hbefore _ ih => exact .cons hbefore (ih h')

/-- The net edits after one more -/
def track (table : K → Option (Edit N)) (entry : K × Edit N) : Option (K → Option (Edit N)) :=
  match table entry.1 with
  | none => some (Function.update table entry.1 (some entry.2))
  | some edit => (edit.compose entry.2).map (Function.update table entry.1)

/-- The table has the net edits of the keys that were edited. -/
structure Records (start values : K → Option N) (seen : List K) (table : K → Option (Edit N)) : Prop where
  edited : ∀ key ∈ seen, table key = between (start key) (values key)
  others : ∀ key ∉ seen, table key = none ∧ values key = start key

variable {seen : List K} {table : K → Option (Edit N)}

/-- An edit that applies fits to the net edit of its key. -/
theorem Records.track (h : Records start values seen table) {key : K} {edit : Edit N} (hbefore : edit.before = values key) :
    ∃ table', NetEdits.track table (key, edit) = some table' ∧
      Records start (Function.update values key edit.after) (seen ++ [key]) table' := by
  have hrecords : Records start (Function.update values key edit.after) (seen ++ [key])
      (Function.update table key (between (start key) edit.after)) := by
    constructor
    · intro other hother
      by_cases heq : other = key
      · subst heq
        rw [Function.update_self, Function.update_self]
      · rw [Function.update_of_ne heq, Function.update_of_ne heq]
        exact h.edited other ((List.mem_append.mp hother).resolve_right fun hmem => heq (List.mem_singleton.mp hmem))
    · intro other hother
      obtain ⟨hseen, hkey⟩ := not_or.mp (mt List.mem_append.mpr hother)
      have hne : other ≠ key := fun heq => hkey (List.mem_singleton.mpr heq)
      rw [Function.update_of_ne hne, Function.update_of_ne hne]
      exact h.others other hseen
  refine ⟨_, ?_, hrecords⟩
  rw [NetEdits.track]
  dsimp only
  cases hentry : table key with
  | none =>
      have hstart : start key = values key := by
        by_cases hseen : key ∈ seen
        · have hbetween := (h.edited key hseen).symm.trans hentry
          cases hold : start key <;> cases hnew : values key <;> rw [hold, hnew] at hbetween <;>
            first | rfl | cases hbetween
        · exact (h.others key hseen).2.symm
      dsimp only
      rw [hstart, ← hbefore, between_before_after]
  | some net =>
      have hseen : key ∈ seen := by
        by_contra hnot
        rw [(h.others key hnot).1] at hentry
        cases hentry
      obtain ⟨hold, hnew⟩ : start key = net.before ∧ values key = net.after := by
        have hbetween := (h.edited key hseen).symm.trans hentry
        cases hold : start key <;> cases hnew : values key <;> rw [hold, hnew] at hbetween <;> cases hbetween <;>
          exact ⟨rfl, rfl⟩
      dsimp only
      rw [compose_of_meets (hbefore.trans hnew), hold]
      rfl

end NetEdits
