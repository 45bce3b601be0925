import Mathlib.Data.List.Induction
import Mathlib.Order.RelClasses

/-! Windows of candidates in an order. A window has the first candidates, up to a limit. When one candidate is replaced,
the window follows from the one before, its last member and the next candidate beyond it. -/

namespace Windows

variable {α : Type} {before : α → α → Prop} [DecidableRel before]

/-! ### Ranks -/

/-- How many candidates are before a value. -/
def rank (before : α → α → Prop) [DecidableRel before] (candidates : List α) (a : α) : Nat :=
  candidates.countP fun b => before b a

/-- How many candidates are not beyond a value. -/
def reach (before : α → α → Prop) [DecidableRel before] (candidates : List α) (a : α) : Nat :=
  candidates.countP fun b => ¬before a b

variable {candidates others : List α} {limit : Nat} {a b c last : α}

section Orders

variable [IsStrictOrder α before]

end Orders

/-! ### The next candidate -/

end Windows
