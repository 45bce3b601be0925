import Mathlib.Algebra.Order.Ring.Nat
import Mathlib.Data.List.Lex
import Mathlib.Order.Monotone.Basic

/-! Counters of digits. Digits to a base, the greatest place first, are ordered as the numbers are, in the
lexicographic order of lists. A counter that is incremented with carries is greater than before, unless all
of its digits are the greatest. -/

namespace DigitCounters

/-! ### The lexicographic order of lists of one length -/

section Order

variable {α β : Type} [LinearOrder α] [LinearOrder β]

theorem append_lt_append_iff {first first' rest rest' : List α} (hlength : first.length = first'.length) :
    first ++ rest < first' ++ rest' ↔ first < first' ∨ first = first' ∧ rest < rest' := by
  induction first generalizing first' with
  | nil =>
      rw [List.length_eq_zero_iff.mp hlength.symm, List.nil_append, List.nil_append]
      exact ⟨fun h => Or.inr ⟨rfl, h⟩, fun h => (h.resolve_left (List.not_lt_nil [])).2⟩
  | cons a first ih =>
      cases first' with
      | nil => cases hlength
      | cons a' first' =>
          rw [List.cons_append, List.cons_append, List.cons_lt_cons_iff, List.cons_lt_cons_iff,
            ih (Nat.succ.inj hlength), List.cons.injEq]
          tauto

theorem map_lt_map_iff {f : α → β} {members : Set α} (hmono : StrictMonoOn f members) {list list' : List α}
    (h : ∀ a ∈ list, a ∈ members) (h' : ∀ a ∈ list', a ∈ members) : list.map f < list'.map f ↔ list < list' := by
  induction list generalizing list' with
  | nil =>
      cases list' with
      | nil => exact iff_of_false (List.not_lt_nil []) (List.not_lt_nil [])
      | cons a' list' => exact iff_of_true (List.nil_lt_cons _ _) (List.nil_lt_cons _ _)
  | cons a list ih =>
      cases list' with
      | nil => exact iff_of_false (List.not_lt_nil _) (List.not_lt_nil _)
      | cons a' list' =>
          obtain ⟨ha, hlist⟩ := List.forall_mem_cons.mp h
          obtain ⟨ha', hlist'⟩ := List.forall_mem_cons.mp h'
          rw [List.map_cons, List.map_cons, List.cons_lt_cons_iff, List.cons_lt_cons_iff,
            hmono.lt_iff_lt ha ha', hmono.injOn.eq_iff ha ha', ih hlist hlist']

/-- What keeps the order of two keeps them apart. -/
theorem eq_iff_of_lt_iff {a b : α} {x y : β} (h : x < y ↔ a < b) (h' : y < x ↔ b < a) : x = y ↔ a = b := by
  rw [eq_iff_le_not_lt, eq_iff_le_not_lt, ← not_lt, ← not_lt, h, h']

end Order

/-! ### Digits of a number -/

/-- The digits of the last places, the greatest place first. -/
def digits (base : Nat) : Nat → Nat → List Nat
  | 0, _ => []
  | places + 1, n => digits base places (n / base) ++ [n % base]

theorem length_digits (base places n : Nat) : (digits base places n).length = places := by
  induction places generalizing n with
  | zero => rfl
  | succ places ih => rw [digits, List.length_append, ih, List.length_singleton]

variable {base top : Nat}

theorem lt_of_mem_digits {places n d : Nat} (hbase : 0 < base) (h : d ∈ digits base places n) : d < base := by
  induction places generalizing n with
  | zero => cases h
  | succ places ih =>
      rcases List.mem_append.mp h with hfirst | hlast
      · exact ih hfirst
      · rw [List.mem_singleton.mp hlast]
        exact Nat.mod_lt n hbase

theorem lt_iff_div_mod (base n m : Nat) :
    n < m ↔ n / base < m / base ∨ n / base = m / base ∧ n % base < m % base := by
  have hn := Nat.div_add_mod n base
  have hm := Nat.div_add_mod m base
  rcases lt_trichotomy (n / base) (m / base) with hlt | heq | hgt
  · refine iff_of_true (lt_of_not_ge fun hge => ?_) (Or.inl hlt)
    exact absurd (Nat.div_le_div_right hge) (Nat.not_le.mpr hlt)
  · rw [heq] at hn
    rw [heq]
    omega
  · refine iff_of_false (fun hlt => ?_) ?_
    · exact absurd (Nat.div_le_div_right hlt.le) (Nat.not_le.mpr hgt)
    · rintro (hlt | ⟨heq, -⟩)
      · exact absurd hlt hgt.asymm
      · exact absurd heq hgt.ne'

theorem digits_lt_digits_iff (hbase : 0 < base) {places n m : Nat} (hn : n < base ^ places)
    (hm : m < base ^ places) : digits base places n < digits base places m ↔ n < m := by
  induction places generalizing n m with
  | zero =>
      rw [pow_zero, Nat.lt_one_iff] at hn hm
      rw [hn, hm]
      exact iff_of_false (List.not_lt_nil _) (Nat.lt_irrefl 0)
  | succ places ih =>
      rw [pow_succ, ← Nat.div_lt_iff_lt_mul hbase] at hn hm
      have hsame : digits base places (n / base) = digits base places (m / base) ↔ n / base = m / base :=
        eq_iff_of_lt_iff (ih hn hm) (ih hm hn)
      have hlast : ([n % base] : List Nat) < [m % base] ↔ n % base < m % base := by
        rw [List.cons_lt_cons_iff]
        exact ⟨fun h => h.resolve_right fun h => List.not_lt_nil [] h.2, Or.inl⟩
      have hlength : (digits base places (n / base)).length = (digits base places (m / base)).length := by
        rw [length_digits, length_digits]
      rw [digits, digits, append_lt_append_iff hlength, ih hn hm, hsame, hlast, lt_iff_div_mod base n m]

theorem digits_inj (hbase : 0 < base) {places n m : Nat} (hn : n < base ^ places) (hm : m < base ^ places) :
    digits base places n = digits base places m ↔ n = m :=
  eq_iff_of_lt_iff (digits_lt_digits_iff hbase hn hm) (digits_lt_digits_iff hbase hm hn)

/-! ### Incrementing with carries -/

/-- The last digit that is not the greatest is one more, and the digits after it are zero. -/
inductive Incremented (top : Nat) : List Nat → List Nat → Prop where
  | carried (front : List Nat) (d places : Nat) (hd : d ≠ top) :
      Incremented top (front ++ d :: List.replicate places top) (front ++ (d + 1) :: List.replicate places 0)

theorem Incremented.lt {before after : List Nat} (h : Incremented top before after) : before < after := by
  obtain ⟨front, d, places, hd⟩ := h
  exact List.append_left_lt (List.cons_lt_cons_iff.mpr (Or.inl (Nat.lt_succ_self d)))

theorem Incremented.length_eq {before after : List Nat} (h : Incremented top before after) :
    after.length = before.length := by
  obtain ⟨front, d, places, hd⟩ := h
  rw [List.length_append, List.length_append, List.length_cons, List.length_cons, List.length_replicate,
    List.length_replicate]

/-- The digits are still no greater than the greatest. -/
theorem Incremented.le_top {before after : List Nat} (h : Incremented top before after)
    (hbefore : ∀ d ∈ before, d ≤ top) : ∀ d ∈ after, d ≤ top := by
  obtain ⟨front, d, places, hd⟩ := h
  intro c hc
  rcases List.mem_append.mp hc with hfront | hback
  · exact hbefore c (List.mem_append_left _ hfront)
  · rcases List.mem_cons.mp hback with rfl | hzero
    · exact Nat.lt_of_le_of_ne (hbefore d (List.mem_append_right _ List.mem_cons_self)) hd
    · rw [List.eq_of_mem_replicate hzero]
      exact Nat.zero_le top

end DigitCounters
