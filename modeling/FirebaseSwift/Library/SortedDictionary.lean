import Mathlib.Data.List.Basic
import Mathlib.Data.List.Pairwise
import Mathlib.Order.RelClasses

/-! Dictionaries as association lists kept in ascending key order. The order is a parameter, so
one dictionary can be sorted by another order than the one of its key type. Reading never uses the
order: the laws of `get` after `set` and `remove` hold for every list. The order makes the
representation canonical, so that two sorted dictionaries with the same answers are equal. -/

namespace SortedDictionary

variable {K α β : Type} [DecidableEq K]

/-- The value stored for a key. -/
def get (k : K) : List (K × α) → Option α
  | [] => none
  | (j, v) :: l => if j = k then some v else get k l

/-- Store a value for a key, replacing the value it has. -/
def set (r : K → K → Prop) [DecidableRel r] (k : K) (v : α) : List (K × α) → List (K × α)
  | [] => [(k, v)]
  | (j, w) :: l =>
      if j = k then (k, v) :: l
      else if r k j then (k, v) :: (j, w) :: l
      else (j, w) :: set r k v l

/-- Remove a key. -/
def remove (k : K) (l : List (K × α)) : List (K × α) := l.filter fun e => e.1 ≠ k

/-- Ascending keys. -/
def Sorted (r : K → K → Prop) (l : List (K × α)) : Prop := l.Pairwise fun a b => r a.1 b.1

instance (r : K → K → Prop) [DecidableRel r] (l : List (K × α)) : Decidable (Sorted r l) :=
  inferInstanceAs (Decidable (l.Pairwise fun a b => r a.1 b.1))

@[simp] theorem get_nil (k : K) : get k ([] : List (K × α)) = none := rfl

theorem get_cons (k j : K) (v : α) (l : List (K × α)) :
    get k ((j, v) :: l) = if j = k then some v else get k l := rfl

@[simp] theorem remove_nil (k : K) : remove k ([] : List (K × α)) = [] := rfl

variable {k : K} {l : List (K × α)}

theorem mem_remove {e : K × α} : e ∈ remove k l ↔ e ∈ l ∧ e.1 ≠ k := by
  simp [remove]

theorem mem_of_get {v : α} (h : get k l = some v) : (k, v) ∈ l := by
  induction l with
  | nil => cases h
  | cons e l ih =>
      obtain ⟨j, w⟩ := e
      rw [get_cons] at h
      split_ifs at h with hjk
      · cases h
        rw [hjk]
        exact List.mem_cons_self
      · exact List.mem_cons_of_mem _ (ih h)

theorem get_eq_none_iff : get k l = none ↔ ∀ e ∈ l, e.1 ≠ k := by
  induction l with
  | nil => simp
  | cons e l ih =>
      obtain ⟨j, w⟩ := e
      rw [get_cons, List.forall_mem_cons]
      by_cases hjk : j = k
      · simp [hjk]
      · simp [hjk, ih]

theorem mem_keys_iff : k ∈ l.map Prod.fst ↔ get k l ≠ none := by
  rw [Ne, get_eq_none_iff, List.mem_map]
  simp

theorem get_of_mem_of_nodup {v : α} (h : (l.map Prod.fst).Nodup) (hmem : (k, v) ∈ l) : get k l = some v := by
  induction l with
  | nil => cases hmem
  | cons e l ih =>
      obtain ⟨j, w⟩ := e
      obtain ⟨hhead, htail⟩ := List.nodup_cons.mp h
      rw [get_cons]
      rcases List.mem_cons.mp hmem with heq | hmem
      · cases heq
        rw [if_pos rfl]
      · have hne : j ≠ k := by
          rintro rfl
          exact hhead (List.mem_map.mpr ⟨_, hmem, rfl⟩)
        rw [if_neg hne, ih htail hmem]

theorem get_remove_self (k : K) (l : List (K × α)) : get k (remove k l) = none :=
  get_eq_none_iff.mpr fun _ he => (mem_remove.mp he).2

theorem get_remove_of_ne {j : K} (h : j ≠ k) (l : List (K × α)) : get j (remove k l) = get j l := by
  induction l with
  | nil => rfl
  | cons e l ih =>
      obtain ⟨i, w⟩ := e
      by_cases hik : i = k
      · have hij : i ≠ j := fun hij => h (hij.symm.trans hik)
        rw [remove, List.filter_cons_of_neg (by simp [hik]), get_cons, if_neg hij]
        exact ih
      · rw [remove, List.filter_cons_of_pos (by simp [hik]), get_cons, get_cons]
        split_ifs
        · rfl
        · exact ih

theorem get_remove (k j : K) (l : List (K × α)) : get j (remove k l) = if j = k then none else get j l := by
  split_ifs with h
  · rw [h, get_remove_self]
  · exact get_remove_of_ne h l

section Order

variable (r : K → K → Prop) [DecidableRel r]

@[simp] theorem set_ne_nil (k : K) (v : α) (l : List (K × α)) : set r k v l ≠ [] := by
  cases l with
  | nil => simp [set]
  | cons e l =>
      rw [set]
      split_ifs <;> simp

theorem get_set_self (k : K) (v : α) (l : List (K × α)) : get k (set r k v l) = some v := by
  induction l with
  | nil => simp [set, get_cons]
  | cons e l ih =>
      rw [set]
      split_ifs with h1 h2
      · rw [get_cons, if_pos rfl]
      · rw [get_cons, if_pos rfl]
      · rw [get_cons, if_neg h1, ih]

variable {k : K} {v : α} {l : List (K × α)}

theorem get_set_of_ne {j : K} (h : j ≠ k) (v : α) (l : List (K × α)) : get j (set r k v l) = get j l := by
  induction l with
  | nil => rw [set, get_cons, if_neg (Ne.symm h)]
  | cons e l ih =>
      obtain ⟨i, w⟩ := e
      rw [set]
      split_ifs with h1 h2
      · rw [get_cons, get_cons, if_neg (Ne.symm h), if_neg (h1 ▸ Ne.symm h)]
      · rw [get_cons, if_neg (Ne.symm h)]
      · rw [get_cons, get_cons, ih]

theorem get_set (k j : K) (v : α) (l : List (K × α)) : get j (set r k v l) = if j = k then some v else get j l := by
  split_ifs with h
  · rw [h, get_set_self]
  · exact get_set_of_ne r h v l

/-- The last value counts. -/
theorem set_set (k : K) (v w : α) (l : List (K × α)) : set r k v (set r k w l) = set r k v l := by
  induction l with
  | nil => simp only [set, if_true]
  | cons e l ih =>
      obtain ⟨j, u⟩ := e
      rw [set, set]
      split_ifs with h1 h2
      · rw [set, if_pos rfl]
      · rw [set, if_pos rfl]
      · rw [set, if_neg h1, if_neg h2, ih]

theorem mem_keys_set {j : K} : j ∈ (set r k v l).map Prod.fst ↔ j = k ∨ j ∈ l.map Prod.fst := by
  rw [mem_keys_iff, get_set, mem_keys_iff]
  by_cases h : j = k <;> simp [h]

theorem mem_set {e : K × α} (h : e ∈ set r k v l) : e = (k, v) ∨ e ∈ l := by
  induction l with
  | nil => exact Or.inl (List.mem_singleton.mp h)
  | cons f l ih =>
      rw [set] at h
      split_ifs at h with h1 h2
      · rcases List.mem_cons.mp h with h | h
        · exact Or.inl h
        · exact Or.inr (List.mem_cons_of_mem _ h)
      · rcases List.mem_cons.mp h with h | h
        · exact Or.inl h
        · exact Or.inr h
      · rcases List.mem_cons.mp h with h | h
        · exact Or.inr (h ▸ List.mem_cons_self)
        · exact (ih h).imp_right (List.mem_cons_of_mem _)

omit [DecidableEq K] [DecidableRel r] in
theorem sorted_nil : Sorted r ([] : List (K × α)) := List.Pairwise.nil

omit [DecidableRel r] in
theorem Sorted.remove {r : K → K → Prop} (h : Sorted r l) (k : K) : Sorted r (remove k l) :=
  List.Pairwise.filter _ h

theorem Sorted.set [IsStrictTotalOrder K r] (h : Sorted r l) (k : K) (v : α) : Sorted r (set r k v l) := by
  induction l with
  | nil => exact List.pairwise_singleton _ _
  | cons e l ih =>
      obtain ⟨j, w⟩ := e
      obtain ⟨hhead, htail⟩ := List.pairwise_cons.mp h
      rw [SortedDictionary.set]
      split_ifs with h1 h2
      · exact List.pairwise_cons.mpr ⟨fun e he => h1 ▸ hhead e he, htail⟩
      · refine List.pairwise_cons.mpr ⟨fun e he => ?_, h⟩
        rcases List.mem_cons.mp he with rfl | he
        · exact h2
        · exact trans_of r h2 (hhead e he)
      · refine List.pairwise_cons.mpr ⟨fun e he => ?_, ih htail⟩
        rcases mem_set r he with rfl | he
        · rcases trichotomous_of r j k with hlt | heq | hgt
          · exact hlt
          · exact absurd heq h1
          · exact absurd hgt h2
        · exact hhead e he

omit [DecidableEq K] [DecidableRel r] in
theorem Sorted.nodup_keys {r : K → K → Prop} [IsStrictTotalOrder K r] (h : Sorted r l) : (l.map Prod.fst).Nodup := by
  refine List.pairwise_map.mpr (h.imp ?_)
  rintro ⟨j, v⟩ ⟨k, w⟩ hlt rfl
  exact irrefl_of r j hlt

omit [DecidableRel r] in
theorem Sorted.get_of_mem {r : K → K → Prop} [IsStrictTotalOrder K r] (h : Sorted r l) (hmem : (k, v) ∈ l) :
    get k l = some v :=
  get_of_mem_of_nodup h.nodup_keys hmem

omit [DecidableRel r] in
theorem Sorted.mem_iff_get {r : K → K → Prop} [IsStrictTotalOrder K r] (h : Sorted r l) :
    (k, v) ∈ l ↔ get k l = some v :=
  ⟨h.get_of_mem, mem_of_get⟩

omit [DecidableRel r] in
/-- A key is kept exactly where its entry is not among those left out. -/
theorem Sorted.mem_keys_filter {r : K → K → Prop} [IsStrictTotalOrder K r] (h : Sorted r l) (p : K × α → Bool)
    (k : K) : k ∈ (l.filter p).map Prod.fst ↔ k ∈ l.map Prod.fst ∧ k ∉ (l.filter fun e => !p e).map Prod.fst := by
  constructor
  · intro hmem
    obtain ⟨⟨k, v⟩, hkept, rfl⟩ := List.mem_map.mp hmem
    obtain ⟨hl, hp⟩ := List.mem_filter.mp hkept
    refine ⟨List.mem_map_of_mem hl, fun hleft => ?_⟩
    obtain ⟨⟨k', w⟩, hleft, heq⟩ := List.mem_map.mp hleft
    obtain ⟨hl', hnot⟩ := List.mem_filter.mp hleft
    dsimp only at heq
    subst heq
    have hvalue := (h.get_of_mem hl).symm.trans (h.get_of_mem hl')
    cases hvalue
    rw [hp] at hnot
    cases hnot
  · rintro ⟨hmem, hnot⟩
    obtain ⟨e, hl, rfl⟩ := List.mem_map.mp hmem
    refine List.mem_map_of_mem (List.mem_filter.mpr ⟨hl, ?_⟩)
    by_contra hp
    exact hnot (List.mem_map_of_mem (List.mem_filter.mpr ⟨hl, by simpa using hp⟩))

omit [DecidableEq K] [DecidableRel r] in
/-- A dictionary is sorted in one way only. -/
theorem Sorted.eq_of_perm {r : K → K → Prop} [IsStrictTotalOrder K r] {l' : List (K × α)} (h : Sorted r l)
    (h' : Sorted r l') (hperm : l.Perm l') : l = l' := by
  have hasymm : ∀ a b : K × α, a ∈ l → b ∈ l' → r a.1 b.1 → r b.1 a.1 → a = b :=
    fun a b _ _ hab hba => absurd (trans_of r hab hba) (irrefl_of r a.1)
  exact List.Perm.eq_of_pairwise hasymm h h' hperm

omit [DecidableRel r] in
/-- Sorted dictionaries are determined by what they answer. -/
theorem Sorted.ext {r : K → K → Prop} [IsStrictTotalOrder K r] {l' : List (K × α)} (h : Sorted r l)
    (h' : Sorted r l') (hget : ∀ k, get k l = get k l') : l = l' := by
  refine h.eq_of_perm h' ((List.perm_ext_iff_of_nodup (h.imp ?_) (h'.imp ?_)).mpr fun e => ?_)
  · rintro a b hab rfl
    exact irrefl_of r _ hab
  · rintro a b hab rfl
    exact irrefl_of r _ hab
  · rw [h.mem_iff_get, h'.mem_iff_get, hget]

theorem Sorted.set_comm {r : K → K → Prop} [DecidableRel r] [IsStrictTotalOrder K r] (h : Sorted r l) {j : K}
    (hne : k ≠ j) (v w : α) : SortedDictionary.set r k v (SortedDictionary.set r j w l) =
      SortedDictionary.set r j w (SortedDictionary.set r k v l) := by
  refine ((h.set r j w).set r k v).ext ((h.set r k v).set r j w) fun i => ?_
  rw [get_set, get_set, get_set, get_set]
  split_ifs with hk hj
  · exact absurd (hk.symm.trans hj) hne
  all_goals rfl

/-- Setting the value that is there changes nothing. -/
theorem Sorted.set_get {r : K → K → Prop} [DecidableRel r] [IsStrictTotalOrder K r] (h : Sorted r l)
    (hget : get k l = some v) : SortedDictionary.set r k v l = l := by
  refine (h.set r k v).ext h fun i => ?_
  rw [get_set]
  split_ifs with hi
  · rw [hi, hget]
  · rfl

theorem length_set_of_none (hget : get k l = none) (v : α) : (set r k v l).length = l.length + 1 := by
  induction l with
  | nil => rfl
  | cons e l ih =>
      obtain ⟨j, w⟩ := e
      rw [get_cons] at hget
      split_ifs at hget with hjk
      rw [set, if_neg hjk]
      split_ifs
      · rfl
      · rw [List.length_cons, ih hget, List.length_cons]

theorem set_map (f : α → β) (k : K) (v : α) (l : List (K × α)) :
    (set r k v l).map (Prod.map id f) = set r k (f v) (l.map (Prod.map id f)) := by
  induction l with
  | nil => rfl
  | cons e l ih =>
      obtain ⟨j, w⟩ := e
      rw [set, List.map_cons, Prod.map_apply, id_eq, set]
      split_ifs
      · rfl
      · rfl
      · exact congrArg (Prod.map id f (j, w) :: ·) ih

/-- A new key is inserted. -/
theorem set_perm (hget : get k l = none) (v : α) : (set r k v l).Perm ((k, v) :: l) := by
  induction l with
  | nil => exact List.Perm.refl _
  | cons e l ih =>
      obtain ⟨j, w⟩ := e
      rw [get_cons] at hget
      split_ifs at hget with hjk
      rw [set, if_neg hjk]
      split_ifs
      · exact List.Perm.refl _
      · exact ((ih hget).cons (j, w)).trans (List.Perm.swap _ _ _)

/-- Setting a key adds at most its new entry. -/
theorem countP_set_le (p : K × α → Bool) (k : K) (v : α) (l : List (K × α)) :
    (set r k v l).countP p ≤ l.countP p + if p (k, v) then 1 else 0 := by
  induction l with
  | nil =>
      refine Nat.le_of_eq ?_
      rw [set, List.countP_singleton, List.countP_nil, Nat.zero_add]
  | cons e l ih =>
      obtain ⟨j, w⟩ := e
      rw [set]
      split_ifs <;> simp only [List.countP_cons] at * <;> split_ifs at * <;> omega

omit [DecidableRel r] in
/-- Removing a key takes its entry away. -/
theorem countP_remove_lt {p : K × α → Bool} (hget : get k l = some v) (hp : p (k, v) = true) :
    (remove k l).countP p < l.countP p := by
  induction l with
  | nil => cases hget
  | cons e l ih =>
      obtain ⟨j, w⟩ := e
      rw [get_cons] at hget
      rw [remove, List.filter_cons]
      have hle : (remove k l).countP p ≤ l.countP p := List.filter_sublist.countP_le
      split_ifs at hget with hjk
      · cases hget
        subst hjk
        rw [if_neg (by simp), List.countP_cons, if_pos hp]
        exact Nat.lt_succ_of_le hle
      · have htail := ih hget
        rw [if_pos (by simpa using hjk), List.countP_cons, List.countP_cons]
        exact Nat.add_lt_add_right htail _

omit [DecidableRel r] in
theorem Sorted.length_remove {r : K → K → Prop} [IsStrictTotalOrder K r] (h : Sorted r l)
    (hget : get k l = some v) : (SortedDictionary.remove k l).length + 1 = l.length := by
  induction l with
  | nil => cases hget
  | cons e l ih =>
      obtain ⟨j, w⟩ := e
      obtain ⟨hhead, htail⟩ := List.pairwise_cons.mp h
      rw [get_cons] at hget
      by_cases hjk : j = k
      · have hrest : SortedDictionary.remove k l = l := by
          refine List.filter_eq_self.mpr fun e he => ?_
          have hne : e.1 ≠ k := by
            intro heq
            have hlt : r j e.1 := hhead e he
            rw [hjk, heq] at hlt
            exact irrefl_of r k hlt
          simpa using hne
        have hcons : SortedDictionary.remove k ((j, w) :: l) = SortedDictionary.remove k l :=
          List.filter_cons_of_neg (by simp [hjk])
        rw [hcons, hrest, List.length_cons]
      · rw [if_neg hjk] at hget
        have hcons : SortedDictionary.remove k ((j, w) :: l) =
            (j, w) :: SortedDictionary.remove k l := List.filter_cons_of_pos (by simp [hjk])
        rw [hcons, List.length_cons, ih htail hget, List.length_cons]

end Order

end SortedDictionary
