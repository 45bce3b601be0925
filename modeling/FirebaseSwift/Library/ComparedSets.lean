import Mathlib.Data.List.Perm.Basic
import Mathlib.Order.Compare
import Mathlib.Order.Lattice

/-! Ordered sets as sorted lists, for a comparison that may fail. Where it does not fail it compares keys of
a linear order, and two elements that cannot be compared are on one side of each element that compares with
both. Inserting a list then fails exactly when two of its elements cannot be compared, whatever their order. -/

namespace ComparedSets

variable {α κ : Type}

/-- Inserts an element where the comparison puts it. An element that compares as equal is kept instead. -/
def insert (compare : α → α → Option Ordering) (x : α) : List α → Option (List α)
  | [] => some [x]
  | y :: ys =>
      match compare x y with
      | none => none
      | some .lt => some (x :: y :: ys)
      | some .eq => some (y :: ys)
      | some .gt => (insert compare x ys).map (y :: ·)

def insertAll (compare : α → α → Option Ordering) (set : List α) (xs : List α) : Option (List α) :=
  xs.foldlM (fun set x => insert compare x set) set

variable [LinearOrder κ] {compare : α → α → Option Ordering} {key : α → κ}

/-- How two keys compare -/
def compareKeys (a b : κ) : Ordering := cmp a b

theorem compareKeys_eq_lt {a b : κ} (h : a < b) : compareKeys a b = .lt := h.cmp_eq_lt

theorem compareKeys_eq_gt {a b : κ} (h : b < a) : compareKeys a b = .gt := h.cmp_eq_gt

@[simp] theorem compareKeys_self (a : κ) : compareKeys a a = .eq := cmp_self_eq_eq a

theorem compareKeys_map {κ' : Type} [LinearOrder κ'] {f : κ → κ'} (hf : ∀ {a b}, a < b → f a < f b) (a b : κ) :
    compareKeys (f a) (f b) = compareKeys a b := by
  rcases lt_trichotomy a b with h | rfl | h
  · rw [compareKeys_eq_lt h, compareKeys_eq_lt (hf h)]
  · rw [compareKeys_self, compareKeys_self]
  · rw [compareKeys_eq_gt h, compareKeys_eq_gt (hf h)]

/-- What is asked of the comparison. -/
structure Comparison (compare : α → α → Option Ordering) (key : α → κ) : Prop where
  of_some : ∀ {a b o}, compare a b = some o → o = compareKeys (key a) (key b)
  none_symm : ∀ {a b}, compare a b = none → compare b a = none
  aside : ∀ {a b c o o'}, compare a b = none → compare a c = some o → compare b c = some o' → o = o' ∧ o ≠ .eq

/-- The elements are in the order of their keys, and any two can be compared. -/
def IsSet (compare : α → α → Option Ordering) (key : α → κ) (set : List α) : Prop :=
  set.Pairwise fun a b => key a < key b ∧ compare a b ≠ none

theorem isSet_nil : IsSet compare key [] := List.Pairwise.nil

theorem IsSet.nodup {set : List α} (h : IsSet compare key set) : set.Nodup := by
  refine h.imp fun {a b} hab heq => ?_
  rw [heq] at hab
  exact lt_irrefl _ hab.1

/-- Sets with the same elements are equal. -/
theorem IsSet.ext {set set' : List α} (h : IsSet compare key set) (h' : IsSet compare key set')
    (hmem : ∀ a, a ∈ set ↔ a ∈ set') : set = set' := by
  refine List.Perm.eq_of_pairwise ?_ h h' ((List.perm_ext_iff_of_nodup h.nodup h'.nodup).mpr hmem)
  intro a b _ _ hab hba
  exact absurd hba.1 hab.1.asymm

theorem IsSet.key_inj {set : List α} (h : IsSet compare key set) {a b : α} (ha : a ∈ set) (hb : b ∈ set)
    (hkey : key a = key b) : a = b := by
  induction set with
  | nil => exact absurd ha List.not_mem_nil
  | cons x xs ih =>
      obtain ⟨hx, hxs⟩ := List.pairwise_cons.mp h
      rcases List.mem_cons.mp ha with rfl | ha'
      · rcases List.mem_cons.mp hb with rfl | hb'
        · rfl
        · exact absurd hkey (hx b hb').1.ne
      · rcases List.mem_cons.mp hb with rfl | hb'
        · exact absurd hkey.symm (hx a ha').1.ne
        · exact ih hxs ha' hb'

namespace Comparison

variable (h : Comparison compare key) {set : List α}
include h

theorem compare_of_ne_none {a b : α} (hne : compare a b ≠ none) : compare a b = some (compareKeys (key a) (key b)) := by
  obtain ⟨o, ho⟩ := Option.ne_none_iff_exists'.mp hne
  rw [ho, h.of_some ho]

/-- An element that cannot be compared with some element of the set is not inserted. -/
theorem insert_eq_none (hset : IsSet compare key set) {x y : α} (hy : y ∈ set) (hxy : compare x y = none) :
    insert compare x set = none := by
  induction set with
  | nil => exact absurd hy List.not_mem_nil
  | cons z zs ih =>
      obtain ⟨hz, hzs⟩ := List.pairwise_cons.mp hset
      rw [insert]
      rcases List.mem_cons.mp hy with rfl | hy
      · rw [hxy]
      · -- What compares with both is in front of both.
        have hzy : compare y z = some .gt := by
          rw [h.compare_of_ne_none fun hnone => (hz y hy).2 (h.none_symm hnone), compareKeys_eq_gt (hz y hy).1]
        cases hxz : compare x z with
        | none => rfl
        | some o =>
            obtain ⟨rfl, -⟩ := h.aside hxy hxz hzy
            show (insert compare x zs).map (z :: ·) = none
            rw [ih hzs hy, Option.map_none]

theorem insert_eq_none_iff (hset : IsSet compare key set) (x : α) :
    insert compare x set = none ↔ ∃ y ∈ set, compare x y = none := by
  refine ⟨?_, fun ⟨y, hy, hxy⟩ => h.insert_eq_none hset hy hxy⟩
  induction set with
  | nil => exact fun hnone => nomatch hnone
  | cons z zs ih =>
      intro hnone
      rw [insert] at hnone
      split at hnone
      · exact ⟨z, List.mem_cons_self, ‹_›⟩
      · cases hnone
      · cases hnone
      · obtain ⟨y, hy, hxy⟩ := ih (List.pairwise_cons.mp hset).2 (Option.map_eq_none_iff.mp hnone)
        exact ⟨y, List.mem_cons_of_mem z hy, hxy⟩

/-- The set after an insertion has the element unless one with its key was there. -/
theorem insert_cases (hset : IsSet compare key set) {x : α} {set' : List α} (hinsert : insert compare x set = some set') :
    IsSet compare key set' ∧ ∀ y, y ∈ set' ↔ y ∈ set ∨ (y = x ∧ ∀ z ∈ set, key z ≠ key x) := by
  induction set generalizing set' with
  | nil =>
      cases hinsert
      refine ⟨List.pairwise_singleton _ _, fun y => ?_⟩
      simp
  | cons z zs ih =>
      have hcomparable : ∀ y ∈ z :: zs, compare x y ≠ none := by
        intro y hy hnone
        rw [h.insert_eq_none hset hy hnone] at hinsert
        cases hinsert
      obtain ⟨hz, hzs⟩ := List.pairwise_cons.mp hset
      rw [insert, h.compare_of_ne_none (hcomparable z List.mem_cons_self)] at hinsert
      rcases lt_trichotomy (key x) (key z) with hlt | heq | hgt
      · rw [compareKeys_eq_lt hlt] at hinsert
        cases hinsert
        have hall : ∀ y ∈ z :: zs, key x < key y := by
          intro y hy
          rcases List.mem_cons.mp hy with rfl | hy
          · exact hlt
          · exact hlt.trans (hz y hy).1
        refine ⟨List.pairwise_cons.mpr ⟨fun y hy => ⟨hall y hy, hcomparable y hy⟩, hset⟩, fun y => ?_⟩
        rw [List.mem_cons, or_comm]
        exact or_congr_right ⟨fun heq => ⟨heq, fun w hw => (hall w hw).ne'⟩, And.left⟩
      · rw [heq, compareKeys_self] at hinsert
        cases hinsert
        refine ⟨hset, fun y => ⟨Or.inl, ?_⟩⟩
        rintro (hy | ⟨-, hnew⟩)
        · exact hy
        · exact absurd heq.symm (hnew z List.mem_cons_self)
      · rw [compareKeys_eq_gt hgt] at hinsert
        obtain ⟨rest, hrest, rfl⟩ := Option.map_eq_some_iff.mp hinsert
        obtain ⟨hisSet, hmem⟩ := ih hzs hrest
        refine ⟨List.pairwise_cons.mpr ⟨fun y hy => ?_, hisSet⟩, fun y => ?_⟩
        · rcases (hmem y).mp hy with hy | ⟨rfl, -⟩
          · exact hz y hy
          · exact ⟨hgt, fun hnone => hcomparable z List.mem_cons_self (h.none_symm hnone)⟩
        · rw [List.mem_cons, List.mem_cons, hmem, or_assoc, List.forall_mem_cons, and_iff_right hgt.ne]

/-- A list is inserted exactly when its elements can be compared with each other and with the set. -/
theorem insertAll_ne_none_iff (xs : List α) (hset : IsSet compare key set) : insertAll compare set xs ≠ none ↔
      xs.Pairwise (fun a b => compare b a ≠ none) ∧ ∀ x ∈ xs, ∀ y ∈ set, compare x y ≠ none := by
  induction xs generalizing set with
  | nil => simp [insertAll]
  | cons x xs ih =>
      rw [insertAll, List.foldlM_cons, List.pairwise_cons, List.forall_mem_cons]
      cases hinsert : insert compare x set with
      | none =>
          obtain ⟨y, hy, hxy⟩ := (h.insert_eq_none_iff hset x).mp hinsert
          exact iff_of_false (fun hne => hne rfl) fun hall => hall.2.1 y hy hxy
      | some set' =>
          obtain ⟨hset', hmem⟩ := h.insert_cases hset hinsert
          have hx : ∀ y ∈ set, compare x y ≠ none := by
            intro y hy hnone
            rw [h.insert_eq_none hset hy hnone] at hinsert
            cases hinsert
          refine (ih hset').trans ?_
          constructor
          · rintro ⟨hxs, hcomparable⟩
            have hold : ∀ x' ∈ xs, ∀ y ∈ set, compare x' y ≠ none := fun x' hx' y hy =>
              hcomparable x' hx' y ((hmem y).mpr (.inl hy))
            refine ⟨⟨fun x' hx' hnone => ?_, hxs⟩, hx, hold⟩
            by_cases hnew : ∀ z ∈ set, key z ≠ key x
            · exact hcomparable x' hx' x ((hmem x).mpr (.inr ⟨rfl, hnew⟩)) hnone
            · -- The element of the set with the key of `x` compares as `x` does.
              push Not at hnew
              obtain ⟨z, hz, hkey⟩ := hnew
              have hxz := h.compare_of_ne_none (hx z hz)
              rw [hkey, compareKeys_self] at hxz
              obtain ⟨heq, hne⟩ := h.aside hnone (h.compare_of_ne_none (hold x' hx' z hz)) hxz
              exact hne heq
          · rintro ⟨⟨hfirst, hxs⟩, -, hold⟩
            refine ⟨hxs, fun x' hx' y hy => ?_⟩
            rcases (hmem y).mp hy with hy | ⟨rfl, -⟩
            · exact hold x' hx' y hy
            · exact hfirst x' hx'

/-- The elements of the set and, of those inserted, the first with each new key -/
theorem insertAll_cases {xs result : List α} (hset : IsSet compare key set) (hinsert : insertAll compare set xs = some result) :
    IsSet compare key result ∧ (∀ y ∈ set, y ∈ result) ∧ (∀ y ∈ result, y ∈ set ∨ y ∈ xs) ∧
      ∀ x ∈ xs, ∃ y ∈ result, key y = key x := by
  induction xs generalizing set with
  | nil =>
      cases hinsert
      exact ⟨hset, fun _ hy => hy, fun _ => .inl, fun _ hx => absurd hx List.not_mem_nil⟩
  | cons x xs ih =>
      rw [insertAll, List.foldlM_cons] at hinsert
      obtain ⟨set', hinsert', hrest⟩ := Option.bind_eq_some_iff.mp hinsert
      obtain ⟨hset', hmem⟩ := h.insert_cases hset hinsert'
      obtain ⟨hresult, hkept, hfrom, hkeys⟩ := ih hset' hrest
      refine ⟨hresult, fun y hy => hkept y ((hmem y).mpr (.inl hy)), fun y hy => ?_,
        List.forall_mem_cons.mpr ⟨?_, hkeys⟩⟩
      · rcases hfrom y hy with hy | hy
        · rcases (hmem y).mp hy with hy | ⟨rfl, -⟩
          · exact .inl hy
          · exact .inr List.mem_cons_self
        · exact .inr (List.mem_cons_of_mem x hy)
      · by_cases hnew : ∀ z ∈ set, key z ≠ key x
        · exact ⟨x, hkept x ((hmem x).mpr (.inr ⟨rfl, hnew⟩)), rfl⟩
        · push Not at hnew
          obtain ⟨z, hz, hkey⟩ := hnew
          exact ⟨z, hkept z ((hmem z).mpr (.inl hz)), hkey⟩

/-- Where different elements have different keys the set has all elements that were inserted. -/
theorem mem_insertAll_iff {xs result : List α} (hset : IsSet compare key set)
    (hinsert : insertAll compare set xs = some result)
    (hinj : ∀ a b, (a ∈ set ∨ a ∈ xs) → (b ∈ set ∨ b ∈ xs) → key a = key b → a = b) (y : α) :
    y ∈ result ↔ y ∈ set ∨ y ∈ xs := by
  obtain ⟨-, hkept, hfrom, hkeys⟩ := h.insertAll_cases hset hinsert
  refine ⟨hfrom y, ?_⟩
  rintro (hy | hy)
  · exact hkept y hy
  · obtain ⟨z, hz, hkey⟩ := hkeys y hy
    exact hinj z y (hfrom z hz) (.inr hy) hkey ▸ hz

end Comparison

end ComparedSets
