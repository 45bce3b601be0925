import FirebaseSwift.Firestore.UserData
import Mathlib.Data.List.Lex

/-! Field masks. The comparison of field paths compares their keys, in which a numeric id is a number. Paths
of names that documents may have are compared without reading numbers, and a mask then is the set of what
was added to it. -/

namespace FirebaseSwift.Firestore

open ComparedSets ParseContext

/-! ### Keys of segments -/

/-- What a segment is compared by. A number that cannot be read has no place among the others. -/
def segmentKey (segment : Bytes) : WithBot ℤ ⊕ₗ Bytes :=
  if isNumericId segment then Sum.inlₗ (extractNumericId segment) else Sum.inrₗ segment

theorem compareSegments_eq_none_iff {lhs rhs : Bytes} : compareSegments lhs rhs = none ↔
    isNumericId lhs ∧ isNumericId rhs ∧ (extractNumericId lhs = none ∨ extractNumericId rhs = none) := by
  rw [compareSegments]
  cases isNumericId lhs <;> cases isNumericId rhs <;> cases extractNumericId lhs <;>
    cases extractNumericId rhs <;> simp

theorem compareSegments_eq {lhs rhs : Bytes} {order : Ordering} (h : compareSegments lhs rhs = some order) :
    order = compareKeys (segmentKey lhs) (segmentKey rhs) := by
  rw [compareSegments] at h
  rw [segmentKey, segmentKey]
  by_cases hlhs : isNumericId lhs <;> by_cases hrhs : isNumericId rhs
  · rw [if_neg fun hcase => hcase.2 hrhs, if_neg fun hcase => hcase.1 hlhs, if_pos ⟨hlhs, hrhs⟩] at h
    obtain ⟨n, hn, h⟩ := Option.bind_eq_some_iff.mp h
    obtain ⟨m, hm, h⟩ := Option.bind_eq_some_iff.mp h
    rw [if_pos hlhs, if_pos hrhs, hn, hm, ← Option.some.inj h]
    have hmono : ∀ {n m : ℤ}, n < m → (Sum.inlₗ (n : WithBot ℤ) : WithBot ℤ ⊕ₗ Bytes) < Sum.inlₗ (m : WithBot ℤ) :=
      fun h => Sum.Lex.inl_lt_inl_iff.mpr (WithBot.coe_lt_coe.mpr h)
    exact (compareKeys_map hmono n m).symm
  · rw [if_pos ⟨hlhs, hrhs⟩] at h
    rw [if_pos hlhs, if_neg hrhs, compareKeys_eq_lt (Sum.Lex.inl_lt_inr _ _)]
    exact (Option.some.inj h).symm
  · rw [if_neg fun hcase => hlhs hcase.1, if_pos ⟨hlhs, hrhs⟩] at h
    rw [if_neg hlhs, if_pos hrhs, compareKeys_eq_gt (Sum.Lex.inl_lt_inr _ _)]
    exact (Option.some.inj h).symm
  · rw [if_neg fun hcase => hlhs hcase.1, if_neg fun hcase => hrhs hcase.2, if_neg fun hcase => hlhs hcase.1] at h
    rw [if_neg hlhs, if_neg hrhs, ← Option.some.inj h]
    exact (compareKeys_map Sum.Lex.inr_lt_inr_iff.mpr lhs rhs).symm

theorem compareSegments_none_symm {lhs rhs : Bytes} (h : compareSegments lhs rhs = none) :
    compareSegments rhs lhs = none := by
  obtain ⟨hlhs, hrhs, hread⟩ := compareSegments_eq_none_iff.mp h
  exact compareSegments_eq_none_iff.mpr ⟨hrhs, hlhs, hread.symm⟩

/-- What compares with two numeric ids that do not compare is no numeric id. -/
theorem compareSegments_aside {a b c : Bytes} {order order' : Ordering} (h : compareSegments a b = none)
    (ha : compareSegments a c = some order) (hb : compareSegments b c = some order') :
    order = .lt ∧ order' = .lt := by
  obtain ⟨hnumeric, hnumeric', hread⟩ := compareSegments_eq_none_iff.mp h
  have hc : ¬isNumericId c := by
    intro hc
    rcases hread with hread | hread
    · rw [compareSegments_eq_none_iff.mpr ⟨hnumeric, hc, .inl hread⟩] at ha
      cases ha
    · rw [compareSegments_eq_none_iff.mpr ⟨hnumeric', hc, .inl hread⟩] at hb
      cases hb
  rw [compareSegments, if_pos ⟨hnumeric, hc⟩] at ha
  rw [compareSegments, if_pos ⟨hnumeric', hc⟩] at hb
  exact ⟨(Option.some.inj ha).symm, (Option.some.inj hb).symm⟩

/-! ### The comparison of paths -/

def FieldPath.key (path : FieldPath) : List (WithBot ℤ ⊕ₗ Bytes) := path.map segmentKey

theorem compareKeys_cons {κ : Type} [LinearOrder κ] (a b : κ) (as bs : List κ) :
    compareKeys (a :: as) (b :: bs) = (compareKeys a b).then (compareKeys as bs) := by
  rcases lt_trichotomy a b with h | rfl | h
  · rw [compareKeys_eq_lt h]
    exact compareKeys_eq_lt (List.Lex.rel h)
  · rw [compareKeys_self]
    rcases lt_trichotomy as bs with h | rfl | h
    · rw [compareKeys_eq_lt h]
      exact compareKeys_eq_lt (List.Lex.cons h)
    · rw [compareKeys_self, compareKeys_self]
      rfl
    · rw [compareKeys_eq_gt h]
      exact compareKeys_eq_gt (List.Lex.cons h)
  · rw [compareKeys_eq_gt h]
    exact compareKeys_eq_gt (List.Lex.rel h)

theorem FieldPath.compareTo_eq {path other : FieldPath} {order : Ordering}
    (h : path.compareTo other = some order) : order = compareKeys path.key other.key := by
  induction path generalizing other with
  | nil =>
      cases other with
      | nil =>
          cases h
          rfl
      | cons rhs other =>
          cases h
          exact (compareKeys_eq_lt List.Lex.nil).symm
  | cons lhs path ih =>
      cases other with
      | nil =>
          cases h
          exact (compareKeys_eq_gt List.Lex.nil).symm
      | cons rhs other =>
          have hcons : compareKeys (key (lhs :: path)) (key (rhs :: other)) =
              (compareKeys (segmentKey lhs) (segmentKey rhs)).then (compareKeys (key path) (key other)) :=
            compareKeys_cons _ _ _ _
          rw [hcons]
          rw [compareTo] at h
          split at h
          · cases h
          · rw [← compareSegments_eq ‹_›]
            exact ih h
          · cases h
            rw [← compareSegments_eq ‹_›]
            cases order <;> first | rfl | exact absurd rfl ‹_›

theorem FieldPath.compareTo_cons (lhs rhs : Bytes) (path other : FieldPath) :
    compareTo (lhs :: path) (rhs :: other) = (compareSegments lhs rhs).bind fun order =>
      if order = .eq then compareTo path other else some order := by
  rw [compareTo]
  cases compareSegments lhs rhs with
  | none => rfl
  | some order => cases order <;> rfl

theorem FieldPath.compareTo_eq_none_iff {lhs rhs : Bytes} {path other : FieldPath} :
    compareTo (lhs :: path) (rhs :: other) = none ↔
      compareSegments lhs rhs = none ∨ compareSegments lhs rhs = some .eq ∧ compareTo path other = none := by
  rw [compareTo_cons]
  cases hsegments : compareSegments lhs rhs with
  | none => simp
  | some order => by_cases horder : order = .eq <;> simp [horder]

theorem compareSegments_eq_symm {lhs rhs : Bytes} (h : compareSegments lhs rhs = some .eq) :
    compareSegments rhs lhs = some .eq := by
  cases hsymm : compareSegments rhs lhs with
  | none =>
      rw [compareSegments_none_symm hsymm] at h
      cases h
  | some order =>
      have hkey := compareSegments_eq h
      rw [compareSegments_eq hsymm]
      exact congrArg some ((cmp_eq_eq_iff _ _).mpr ((cmp_eq_eq_iff _ _).mp hkey.symm).symm)

/-- What is asked of the comparison of the paths in a mask -/
theorem FieldPath.comparison : Comparison FieldPath.compareTo FieldPath.key where
  of_some := compareTo_eq
  none_symm {path other} h := by
    induction path generalizing other with
    | nil => cases other <;> cases h
    | cons lhs path ih =>
        cases other with
        | nil => cases h
        | cons rhs other =>
            rcases compareTo_eq_none_iff.mp h with h | ⟨heq, h⟩
            · exact compareTo_eq_none_iff.mpr (.inl (compareSegments_none_symm h))
            · exact compareTo_eq_none_iff.mpr (.inr ⟨compareSegments_eq_symm heq, ih h⟩)
  aside {path other third order order'} h hpath hother := by
    induction path generalizing other third with
    | nil => cases other <;> cases h
    | cons lhs path ih =>
        cases other with
        | nil => cases h
        | cons rhs other =>
            cases third with
            | nil =>
                cases hpath
                cases hother
                exact ⟨rfl, nofun⟩
            | cons segment third =>
                rw [compareTo_cons] at hpath hother
                obtain ⟨first, hfirst, hpath⟩ := Option.bind_eq_some_iff.mp hpath
                obtain ⟨first', hfirst', hother⟩ := Option.bind_eq_some_iff.mp hother
                rcases compareTo_eq_none_iff.mp h with h | ⟨heq, h⟩
                · obtain ⟨rfl, rfl⟩ := compareSegments_aside h hfirst hfirst'
                  rw [if_neg nofun] at hpath hother
                  cases hpath
                  cases hother
                  exact ⟨rfl, nofun⟩
                · -- Equal segments compare with the third in one way.
                  have hkey : segmentKey lhs = segmentKey rhs :=
                    (cmp_eq_eq_iff _ _).mp (compareSegments_eq heq).symm
                  have hsame : first = first' := by
                    rw [compareSegments_eq hfirst, compareSegments_eq hfirst', hkey]
                  rw [← hsame] at hother
                  split_ifs at hpath hother with horder
                  · exact ih h hpath hother
                  · cases hpath
                    cases hother
                    exact ⟨rfl, horder⟩

/-! ### Names that are not reserved -/

/-- No name of the path is reserved. -/
def FieldPath.IsPlain (path : FieldPath) : Prop := ∀ name ∈ path, ¬isReserved name

/-- Numeric ids are reserved names. -/
theorem isReserved_of_isNumericId {segment : Bytes} (h : isNumericId segment) : isReserved segment := by
  rw [isNumericId, Bool.and_eq_true, Bool.and_eq_true, beq_iff_eq, beq_iff_eq] at h
  obtain ⟨⟨-, hfirst⟩, hlast⟩ := h
  rw [isReserved, Bool.and_eq_true, List.isPrefixOf_iff_prefix, List.isSuffixOf_iff_suffix]
  constructor
  · have hid : ascii "__" <+: segment.take 4 := hfirst ▸ by decide
    exact hid.trans (List.take_prefix 4 segment)
  · exact hlast ▸ List.drop_suffix _ segment

/-- A plain path compares with every path. -/
theorem FieldPath.compareTo_ne_none {path : FieldPath} (h : path.IsPlain) (other : FieldPath) :
    compareTo path other ≠ none := by
  induction path generalizing other with
  | nil => cases other <;> exact nofun
  | cons lhs path ih =>
      obtain ⟨hlhs, hpath⟩ := List.forall_mem_cons.mp h
      cases other with
      | nil => exact nofun
      | cons rhs other =>
          intro hnone
          rcases compareTo_eq_none_iff.mp hnone with hnone | ⟨-, hnone⟩
          · exact hlhs (isReserved_of_isNumericId (compareSegments_eq_none_iff.mp hnone).1)
          · exact ih hpath other hnone

theorem segmentKey_inj {segment other : Bytes} (h : ¬isReserved segment) (heq : segmentKey segment = segmentKey other) :
    segment = other := by
  rw [segmentKey, if_neg fun hnumeric => h (isReserved_of_isNumericId hnumeric), segmentKey] at heq
  split_ifs at heq
  · cases heq
  · exact Sum.inr.inj heq

/-- A plain path compares as equal with itself only. -/
theorem FieldPath.key_inj {path other : FieldPath} (h : path.IsPlain) (heq : path.key = other.key) : path = other := by
  induction path generalizing other with
  | nil => exact (List.map_eq_nil_iff.mp heq.symm).symm
  | cons lhs path ih =>
      cases other with
      | nil => cases heq
      | cons rhs other =>
          obtain ⟨hsegment, hrest⟩ := List.cons.inj heq
          obtain ⟨hlhs, hpath⟩ := List.forall_mem_cons.mp h
          rw [segmentKey_inj hlhs hsegment, ih hpath hrest]

/-- Plain paths are inserted without failure. -/
theorem insertAll_plain {paths : List FieldPath} (h : ∀ path ∈ paths, path.IsPlain) :
    ∃ mask, insertAll FieldPath.compareTo [] paths = some mask ∧ IsSet FieldPath.compareTo FieldPath.key mask ∧
      ∀ path, path ∈ mask ↔ path ∈ paths := by
  have hcomparable : insertAll FieldPath.compareTo [] paths ≠ none :=
    (FieldPath.comparison.insertAll_ne_none_iff paths isSet_nil).mpr
      ⟨List.pairwise_of_forall_mem_list fun path _ other hother => FieldPath.compareTo_ne_none (h other hother) path,
        fun _ _ _ hnil => absurd hnil List.not_mem_nil⟩
  obtain ⟨mask, hmask⟩ := Option.ne_none_iff_exists'.mp hcomparable
  refine ⟨mask, hmask, (FieldPath.comparison.insertAll_cases isSet_nil hmask).1, fun path => ?_⟩
  have hmem := FieldPath.comparison.mem_insertAll_iff isSet_nil hmask (fun a b ha _ hkey =>
    FieldPath.key_inj (h a (ha.resolve_left List.not_mem_nil)) hkey) path
  rw [hmem, or_iff_right List.not_mem_nil]

end FirebaseSwift.Firestore
