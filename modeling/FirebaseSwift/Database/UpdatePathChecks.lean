import FirebaseSwift.Database.UpdatePaths
import Mathlib.Data.Set.Function
import Mathlib.Order.Fin.Basic

/-! The check of update paths. For keys of a set it finds every path that is an ancestor of another, or the
same, exactly if any two keys of the set that are not equivalent are compared with a result other than
equality, and equivalent keys are compared alike. Zero with a minus and with one more digit are different keys
that are equal to the comparison, and an ancestor may be missed behind one of them. -/

namespace FirebaseSwift.Database

open UnicodeStrings StoppingSort PrefixOrder ExceptLoops

namespace UpdatePaths

section Checks

variable [UnicodeVersion]

/-! ### What should be refused -/

/-- A path is an ancestor of another, or the same. -/
def Overlaps (paths : List StringPath) : Prop :=
  ∃ i j : Fin paths.length, i ≠ j ∧ contains (paths.get i) (paths.get j) = true

variable {paths : List StringPath} {key : List Char} {ordering : Ordering}

theorem overlaps_iff : Overlaps paths ↔
      ¬paths.Pairwise fun path other => ¬contains path other = true ∧ ¬contains other path = true := by
  rw [List.pairwise_iff_get, Overlaps]
  constructor
  · rintro ⟨i, j, hne, hcontains⟩ hpairwise
    rcases lt_or_gt_of_ne hne with hlt | hgt
    · exact (hpairwise i j hlt).1 hcontains
    · exact (hpairwise j i hgt).2 hcontains
  · intro hnot
    by_contra hnone
    refine hnot fun i j hlt => ⟨fun h => hnone ⟨i, j, hlt.ne, h⟩, fun h => hnone ⟨j, i, hlt.ne', h⟩⟩

variable {Value Node Write : Type} (builder : WriteBuilder Value Node Write)

/-- The update is refused for an overlap exactly if there is one, and is accepted exactly if there is none. -/
def Decides (values : List (List Char × Value)) : Prop :=
  (Overlaps (values.map fun entry => pathWith entry.1) →
    ∃ prev path, compoundWriteFromDictionary builder values = .error (.ancestor prev path)) ∧
  (¬Overlaps (values.map fun entry => pathWith entry.1) →
    ∃ write, compoundWriteFromDictionary builder values = .ok write)

/-- The key and the value of an entry are valid. -/
def ValidEntry (entry : List Char × Value) : Prop :=
  validUpdateDictionaryKey builder entry.1 entry.2 = .ok entry.1 ∧ (builder.nodeFrom entry.2).isSome = true

/-- A dictionary of update paths with keys of a set. It has no key twice. -/
structure IsUpdate (keys : Set (List Char)) (values : List (List Char × Value)) : Prop where
  nodup : (values.map Prod.fst).Nodup
  valid : ∀ entry ∈ values, ValidEntry builder entry
  mem : ∀ entry ∈ values, ∀ key ∈ pathWith entry.1, key ∈ keys

/-- Keys that are not equivalent are before or after each other, and equivalent keys are compared alike. -/
structure ConsistentOn (keys : Set (List Char)) : Prop where
  compared : ∀ a ∈ keys, ∀ b ∈ keys, ¬Equivalent a b →
    FUtilities.compareKey a b = .ok .lt ∨ FUtilities.compareKey a b = .ok .gt
  alike : ∀ a ∈ keys, ∀ b ∈ keys, ∀ c ∈ keys, Equivalent a b →
    FUtilities.compareKey a c = FUtilities.compareKey b c

/-! ### Ranks of keys -/

/-- One of the keys that are equivalent to a key. -/
noncomputable def representative (keys : Set (List Char)) (key : List Char) : List Char :=
  Function.invFunOn nfc keys (nfc key)

/-- Equivalent keys have one rank. -/
noncomputable def sharedRank (keys : Set (List Char)) (key : List Char) : FUtilities.KeyRank :=
  FUtilities.keyRank (representative keys key)

variable {keys : Set (List Char)}

theorem representative_mem (hkey : key ∈ keys) :
    representative keys key ∈ keys ∧ Equivalent (representative keys key) key := by
  have hexists : ∃ a ∈ keys, nfc a = nfc key := ⟨key, hkey, rfl⟩
  exact ⟨Function.invFunOn_mem hexists, Function.invFunOn_eq hexists⟩

theorem sharedRank_eq_of_equivalent {a b : List Char} (h : Equivalent a b) :
    sharedRank keys a = sharedRank keys b := by
  rw [sharedRank, sharedRank, representative, representative, h]

theorem compareKey_swap {a b : List Char} (h : FUtilities.compareKey a b = .ok ordering) :
    FUtilities.compareKey b a = .ok ordering.swap := by
  by_cases hequivalent : Equivalent a b
  · have heq : FUtilities.compareKey a b = .ok .eq := if_pos hequivalent
    rw [heq] at h
    cases h
    exact if_pos hequivalent.symm
  · have hreadable : FUtilities.Readable a b := by
      by_contra hnot
      rw [FUtilities.compareKey_of_not_readable hequivalent hnot] at h
      cases h
    have hreadable' : FUtilities.Readable b a := hreadable.imp Or.symm And.symm
    rw [FUtilities.compareKey_of_readable hequivalent hreadable, Except.ok.injEq] at h
    rw [FUtilities.compareKey_of_readable (fun h => hequivalent h.symm) hreadable', ← h]
    exact congrArg Except.ok Std.OrientedCmp.eq_swap

/-- Where two keys are compared with a result, it goes by their ranks, if they are not equivalent. -/
theorem compareKey_eq_compare {a b : List Char} (hequivalent : ¬Equivalent a b)
    (h : FUtilities.compareKey a b = .ok ordering) :
    ordering = Ord.compare (FUtilities.keyRank a) (FUtilities.keyRank b) := by
  have hreadable : FUtilities.Readable a b := by
    by_contra hnot
    rw [FUtilities.compareKey_of_not_readable hequivalent hnot] at h
    cases h
  rw [FUtilities.compareKey_of_readable hequivalent hreadable, Except.ok.injEq] at h
  exact h.symm

/-- On consistent keys the comparison goes by the shared ranks, and they are equal for equivalent keys only. -/
theorem compareKey_sharedRank (h : ConsistentOn keys) {a b : List Char} (ha : a ∈ keys) (hb : b ∈ keys) :
    FUtilities.compareKey a b = .ok (Ord.compare (sharedRank keys a) (sharedRank keys b)) ∧
      (sharedRank keys a = sharedRank keys b ↔ Equivalent a b) := by
  by_cases hequivalent : Equivalent a b
  · have hrank : sharedRank keys a = sharedRank keys b := sharedRank_eq_of_equivalent hequivalent
    refine ⟨?_, iff_of_true hrank hequivalent⟩
    rw [hrank, compare_eq_iff_eq.mpr rfl]
    exact if_pos hequivalent
  · obtain ⟨hrepA, hequivalentA⟩ := representative_mem ha
    obtain ⟨hrepB, hequivalentB⟩ := representative_mem hb
    have hdistinct : ¬Equivalent (representative keys a) (representative keys b) := fun hsame =>
      hequivalent (hequivalentA.symm.trans (hsame.trans hequivalentB))
    have hrepresentatives : FUtilities.compareKey (representative keys a) (representative keys b) =
        FUtilities.compareKey a b := by
      have hswap : ∀ x ∈ keys, ∀ y ∈ keys, ∀ z ∈ keys, Equivalent y z →
          FUtilities.compareKey x y = FUtilities.compareKey x z := by
        intro x hx y hy z hz hyz
        by_cases hxy : Equivalent x y
        · have hy : FUtilities.compareKey x y = .ok .eq := if_pos hxy
          have hz : FUtilities.compareKey x z = .ok .eq := if_pos (hxy.trans hyz)
          rw [hy, hz]
        · have hzx := h.alike y hy z hz x hx hyz
          rcases h.compared x hx y hy hxy with hlt | hgt
          · rw [compareKey_swap hlt] at hzx
            rw [hlt, compareKey_swap hzx.symm]
            rfl
          · rw [compareKey_swap hgt] at hzx
            rw [hgt, compareKey_swap hzx.symm]
            rfl
      rw [h.alike _ hrepA _ ha _ hrepB hequivalentA, hswap a ha _ hrepB b hb hequivalentB]
    rcases h.compared _ hrepA _ hrepB hdistinct with hlt | hgt
    · have hrank := compareKey_eq_compare hdistinct hlt
      rw [hrepresentatives] at hlt
      have hless : sharedRank keys a < sharedRank keys b := compare_lt_iff_lt.mp hrank.symm
      exact ⟨hlt.trans (congrArg Except.ok hrank), iff_of_false hless.ne hequivalent⟩
    · have hrank := compareKey_eq_compare hdistinct hgt
      rw [hrepresentatives] at hgt
      have hgreater : sharedRank keys b < sharedRank keys a := compare_gt_iff_gt.mp hrank.symm
      exact ⟨hgt.trans (congrArg Except.ok hrank), iff_of_false hgreater.ne' hequivalent⟩

/-! ### Ranks of paths -/

noncomputable def rankPath (keys : Set (List Char)) (path : StringPath) : List FUtilities.KeyRank :=
  path.map (sharedRank keys)

def InKeys (keys : Set (List Char)) (path : StringPath) : Prop := ∀ key ∈ path, key ∈ keys

theorem contains_iff_rankPath (h : ConsistentOn keys) {path other : StringPath} (hpath : InKeys keys path)
    (hother : InKeys keys other) : contains path other = true ↔ rankPath keys path <+: rankPath keys other := by
  induction path generalizing other with
  | nil =>
      have hlength : decide (([] : StringPath).length ≤ other.length) = true := decide_eq_true (Nat.zero_le _)
      refine iff_of_true ?_ List.nil_prefix
      rw [contains, hlength]
      rfl
  | cons a path ih =>
      cases other with
      | nil => exact iff_of_false nofun fun hprefixed => List.cons_ne_nil _ _ (List.prefix_nil.mp hprefixed)
      | cons b other =>
          obtain ⟨ha, hpath⟩ := List.forall_mem_cons.mp hpath
          obtain ⟨hb, hother⟩ := List.forall_mem_cons.mp hother
          have hcons : contains (a :: path) (b :: other) = true ↔
              Equivalent a b ∧ contains path other = true := by
            unfold contains
            simp only [List.length_cons, Nat.add_le_add_iff_right, List.zip_cons_cons, List.all_cons,
              Bool.and_eq_true, decide_eq_true_eq]
            tauto
          have hranks : ∀ c rest, rankPath keys (c :: rest) = sharedRank keys c :: rankPath keys rest :=
            fun _ _ => rfl
          rw [hcons, ih hpath hother, hranks, hranks, List.cons_prefix_cons, (compareKey_sharedRank h ha hb).2]

/-- What the loop over pairs finds. -/
inductive Difference (ranks ranks' : List FUtilities.KeyRank) : Option Ordering → Prop where
  | same (h : ranks <+: ranks' ∨ ranks' <+: ranks) : Difference ranks ranks' none
  | less (h : ranks < ranks') : Difference ranks ranks' (some .lt)
  | greater (h : ranks' < ranks) : Difference ranks ranks' (some .gt)

theorem firstDifference_eq (h : ConsistentOn keys) {path other : StringPath} (hpath : InKeys keys path)
    (hother : InKeys keys other) : ∃ difference, firstDifference (path.zip other) = .ok difference ∧
      Difference (rankPath keys path) (rankPath keys other) difference := by
  induction path generalizing other with
  | nil => exact ⟨none, rfl, .same (Or.inl List.nil_prefix)⟩
  | cons a path ih =>
      cases other with
      | nil => exact ⟨none, rfl, .same (Or.inr List.nil_prefix)⟩
      | cons b other =>
          obtain ⟨ha, hpath⟩ := List.forall_mem_cons.mp hpath
          obtain ⟨hb, hother⟩ := List.forall_mem_cons.mp hother
          have hcompare := (compareKey_sharedRank h ha hb).1
          have hranks : ∀ c rest, rankPath keys (c :: rest) = sharedRank keys c :: rankPath keys rest :=
            fun _ _ => rfl
          rw [List.zip_cons_cons, firstDifference, hcompare, hranks, hranks]
          rcases lt_trichotomy (sharedRank keys a) (sharedRank keys b) with hlt | heq | hgt
          · rw [compare_lt_iff_lt.mpr hlt]
            exact ⟨_, rfl, .less (List.cons_lt_cons_iff.mpr (Or.inl hlt))⟩
          · rw [compare_eq_iff_eq.mpr heq, heq]
            obtain ⟨difference, hdifference, hcases⟩ := ih hpath hother
            refine ⟨difference, hdifference, ?_⟩
            cases hcases with
            | same hsame =>
                exact .same (hsame.imp (fun h => List.cons_prefix_cons.mpr ⟨rfl, h⟩)
                  fun h => List.cons_prefix_cons.mpr ⟨rfl, h⟩)
            | less hless => exact .less (List.cons_lt_cons_iff.mpr (Or.inr ⟨rfl, hless⟩))
            | greater hgreater => exact .greater (List.cons_lt_cons_iff.mpr (Or.inr ⟨rfl, hgreater⟩))
          · rw [compare_gt_iff_gt.mpr hgt]
            exact ⟨_, rfl, .greater (List.cons_lt_cons_iff.mpr (Or.inl hgt))⟩

theorem precedes_rankPath (h : ConsistentOn keys) {path other : StringPath} (hpath : InKeys keys path)
    (hother : InKeys keys other) : ∃ result, precedes path other = .ok result ∧
      (result = true ↔ rankPath keys path < rankPath keys other) := by
  obtain ⟨difference, hdifference, hcases⟩ := firstDifference_eq h hpath hother
  have hlength : (rankPath keys path).length = path.length := List.length_map _
  have hlength' : (rankPath keys other).length = other.length := List.length_map _
  rw [precedes, UpdatePaths.compare, hdifference]
  cases hcases with
  | same hsame =>
      have hless : path.length < other.length ↔ rankPath keys path < rankPath keys other := by
        rcases hsame with hfront | hback
        · rw [(le_of_isPrefix hfront).lt_iff_ne, ← hlength, ← hlength']
          constructor
          · exact fun hlt heq => absurd (congrArg List.length heq) hlt.ne
          · exact fun hne => lt_of_le_of_ne hfront.length_le fun heq => hne (hfront.eq_of_length heq)
        · have hle := hback.length_le
          rw [hlength, hlength'] at hle
          exact iff_of_false (Nat.not_lt.mpr hle) (not_lt.mpr (le_of_isPrefix hback))
      rw [← hless]
      by_cases hshort : path.length < other.length
      · refine ⟨true, ?_, iff_of_true rfl hshort⟩
        show ((if path.length < other.length then Except.ok Ordering.lt else _) >>= _) = _
        rw [if_pos hshort]
        rfl
      · refine ⟨false, ?_, iff_of_false Bool.false_ne_true hshort⟩
        show ((if path.length < other.length then Except.ok Ordering.lt else
          if other.length < path.length then .ok .gt else .ok .eq) >>= _) = _
        rw [if_neg hshort]
        split_ifs <;> rfl
  | less hless => exact ⟨true, rfl, iff_of_true rfl hless⟩
  | greater hgreater => exact ⟨false, rfl, iff_of_false Bool.false_ne_true hgreater.asymm⟩

/-! ### The check -/

variable {values : List (List Char × Value)}

theorem foldlM_addEntry (hvalid : ∀ entry ∈ values, ValidEntry builder entry) (paths : List StringPath)
    (write : Write) : ∃ result, values.foldlM (addEntry builder) (paths, write) =
      .ok (paths ++ values.map fun entry => pathWith entry.1, result) := by
  induction values generalizing paths write with
  | nil =>
      refine ⟨write, ?_⟩
      rw [List.map_nil, List.append_nil]
      rfl
  | cons entry rest ih =>
      obtain ⟨⟨hkey, hnode⟩, hrest⟩ := List.forall_mem_cons.mp hvalid
      obtain ⟨node, hnode⟩ := Option.isSome_iff_exists.mp hnode
      have hentry : addEntry builder (paths, write) entry =
          .ok (paths ++ [pathWith entry.1], builder.addWrite write node (pathWith entry.1)) := by
        simp only [addEntry, hkey, hnode]
        rfl
      obtain ⟨result, hresult⟩ := ih hrest (paths ++ [pathWith entry.1])
        (builder.addWrite write node (pathWith entry.1))
      refine ⟨result, ?_⟩
      rw [List.foldlM_cons, hentry, List.map_cons]
      rw [List.append_assoc, List.singleton_append] at hresult
      exact hresult

/-- The outcome for valid entries: the paths are sorted, and then the loop decides. -/
theorem compoundWriteFromDictionary_eq (hvalid : ∀ entry ∈ values, ValidEntry builder entry) :
    ∃ write, compoundWriteFromDictionary builder values =
      ((sortBy precedes (values.map fun entry => pathWith entry.1)).mapError .trap >>= fun sorted =>
        checkPaths none sorted >>= fun _ => .ok write) := by
  obtain ⟨write, hloop⟩ := foldlM_addEntry builder hvalid [] builder.emptyWrite
  refine ⟨write, ?_⟩
  rw [compoundWriteFromDictionary, hloop, List.nil_append]
  rfl

theorem checkPaths_cases (prev : Option StringPath) (paths : List StringPath) : checkPaths prev paths = .ok () ∧
      (prev.toList ++ paths).IsChain (fun path other => ¬contains path other = true) ∨
    (∃ front path, checkPaths prev paths = .error (.ancestor front path)) ∧
      ¬(prev.toList ++ paths).IsChain (fun path other => ¬contains path other = true) := by
  induction paths generalizing prev with
  | nil =>
      left
      refine ⟨by cases prev <;> rfl, ?_⟩
      cases prev with
      | none => exact List.IsChain.nil
      | some prev => exact List.IsChain.singleton _
  | cons path rest ih =>
      cases prev with
      | none => exact ih (some path)
      | some prev =>
          have hchain : ((some prev).toList ++ path :: rest).IsChain
                (fun path other => ¬contains path other = true) ↔
              ¬contains prev path = true ∧
                ((some path).toList ++ rest).IsChain (fun path other => ¬contains path other = true) :=
            List.isChain_cons_cons
          rw [hchain, checkPaths]
          by_cases hcontains : contains prev path = true
          · rw [if_pos hcontains]
            exact Or.inr ⟨⟨prev, path, rfl⟩, fun h => h.1 hcontains⟩
          · rw [if_neg hcontains]
            rcases ih (some path) with ⟨hok, hrest⟩ | ⟨herror, hrest⟩
            · exact Or.inl ⟨hok, hcontains, hrest⟩
            · exact Or.inr ⟨herror, fun h => hrest h.2⟩

theorem decides_of_consistentOn (h : ConsistentOn keys) (hupdate : IsUpdate builder keys values) :
    Decides builder values := by
  obtain ⟨write, houtcome⟩ := compoundWriteFromDictionary_eq builder hupdate.valid
  have hpaths : ∀ path ∈ values.map fun entry => pathWith entry.1, InKeys keys path := by
    intro path hpath
    obtain ⟨entry, hentry, rfl⟩ := List.mem_map.mp hpath
    exact hupdate.mem entry hentry
  have hprecedes : ∀ path ∈ values.map fun entry => pathWith entry.1,
      ∀ other ∈ values.map fun entry => pathWith entry.1,
        ∃ result, precedes path other = .ok result ∧
          (result = true ↔ rankPath keys path < rankPath keys other) :=
    fun path hpath other hother => precedes_rankPath h (hpaths path hpath) (hpaths other hother)
  obtain ⟨sorted, hsort, hperm, hsorted⟩ := sortBy_sorted hprecedes
  have hmem : ∀ path ∈ sorted, InKeys keys path := fun path hpath => hpaths path (hperm.mem_iff.mp hpath)
  -- neighbours in the order of ranks decide about all pairs
  have hranks : (sorted.map (rankPath keys)).Pairwise (· ≤ ·) := List.pairwise_map.mpr hsorted
  have hneighbours : sorted.IsChain (fun path other => ¬contains path other = true) ↔
      ¬Overlaps (values.map fun entry => pathWith entry.1) := by
    have hsymm : ∀ {path other : StringPath}, (¬contains path other = true ∧ ¬contains other path = true) →
        ¬contains other path = true ∧ ¬contains path other = true := And.symm
    have hall := isChain_iff_pairwise hranks
    rw [List.isChain_map, List.pairwise_map] at hall
    rw [overlaps_iff, not_not, ← hperm.pairwise_iff hsymm]
    refine (List.IsChain.iff_of_mem_imp fun path other hpath hother => ?_).trans
      (hall.trans (List.Pairwise.iff_of_mem fun hpath hother => ?_))
    · rw [contains_iff_rankPath h (hmem _ hpath) (hmem _ hother)]
    · rw [contains_iff_rankPath h (hmem _ hpath) (hmem _ hother),
        contains_iff_rankPath h (hmem _ hother) (hmem _ hpath)]
  rw [Decides, houtcome, hsort]
  rcases checkPaths_cases none sorted with ⟨hok, hchain⟩ | ⟨⟨prev, path, herror⟩, hchain⟩
  · refine ⟨fun hoverlaps => absurd hoverlaps (hneighbours.mp hchain), fun _ => ⟨write, ?_⟩⟩
    show (checkPaths none sorted >>= fun _ => Except.ok write) = _
    rw [hok]
    rfl
  · refine ⟨fun _ => ⟨prev, path, ?_⟩, fun hnone => absurd (hneighbours.mpr hnone) hchain⟩
    show (checkPaths none sorted >>= fun _ => Except.ok write) = _
    rw [herror]
    rfl

/-! ### Keys that are not consistent -/

theorem precedes_singleton {a b : List Char} (h : FUtilities.compareKey a b = .ok ordering) :
    precedes [a] [b] = .ok (decide (ordering = .lt)) := by
  have hzip : ([a] : StringPath).zip [b] = [(a, b)] := rfl
  rw [precedes, UpdatePaths.compare, hzip, firstDifference, h]
  cases ordering <;> rfl

theorem precedes_pair {a b c : List Char} (h : FUtilities.compareKey a c = .ok .eq) :
    precedes [a, b] [c] = .ok false := by
  have hzip : ([a, b] : StringPath).zip [c] = [(a, c)] := rfl
  rw [precedes, UpdatePaths.compare, hzip, firstDifference, h]
  rfl

theorem contains_singleton_iff {a b : List Char} {rest : StringPath} :
    contains [a] (b :: rest) = true ↔ Equivalent a b := by
  have hlength : decide (([a] : StringPath).length ≤ (b :: rest).length) = true :=
    decide_eq_true (Nat.succ_le_succ (Nat.zero_le _))
  rw [contains, hlength, Bool.true_and, List.zip_cons_cons, List.zip_nil_left, List.all_cons,
    List.all_nil, Bool.and_true, decide_eq_true_eq]

/-- An overlap that the sort and the loop over neighbours miss. -/
theorem not_decides_of_missed (hvalid : ∀ entry ∈ values, ValidEntry builder entry)
    (hpaths : values.map (fun entry => pathWith entry.1) = paths)
    (hsort : paths.IsChain fun path other => precedes other path = .ok false)
    (hcheck : paths.IsChain fun path other => ¬contains path other = true) (hoverlaps : Overlaps paths) :
    ¬Decides builder values := by
  intro hdecides
  obtain ⟨write, houtcome⟩ := compoundWriteFromDictionary_eq builder hvalid
  rw [Decides, houtcome, hpaths, sortBy_of_isChain hsort] at hdecides
  obtain ⟨prev, path, herror⟩ := hdecides.1 hoverlaps
  rcases checkPaths_cases none paths with ⟨hok, -⟩ | ⟨-, hchain⟩
  · have hresult : (checkPaths none paths >>= fun _ => Except.ok write) = .error (.ancestor prev path) := herror
    rw [hok] at hresult
    cases hresult
  · exact hchain hcheck

theorem validateComponents_last {value : Value} (hvalue : builder.isValidPriorityValue value = true)
    (hkey : IsUpdateKey key) (keyNum : Nat) :
    validateComponents builder value (keyNum + 1) [key] keyNum = .ok () := by
  rw [validateComponents]
  by_cases hpriority : Equivalent key kPayloadPriority
  · rw [if_pos ⟨hpriority, rfl⟩, if_pos hvalue]
    rfl
  · have hkeyValid : isValidKey key = true := hkey.resolve_right fun heq => hpriority (heq ▸ Equivalent.refl _)
    rw [if_neg fun h => hpriority h.1, if_pos hkeyValid]
    rfl

section Entries

variable {builder} {value : Value} (hvalue : builder.isValidPriorityValue value = true)
  (hnode : (builder.nodeFrom value).isSome = true)

include hvalue hnode

theorem validEntry_of_path {keyId key : List Char} (hkey : IsUpdateKey key) (hpath : pathWith keyId = [key]) :
    ValidEntry builder (keyId, value) := by
  refine ⟨?_, hnode⟩
  rw [validUpdateDictionaryKey, hpath, List.length_singleton, validateComponents_last builder hvalue hkey 0]
  rfl

theorem validEntry_keyBelow {a b : List Char} (ha : isValidKey a = true) (hb : IsUpdateKey b) :
    ValidEntry builder (keyBelow a b, value) := by
  refine ⟨?_, hnode⟩
  have hlength : ¬(Equivalent a kPayloadPriority ∧ 0 + 1 = ([a, b] : StringPath).length) :=
    fun h => absurd h.2 (by decide : ¬(0 + 1 = 2))
  rw [validUpdateDictionaryKey, pathWith_keyBelow (Or.inl ha) hb, validateComponents, if_neg hlength, if_pos ha]
  show (validateComponents builder value (1 + 1) [b] 1 >>= fun _ => Except.ok (keyBelow a b)) = _
  rw [validateComponents_last builder hvalue hb 1]
  rfl

variable (hdecides : ∀ values, IsUpdate builder keys values → Decides builder values)
  (hkeys : ∀ key ∈ keys, IsUpdateKey key)

include hdecides hkeys

/-- A trap stops an update of two keys. -/
theorem compareKey_ne_error {a b : List Char} (ha : a ∈ keys) (hb : b ∈ keys) (hdistinct : ¬Equivalent a b)
    (trap : Trap) : FUtilities.compareKey a b ≠ .error trap := by
  intro htrap
  have hpathA := pathWith_key (hkeys a ha)
  have hpathB := pathWith_key (hkeys b hb)
  have hne : b ≠ a := fun heq => hdistinct (heq ▸ Equivalent.refl _)
  have hupdate : IsUpdate builder keys [(b, value), (a, value)] := by
    refine ⟨?_, ?_, ?_⟩
    · simp [hne]
    · intro entry hentry
      rcases List.mem_pair.mp hentry with rfl | rfl
      · exact validEntry_of_path hvalue hnode (hkeys b hb) hpathB
      · exact validEntry_of_path hvalue hnode (hkeys a ha) hpathA
    · intro entry hentry key hkey
      rcases List.mem_pair.mp hentry with rfl | rfl
      · rw [hpathB, List.mem_singleton] at hkey
        exact hkey ▸ hb
      · rw [hpathA, List.mem_singleton] at hkey
        exact hkey ▸ ha
  have hpaths : ([(b, value), (a, value)].map fun entry => pathWith entry.1) = [[b], [a]] := by
    rw [List.map_cons, List.map_singleton, hpathA, hpathB]
  have hnone : ¬Overlaps ([(b, value), (a, value)].map fun entry => pathWith entry.1) := by
    rw [hpaths, overlaps_iff, not_not]
    refine List.pairwise_cons.mpr ⟨fun path hpath => ?_, List.pairwise_singleton _ _⟩
    rw [List.mem_singleton.mp hpath, contains_singleton_iff, contains_singleton_iff]
    exact ⟨fun h => hdistinct h.symm, hdistinct⟩
  obtain ⟨write, hok⟩ := (hdecides _ hupdate).2 hnone
  obtain ⟨write', houtcome⟩ := compoundWriteFromDictionary_eq builder hupdate.valid
  have hprecedes : precedes [a] [b] = .error trap := by
    have hzip : ([a] : StringPath).zip [b] = [(a, b)] := rfl
    rw [precedes, UpdatePaths.compare, hzip, firstDifference, htrap]
    rfl
  rw [houtcome, hpaths, sortBy_pair_of_error hprecedes] at hok
  cases hok

/-- Keys that are equal to the comparison hide an ancestor. -/
theorem compareKey_ne_eq {a b : List Char} (ha : a ∈ keys) (hb : b ∈ keys) (hvalid : isValidKey a = true)
    (hdistinct : ¬Equivalent a b) : FUtilities.compareKey a b ≠ .ok .eq := by
  intro heq
  have hkeyB := hkeys b hb
  have hpathA := pathWith_key (hkeys a ha)
  have hpathB := pathWith_key hkeyB
  have hpathBelow := pathWith_keyBelow (Or.inl hvalid) hkeyB
  have hslash := slash_mem_keyBelow a b
  have hpaths : ([(a, value), (b, value), (keyBelow a b, value)].map fun entry => pathWith entry.1) =
      [[a], [b], [a, b]] := by
    rw [List.map_cons, List.map_cons, List.map_singleton, hpathA, hpathB, hpathBelow]
  have hupdate : IsUpdate builder keys [(a, value), (b, value), (keyBelow a b, value)] := by
    refine ⟨?_, ?_, ?_⟩
    · have hneA : a ≠ b := fun h => hdistinct (h ▸ Equivalent.refl _)
      have hbelowA : a ≠ keyBelow a b := fun h => (hkeys a ha).spec.1 (h ▸ hslash)
      have hbelowB : b ≠ keyBelow a b := fun h => hkeyB.spec.1 (h ▸ hslash)
      simp [hneA, hbelowA, hbelowB]
    · intro entry hentry
      simp only [List.mem_cons, List.not_mem_nil, or_false] at hentry
      rcases hentry with rfl | rfl | rfl
      · exact validEntry_of_path hvalue hnode (hkeys a ha) hpathA
      · exact validEntry_of_path hvalue hnode hkeyB hpathB
      · exact validEntry_keyBelow hvalue hnode hvalid hkeyB
    · intro entry hentry key hkey
      have hpieces : key = a ∨ key = b := by
        simp only [List.mem_cons, List.not_mem_nil, or_false] at hentry
        rcases hentry with rfl | rfl | rfl
        · rw [hpathA, List.mem_singleton] at hkey
          exact Or.inl hkey
        · rw [hpathB, List.mem_singleton] at hkey
          exact Or.inr hkey
        · rw [hpathBelow] at hkey
          exact List.mem_pair.mp hkey
      rcases hpieces with rfl | rfl
      · exact ha
      · exact hb
  refine not_decides_of_missed builder hupdate.valid hpaths ?_ ?_ ⟨0, 2, (by decide : (0 : Fin 3) ≠ 2), ?_⟩
    (hdecides _ hupdate)
  · refine .cons_cons ?_ (.cons_cons ?_ (.singleton _))
    · exact precedes_singleton (compareKey_swap heq)
    · exact precedes_pair heq
  · refine .cons_cons ?_ (.cons_cons ?_ (.singleton _))
    · rw [contains_singleton_iff]
      exact hdistinct
    · rw [contains_singleton_iff]
      exact fun h => hdistinct h.symm
  · exact contains_singleton_iff.mpr (Equivalent.refl a)

/-- A key between two equivalent keys hides one from the other. -/
theorem not_between {a b c : List Char} (ha : a ∈ keys) (hb : b ∈ keys) (hc : c ∈ keys)
    (hequivalent : Equivalent a b) (hdistinct : ¬Equivalent a c) (hlt : FUtilities.compareKey a c = .ok .lt) :
    FUtilities.compareKey b c ≠ .ok .gt := by
  intro hgt
  have hpathA := pathWith_key (hkeys a ha)
  have hpathC := pathWith_key (hkeys c hc)
  have hpathB := pathWith_rootedKey (hkeys b hb)
  have hslash := slash_mem_rootedKey b
  have hpaths : ([(a, value), (c, value), (rootedKey b, value)].map fun entry => pathWith entry.1) =
      [[a], [c], [b]] := by
    rw [List.map_cons, List.map_cons, List.map_singleton, hpathA, hpathB, hpathC]
  have hupdate : IsUpdate builder keys [(a, value), (c, value), (rootedKey b, value)] := by
    refine ⟨?_, ?_, ?_⟩
    · have hneA : a ≠ c := fun h => hdistinct (h ▸ Equivalent.refl _)
      have hrootedA : a ≠ rootedKey b := fun h => (hkeys a ha).spec.1 (h ▸ hslash)
      have hrootedC : c ≠ rootedKey b := fun h => (hkeys c hc).spec.1 (h ▸ hslash)
      simp [hneA, hrootedA, hrootedC]
    · intro entry hentry
      simp only [List.mem_cons, List.not_mem_nil, or_false] at hentry
      rcases hentry with rfl | rfl | rfl
      · exact validEntry_of_path hvalue hnode (hkeys a ha) hpathA
      · exact validEntry_of_path hvalue hnode (hkeys c hc) hpathC
      · exact validEntry_of_path hvalue hnode (hkeys b hb) hpathB
    · intro entry hentry key hkey
      simp only [List.mem_cons, List.not_mem_nil, or_false] at hentry
      rcases hentry with rfl | rfl | rfl
      · rw [hpathA, List.mem_singleton] at hkey
        exact hkey ▸ ha
      · rw [hpathC, List.mem_singleton] at hkey
        exact hkey ▸ hc
      · rw [hpathB, List.mem_singleton] at hkey
        exact hkey ▸ hb
  refine not_decides_of_missed builder hupdate.valid hpaths ?_ ?_ ⟨0, 2, (by decide : (0 : Fin 3) ≠ 2), ?_⟩
    (hdecides _ hupdate)
  · refine .cons_cons ?_ (.cons_cons ?_ (.singleton _))
    · exact precedes_singleton (compareKey_swap hlt)
    · exact precedes_singleton hgt
  · refine .cons_cons ?_ (.cons_cons ?_ (.singleton _))
    · rw [contains_singleton_iff]
      exact hdistinct
    · rw [contains_singleton_iff]
      exact fun h => hdistinct (hequivalent.trans h.symm)
  · exact contains_singleton_iff.mpr hequivalent

theorem consistentOn_of_decides : ConsistentOn keys := by
  have hcompared : ∀ a ∈ keys, ∀ b ∈ keys, ¬Equivalent a b →
      FUtilities.compareKey a b = .ok .lt ∨ FUtilities.compareKey a b = .ok .gt := by
    intro a ha b hb hdistinct
    cases hcompare : FUtilities.compareKey a b with
    | error trap => exact absurd hcompare (compareKey_ne_error hvalue hnode hdecides hkeys ha hb hdistinct trap)
    | ok ordering =>
        cases ordering with
        | lt => exact Or.inl rfl
        | gt => exact Or.inr rfl
        | eq =>
            exfalso
            rcases hkeys a ha with hvalid | rfl
            · exact compareKey_ne_eq hvalue hnode hdecides hkeys ha hb hvalid hdistinct hcompare
            · rcases hkeys b hb with hvalid | rfl
              · exact compareKey_ne_eq hvalue hnode hdecides hkeys hb ha hvalid (fun h => hdistinct h.symm)
                  (compareKey_swap hcompare)
              · exact hdistinct (Equivalent.refl _)
  refine ⟨hcompared, fun a ha b hb c hc hequivalent => ?_⟩
  by_cases hsame : Equivalent a c
  · have heqA : FUtilities.compareKey a c = .ok .eq := if_pos hsame
    have heqB : FUtilities.compareKey b c = .ok .eq := if_pos (hequivalent.symm.trans hsame)
    rw [heqA, heqB]
  · have hsame' : ¬Equivalent b c := fun h => hsame (hequivalent.trans h)
    rcases hcompared a ha c hc hsame with hltA | hgtA
    · rcases hcompared b hb c hc hsame' with hltB | hgtB
      · rw [hltA, hltB]
      · exact absurd hgtB (not_between hvalue hnode hdecides hkeys ha hb hc hequivalent hsame hltA)
    · rcases hcompared b hb c hc hsame' with hltB | hgtB
      · exact absurd hgtA (not_between hvalue hnode hdecides hkeys hb ha hc hequivalent.symm hsame' hltB)
      · rw [hgtA, hgtB]

end Entries

/-- The updates with keys of a set are all decided exactly if the keys are consistent. -/
theorem decides_iff_consistentOn
    (hvalue : ∃ value, builder.isValidPriorityValue value = true ∧ (builder.nodeFrom value).isSome = true)
    (hkeys : ∀ key ∈ keys, IsUpdateKey key) :
    (∀ values, IsUpdate builder keys values → Decides builder values) ↔ ConsistentOn keys := by
  constructor
  · intro hdecides
    obtain ⟨value, hvalue, hnode⟩ := hvalue
    exact consistentOn_of_decides hvalue hnode hdecides hkeys
  · exact fun h values hupdate => decides_of_consistentOn builder h hupdate

end Checks

/-- The paths of an update, which has no values. -/
def pathsOnly : WriteBuilder Unit Unit (List StringPath) where
  isValidPriorityValue _ := true
  nodeFrom := some
  emptyWrite := []
  addWrite write _ path := write ++ [path]

theorem decides_iff_consistentOn_letters :
    (∀ values, @IsUpdate marksOnly _ _ _ pathsOnly {['a'], ['b']} values →
      @Decides marksOnly _ _ _ pathsOnly values) ↔ @ConsistentOn marksOnly {['a'], ['b']} :=
  @decides_iff_consistentOn marksOnly _ _ _ pathsOnly _ ⟨(), rfl, rfl⟩ fun key hkey => by
    rcases hkey with rfl | rfl
    · exact Or.inl (by decide)
    · exact Or.inl (by decide)

def zeros : List (List Char × Unit) := [("-0".toList, ()), ("00".toList, ()), ("-0/a".toList, ())]

/-- The other zero is sorted between a path and one below it, and the update is accepted. -/
theorem ancestor_missed : @IsUpdate marksOnly _ _ _ pathsOnly Set.univ zeros ∧
    ¬@Decides marksOnly _ _ _ pathsOnly zeros := by
  let _ := marksOnly
  have hvalid : ∀ entry ∈ zeros, ValidEntry pathsOnly entry := by
    intro entry hentry
    simp only [zeros, List.mem_cons, List.not_mem_nil, or_false] at hentry
    rcases hentry with rfl | rfl | rfl <;> exact ⟨rfl, rfl⟩
  refine ⟨⟨by decide, hvalid, fun _ _ _ _ => Set.mem_univ _⟩, ?_⟩
  have hpaths : (zeros.map fun entry => pathWith entry.1) =
      [["-0".toList], ["00".toList], ["-0".toList, "a".toList]] := rfl
  refine not_decides_of_missed pathsOnly hvalid hpaths ?_ ?_ ⟨0, 2, (by decide : (0 : Fin 3) ≠ 2), rfl⟩
  · exact .cons_cons rfl (.cons_cons rfl (.singleton _))
  · exact .cons_cons (by decide) (.cons_cons (by decide) (.singleton _))

end UpdatePaths

end FirebaseSwift.Database
