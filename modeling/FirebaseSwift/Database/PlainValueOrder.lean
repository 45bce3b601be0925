import FirebaseSwift.Database.PlainReading

/-! Plain values whose dictionaries have the same entries. The entries of a dictionary come in any order, and
another one after it was stored. What is read does not depend on it. -/

namespace FirebaseSwift.Database

open SortedDictionary FValidation FSnapshotUtilities

/-! ### Values that differ in the order of entries -/

/-- The values differ at most in the order of the entries of their dictionaries. -/
inductive SameValue {K D : Type} [DecidableEq K] : PlainValue K D → PlainValue K D → Prop
  | refl (value : PlainValue K D) : SameValue value value
  | dictionary {entries entries' : List (K × PlainValue K D)} (hnodup : (entries.map Prod.fst).Nodup)
      (hnodup' : (entries'.map Prod.fst).Nodup)
      (hkeys : ∀ key, key ∈ entries.map Prod.fst ↔ key ∈ entries'.map Prod.fst)
      (hvalues : ∀ key value value', get key entries = some value → get key entries' = some value' →
        SameValue value value') :
      SameValue (.dictionary entries) (.dictionary entries')
  | array {values values' : List (PlainValue K D)} (hlength : values.length = values'.length)
      (hvalues : ∀ (i : Nat) value value', values[i]? = some value → values'[i]? = some value' →
        SameValue value value') :
      SameValue (.array values) (.array values')

/-- The dictionaries have the same keys, and at each of them values that are the same up to order. -/
structure SameEntries {L K D : Type} [DecidableEq L] [DecidableEq K] (entries entries' : List (L × PlainValue K D)) :
    Prop where
  nodup : (entries.map Prod.fst).Nodup
  nodup' : (entries'.map Prod.fst).Nodup
  keys : ∀ key, key ∈ entries.map Prod.fst ↔ key ∈ entries'.map Prod.fst
  values : ∀ key value value', get key entries = some value → get key entries' = some value' → SameValue value value'

namespace SameEntries

variable {L K D : Type} [DecidableEq L] [DecidableEq K] {entries entries' : List (L × PlainValue K D)}

theorem length_eq (h : SameEntries entries entries') : entries.length = entries'.length := by
  have hperm : (entries.map Prod.fst).Perm (entries'.map Prod.fst) :=
    (List.perm_ext_iff_of_nodup h.nodup h.nodup').mpr h.keys
  calc entries.length = (entries.map Prod.fst).length := (List.length_map _).symm
    _ = (entries'.map Prod.fst).length := hperm.length_eq
    _ = entries'.length := List.length_map _

/-- At a key there is nothing in both, or the values are the same up to order. -/
theorem get_cases (h : SameEntries entries entries') (key : L) : (get key entries = none ∧ get key entries' = none) ∨
      ∃ value value', get key entries = some value ∧ get key entries' = some value' ∧ SameValue value value' := by
  have hkey := h.keys key
  rw [mem_keys_iff, mem_keys_iff, Option.ne_none_iff_exists', Option.ne_none_iff_exists'] at hkey
  cases hget : get key entries with
  | none =>
      refine Or.inl ⟨rfl, ?_⟩
      by_contra hget'
      obtain ⟨value, hvalue⟩ := hkey.mpr (Option.ne_none_iff_exists'.mp hget')
      rw [hget] at hvalue
      cases hvalue
  | some value =>
      obtain ⟨value', hget'⟩ := hkey.mp ⟨value, hget⟩
      exact Or.inr ⟨value, value', rfl, hget', h.values key value value' hget hget'⟩

theorem isSome_get_eq (h : SameEntries entries entries') (key : L) :
    (get key entries).isSome = (get key entries').isSome := by
  rcases h.get_cases key with ⟨hget, hget'⟩ | ⟨value, value', hget, hget', -⟩
  · rw [hget, hget']
  · rw [hget, hget']
    rfl

end SameEntries

variable {K D : Type} [StringKey K]

/-! ### Leaves and priorities -/

namespace SameValue

variable {value value' : PlainValue K D}

theorem isValidLeafValue_eq (h : SameValue value value') : isValidLeafValue value = isValidLeafValue value' := by
  cases h with
  | refl => rfl
  | dictionary hnodup hnodup' hkeys hvalues =>
      have hentries : SameEntries _ _ := ⟨hnodup, hnodup', hkeys, hvalues⟩
      rw [isValidLeafValue, isValidLeafValue, hentries.isSome_get_eq, hentries.length_eq]
  | array => rfl

theorem isValidPriorityValue_eq (h : SameValue value value') :
    isValidPriorityValue value = isValidPriorityValue value' := by
  cases h with
  | refl => rfl
  | dictionary hnodup hnodup' hkeys hvalues =>
      have hentries : SameEntries _ _ := ⟨hnodup, hnodup', hkeys, hvalues⟩
      rw [isValidPriorityValue, isValidPriorityValue, hentries.isSome_get_eq, hentries.length_eq]
  | array => rfl

variable [DoubleType D]

theorem serverValueOp_eq (h : SameValue value value') : serverValueOp value = serverValueOp value' := by
  cases h with
  | refl => rfl
  | dictionary hnodup hnodup' hkeys hvalues =>
      have hentries : SameEntries _ _ := ⟨hnodup, hnodup', hkeys, hvalues⟩
      rw [serverValueOp, serverValueOp]
      rcases hentries.get_cases incrementKey with ⟨hget, hget'⟩ | ⟨delta, delta', hget, hget', hdelta⟩
      · rw [hget, hget']
      · rw [hget, hget']
        cases hdelta <;> rfl
  | array => rfl

theorem leafValueFrom_eq (h : SameValue value value') : leafValueFrom value = leafValueFrom value' := by
  cases h with
  | refl => rfl
  | dictionary hnodup hnodup' hkeys hvalues =>
      have hentries : SameEntries _ _ := ⟨hnodup, hnodup', hkeys, hvalues⟩
      rw [leafValueFrom, leafValueFrom]
      rcases hentries.get_cases serverValueSubKey with ⟨hget, hget'⟩ | ⟨op, op', hget, hget', hop⟩
      · rw [hget, hget']
      · rw [hget, hget', Option.bind_some, Option.bind_some, hop.serverValueOp_eq]
  | array => rfl

theorem priorityFrom_eq (h : SameValue value value') : priorityFrom value = priorityFrom value' := by
  have hpriority := h.isValidPriorityValue_eq
  have hvalid := h.isValidLeafValue_eq
  have hleaf := h.leafValueFrom_eq
  cases h with
  | refl => rfl
  | dictionary hnodup hnodup' hkeys hvalues => simp only [priorityFrom, hpriority, hvalid, hleaf]
  | array hlength hvalues => simp only [priorityFrom, hpriority, hvalid, hleaf]

end SameValue

variable {children : List (K × FNode K (LeafValue D))} {depth : Nat} {node : FNode K (LeafValue D)}

theorem childrenNode_congr {children' : List (K × FNode K (LeafValue D))}
    (hnodup : (children.map Prod.fst).Nodup) (hnodup' : (children'.map Prod.fst).Nodup)
    (hkey : DatabaseKey.priority ∉ children.map Prod.fst) (hkey' : DatabaseKey.priority ∉ children'.map Prod.fst)
    (hget : ∀ key, (get key children).getD .empty = (get key children').getD .empty)
    (priority : FNode K (LeafValue D)) : childrenNode children priority = childrenNode children' priority := by
  obtain ⟨hleaf, hchild, hpriority⟩ := childrenNode_observations children hnodup hkey priority
  obtain ⟨hleaf', hchild', hpriority'⟩ := childrenNode_observations children' hnodup' hkey' priority
  have hsame : ∀ key, key ≠ DatabaseKey.priority →
      (childrenNode children priority).getImmediateChild key =
        (childrenNode children' priority).getImmediateChild key := fun key hne => by
    rw [hchild key hne, hchild' key hne, hget]
  have hempty : (childrenNode children priority).isEmpty = (childrenNode children' priority).isEmpty := by
    rw [Bool.eq_iff_iff, FNode.isEmpty_iff, FNode.isEmpty_iff]
    constructor
    · intro h
      refine FNode.eq_empty_of_observations hleaf' fun key hne => ?_
      rw [← hsame key hne, h, FNode.getImmediateChild_empty]
    · intro h
      refine FNode.eq_empty_of_observations hleaf fun key hne => ?_
      rw [hsame key hne, h, FNode.getImmediateChild_empty]
  refine FNode.eq_of_observations (hleaf.trans hleaf'.symm) ?_ hsame
  rw [hpriority, hpriority', hempty]

variable [DoubleType D]

theorem SameEntries.dictionaryPriority_eq {entries entries' : List (K × PlainValue K D)}
    (h : SameEntries entries entries') : dictionaryPriority entries = dictionaryPriority entries' := by
  rw [dictionaryPriority, dictionaryPriority]
  rcases h.get_cases DatabaseKey.priority with ⟨hget, hget'⟩ | ⟨value, value', hget, hget', hvalue⟩
  · rw [hget, hget']
  · rw [hget, hget']
    exact hvalue.priorityFrom_eq

/-! ### Children -/

/-- Children are read from the entries whose keys do not start with a dot, if all keys are fine. -/
theorem childrenFromDictionary_eq_childrenFrom (depth : Nat) (entries : List (K × PlainValue K D)) :
    childrenFromDictionary depth entries =
      if ∀ entry ∈ entries, isValidDictionaryKey entry.1 = true then
        childrenFrom depth (entries.filter fun entry => (text entry.1).head? ≠ some '.')
      else none := by
  induction entries with
  | nil => rfl
  | cons entry rest ih =>
      obtain ⟨key, value⟩ := entry
      rw [childrenFromDictionary, ih]
      simp only [List.forall_mem_cons]
      by_cases hkey : isValidDictionaryKey key = true
      · rw [hkey, if_neg (by decide)]
        simp only [true_and]
        by_cases hdot : (text key).head? = some '.'
        · rw [if_pos hdot, List.filter_cons_of_neg (by simp [hdot])]
        · rw [if_neg hdot, List.filter_cons_of_pos (by simp [hdot]), childrenFrom]
          split_ifs with hrest
          · cases nodeFrom (depth + 1) value with
            | none => rfl
            | some childNode =>
                cases childrenFrom depth (rest.filter fun entry => (text entry.1).head? ≠ some '.') <;> rfl
          · cases nodeFrom (depth + 1) value <;> rfl
      · have hinvalid : isValidDictionaryKey key = false := Bool.not_eq_true _ ▸ hkey
        rw [hinvalid, if_pos (by decide), if_neg (by simp)]

/-- The entries have the same keys, and what is read of one as a child is read of the other. -/
structure ReadsAlike (depth : Nat) (entries entries' : List (K × PlainValue K D)) : Prop where
  nodup : (entries.map Prod.fst).Nodup
  nodup' : (entries'.map Prod.fst).Nodup
  keys : ∀ key, key ∈ entries.map Prod.fst ↔ key ∈ entries'.map Prod.fst
  reads : ∀ key value value', get key entries = some value → get key entries' = some value' →
    ∀ node, nodeFrom (depth + 1) value = some node → nodeFrom (depth + 1) value' = some node

theorem ReadsAlike.filter {entries entries' : List (K × PlainValue K D)}
    (h : ReadsAlike depth entries entries') (p : K → Bool) :
    ReadsAlike depth (entries.filter fun entry => p entry.1) (entries'.filter fun entry => p entry.1) := by
  have hsublist : ∀ entries : List (K × PlainValue K D),
      ((entries.filter fun entry => p entry.1).map Prod.fst).Sublist (entries.map Prod.fst) := fun entries =>
    List.filter_sublist.map Prod.fst
  have hmem : ∀ (entries : List (K × PlainValue K D)) key,
      key ∈ (entries.filter fun entry => p entry.1).map Prod.fst ↔ key ∈ entries.map Prod.fst ∧ p key = true := by
    intro entries key
    simp only [List.mem_map, List.mem_filter]
    constructor
    · rintro ⟨entry, ⟨hentry, hp⟩, rfl⟩
      exact ⟨⟨entry, hentry, rfl⟩, hp⟩
    · rintro ⟨⟨entry, hentry, rfl⟩, hp⟩
      exact ⟨entry, ⟨hentry, hp⟩, rfl⟩
  have hget : ∀ (entries : List (K × PlainValue K D)), (entries.map Prod.fst).Nodup → ∀ key value,
      get key (entries.filter fun entry => p entry.1) = some value → get key entries = some value :=
    fun entries hnodup key value hvalue =>
      get_of_mem_of_nodup hnodup (List.mem_filter.mp (mem_of_get hvalue)).1
  refine ⟨(hsublist entries).nodup h.nodup, (hsublist entries').nodup h.nodup', fun key => ?_,
    fun key value value' hvalue hvalue' => ?_⟩
  · rw [hmem, hmem, h.keys]
  · exact h.reads key value value' (hget entries h.nodup key value hvalue) (hget entries' h.nodup' key value' hvalue')

/-- Entries that read alike give the same children. -/
theorem ReadsAlike.childrenFrom {entries entries' : List (K × PlainValue K D)}
    (h : ReadsAlike depth entries entries') (hpriority : DatabaseKey.priority ∉ entries.map Prod.fst)
    (hchildren : childrenFrom depth entries = some children) :
    ∃ children', Database.childrenFrom depth entries' = some children' ∧
      ∀ priority, childrenNode children' priority = childrenNode children priority := by
  obtain ⟨hsublist, hread⟩ := get_childrenFrom h.nodup hchildren
  have hread' : ∀ entry ∈ entries', nodeFrom (depth + 1) entry.2 = some ((get entry.1 children).getD .empty) := by
    intro entry hentry
    have hget' := get_of_mem_of_nodup h.nodup' hentry
    obtain ⟨value, hget⟩ := Option.ne_none_iff_exists'.mp
      (mem_keys_iff.mp ((h.keys entry.1).mpr (List.mem_map_of_mem hentry)))
    exact h.reads _ _ _ hget hget' _ (hread _ (mem_of_get hget))
  obtain ⟨children', hchildren'⟩ := Option.isSome_iff_exists.mp (isSome_childrenFrom fun entry hentry =>
    Option.isSome_iff_exists.mpr ⟨_, hread' entry hentry⟩)
  obtain ⟨hsublist', hown⟩ := get_childrenFrom h.nodup' hchildren'
  refine ⟨children', hchildren', childrenNode_congr (hsublist'.nodup h.nodup') (hsublist.nodup h.nodup)
    (fun hmem => hpriority ((h.keys _).mpr (hsublist'.subset hmem))) (fun hmem => hpriority (hsublist.subset hmem))
    fun key => ?_⟩
  by_cases hmem : key ∈ entries'.map Prod.fst
  · obtain ⟨entry, hentry, rfl⟩ := List.mem_map.mp hmem
    exact Option.some.inj ((hown entry hentry).symm.trans (hread' entry hentry))
  · have hnone : get key children = none := not_not.mp (mt mem_keys_iff.mpr fun hkey =>
      hmem ((h.keys key).mp (hsublist.subset hkey)))
    have hnone' : get key children' = none := not_not.mp (mt mem_keys_iff.mpr fun hkey =>
      hmem (hsublist'.subset hkey))
    rw [hnone, hnone']

theorem ReadsAlike.childrenFromDictionary {entries entries' : List (K × PlainValue K D)}
    (h : ReadsAlike depth entries entries') (hchildren : childrenFromDictionary depth entries = some children) :
    ∃ children', FSnapshotUtilities.childrenFromDictionary depth entries' = some children' ∧
      ∀ priority, childrenNode children' priority = childrenNode children priority := by
  have hforall : ∀ entries : List (K × PlainValue K D), (∀ entry ∈ entries, isValidDictionaryKey entry.1 = true) ↔
      ∀ key ∈ entries.map Prod.fst, isValidDictionaryKey key = true := fun entries => by
    rw [List.forall_mem_map]
  have hvalid : (∀ entry ∈ entries, isValidDictionaryKey entry.1 = true) ↔
      ∀ entry ∈ entries', isValidDictionaryKey entry.1 = true := by
    rw [hforall, hforall]
    simp only [h.keys]
  have hpriority : DatabaseKey.priority ∉
      (entries.filter fun entry => (text entry.1).head? ≠ some '.').map Prod.fst := by
    intro hmem
    obtain ⟨entry, hentry, hkey⟩ := List.mem_map.mp hmem
    have hdot := (List.mem_filter.mp hentry).2
    rw [hkey, StringKey.text_priority] at hdot
    exact absurd hdot (by decide)
  rw [childrenFromDictionary_eq_childrenFrom] at hchildren
  rw [childrenFromDictionary_eq_childrenFrom]
  split_ifs at hchildren with hall
  rw [if_pos (hvalid.mp hall)]
  exact (h.filter fun key => decide ((text key).head? ≠ some '.')).childrenFrom hpriority hchildren

/-! ### Reading -/

theorem nodeFrom_dictionary_of_same {entries entries' : List (K × PlainValue K D)} (h : SameEntries entries entries')
    (hreads : ∀ key value value', get key entries = some value → get key entries' = some value' →
      ∀ depth node, nodeFrom depth value = some node → nodeFrom depth value' = some node)
    (hnode : nodeFrom depth (.dictionary entries) = some node) :
    nodeFrom depth (.dictionary entries') = some node := by
  have halike : ReadsAlike depth entries entries' :=
    ⟨h.nodup, h.nodup', h.keys, fun key value value' hget hget' => hreads key value value' hget hget' (depth + 1)⟩
  have hsame : SameValue (.dictionary entries) (.dictionary entries') :=
    .dictionary h.nodup h.nodup' h.keys h.values
  have hdepth := Nat.not_lt.mpr (le_of_nodeFrom hnode)
  rw [nodeFrom, if_neg hdepth, h.dictionaryPriority_eq, hsame.isValidLeafValue_eq, hsame.leafValueFrom_eq] at hnode
  rw [nodeFrom, if_neg hdepth]
  obtain ⟨priority, hpriority, hnode⟩ := Option.bind_eq_some_iff.mp hnode
  refine Option.bind_eq_some_iff.mpr ⟨priority, hpriority, ?_⟩
  rcases h.get_cases payloadValue with ⟨hget, hget'⟩ | ⟨payload, payload', hget, hget', hpayload⟩
  · rw [hget] at hnode
    rw [hget']
    obtain ⟨valid, hvalid, hnode⟩ := Option.bind_eq_some_iff.mp hnode
    refine Option.bind_eq_some_iff.mpr ⟨valid, hvalid, ?_⟩
    cases valid with
    | true => exact hnode
    | false =>
        obtain ⟨children, hchildren, hnode⟩ := Option.bind_eq_some_iff.mp hnode
        obtain ⟨children', hchildren', hbuilt⟩ := halike.childrenFromDictionary hchildren
        refine Option.bind_eq_some_iff.mpr ⟨children', hchildren', ?_⟩
        rw [hbuilt]
        exact hnode
  · rw [hget] at hnode
    dsimp only at hnode
    rw [hpayload.isValidLeafValue_eq, hpayload.leafValueFrom_eq] at hnode
    rw [hget']
    exact hnode

theorem nodeFrom_array_of_same {values values' : List (PlainValue K D)} (hlength : values.length = values'.length)
    (hreads : ∀ (i : Nat) value value', values[i]? = some value → values'[i]? = some value' →
      ∀ depth node, nodeFrom depth value = some node → nodeFrom depth value' = some node)
    (hnode : nodeFrom depth (.array values) = some node) : nodeFrom depth (.array values') = some node := by
  have hkeys : ∀ values : List (PlainValue K D),
      ((values.zipIdx 0).map fun entry => ((position entry.2 : K), entry.1)).map Prod.fst =
        (List.range values.length).map position := by
    intro values
    apply List.ext_getElem <;> simp
  have hnodup : ∀ values : List (PlainValue K D),
      (((values.zipIdx 0).map fun entry => ((position entry.2 : K), entry.1)).map Prod.fst).Nodup := by
    intro values
    rw [hkeys]
    exact List.Nodup.map position_injective List.nodup_range
  have hget : ∀ (values : List (PlainValue K D)) key value,
      get key ((values.zipIdx 0).map fun entry => ((position entry.2 : K), entry.1)) = some value →
        ∃ i : Nat, position i = key ∧ values[i]? = some value := by
    intro values key value hvalue
    obtain ⟨⟨element, i⟩, hmem, heq⟩ := List.mem_map.mp (mem_of_get hvalue)
    cases heq
    exact ⟨i, rfl, List.mem_zipIdx_iff_getElem?.mp hmem⟩
  have halike : ReadsAlike depth ((values.zipIdx 0).map fun entry => ((position entry.2 : K), entry.1))
      ((values'.zipIdx 0).map fun entry => ((position entry.2 : K), entry.1)) := by
    refine ⟨hnodup values, hnodup values', fun key => by rw [hkeys, hkeys, hlength],
      fun key value value' hvalue hvalue' => ?_⟩
    obtain ⟨i, hi, hat⟩ := hget values key value hvalue
    obtain ⟨j, hj, hat'⟩ := hget values' key value' hvalue'
    rw [position_injective (hj.trans hi.symm)] at hat'
    exact hreads i value value' hat hat' (depth + 1)
  have hpriority : DatabaseKey.priority ∉
      ((values.zipIdx 0).map fun entry => ((position entry.2 : K), entry.1)).map Prod.fst := by
    rw [hkeys, List.mem_map]
    rintro ⟨i, -, hi⟩
    exact position_ne_priority i hi
  have hdepth := Nat.not_lt.mpr (le_of_nodeFrom hnode)
  rw [nodeFrom, if_neg hdepth, childrenFromArray_eq] at hnode
  obtain ⟨children, hchildren, hnode⟩ := Option.bind_eq_some_iff.mp hnode
  obtain ⟨children', hchildren', hbuilt⟩ := halike.childrenFrom hpriority hchildren
  rw [nodeFrom, if_neg hdepth, childrenFromArray_eq]
  refine Option.bind_eq_some_iff.mpr ⟨children', hchildren', ?_⟩
  rw [hbuilt]
  exact hnode

/-- What is read does not depend on the order of entries. -/
theorem SameValue.nodeFrom {value value' : PlainValue K D} (h : SameValue value value') (depth : Nat)
    (node : FNode K (LeafValue D)) (hnode : nodeFrom depth value = some node) :
    FSnapshotUtilities.nodeFrom depth value' = some node := by
  induction h generalizing depth node with
  | refl value => exact hnode
  | dictionary hnodup hnodup' hkeys hvalues ih =>
      exact nodeFrom_dictionary_of_same ⟨hnodup, hnodup', hkeys, hvalues⟩ ih hnode
  | array hlength hvalues ih => exact nodeFrom_array_of_same hlength ih hnode

end FirebaseSwift.Database
