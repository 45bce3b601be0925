import FirebaseSwift.Database.QueryParameters

/-! Parameters that are read back. What the builders lead to is read back as the same parameters exactly if the
start and the end are nodes that can be read back, and the index is not a child path whose text reads as another
index. Queries that can be made have such parameters. -/

namespace FirebaseSwift.Database

open UnicodeStrings SortedDictionary FSnapshotUtilities ExceptLoops

variable {K D : Type} [DoubleType D]

/-! ### Numbers that were stored -/

/-- Only numbers differ. -/
inductive Renumbered : PlainValue K D → PlainValue K D → Prop
  | refl (value : PlainValue K D) : Renumbered value value
  | integer {value : D} {number : Int64} (hexactly : DoubleType.exactly value = some number) :
      Renumbered (.number (.double value)) (.number (.int64 number))
  | dictionary {entries : List (K × PlainValue K D)} (f : K × PlainValue K D → PlainValue K D)
      (hvalues : ∀ entry ∈ entries, Renumbered entry.2 (f entry)) :
      Renumbered (.dictionary entries) (.dictionary (entries.map fun entry => (entry.1, f entry)))
  | array {values : List (PlainValue K D)} (f : Nat → PlainValue K D)
      (hvalues : ∀ i value, values[i]? = some value → Renumbered value (f i)) :
      Renumbered (.array values) (.array ((List.range values.length).map f))

theorem Renumbered.leafNumber {number : LeafNumber D} {stored : PlainValue K D}
    (h : Renumbered (.number number.foundationValue) stored) :
    ∃ number' : LeafNumber D, number'.Same number ∧ stored = .number number'.foundationValue := by
  cases number with
  | int64 value =>
      cases h
      exact ⟨.int64 value, rfl, rfl⟩
  | double value =>
      cases h with
      | refl => exact ⟨.double value, rfl, rfl⟩
      | @integer _ number hexactly => exact ⟨.int64 number, hexactly, rfl⟩

theorem Renumbered.singleton {key : K} {value stored : PlainValue K D}
    (h : Renumbered (.dictionary [(key, value)]) stored) :
    ∃ value', Renumbered value value' ∧ stored = .dictionary [(key, value')] := by
  cases h with
  | refl => exact ⟨value, .refl value, rfl⟩
  | dictionary f hvalues => exact ⟨f (key, value), hvalues _ List.mem_cons_self, rfl⟩

theorem Renumbered.pair {key key' : K} {value value' stored : PlainValue K D}
    (h : Renumbered (.dictionary [(key, value), (key', value')]) stored) :
    ∃ renumbered renumbered', Renumbered value renumbered ∧ Renumbered value' renumbered' ∧
      stored = .dictionary [(key, renumbered), (key', renumbered')] := by
  cases h with
  | refl => exact ⟨value, value', .refl value, .refl value', rfl⟩
  | dictionary f hvalues =>
      obtain ⟨hfirst, hrest⟩ := List.forall_mem_cons.mp hvalues
      exact ⟨f (key, value), f (key', value'), hfirst, hrest _ List.mem_cons_self, rfl⟩

variable [StringKey K]

/-! ### Values that were stored -/

/-- The value after it was stored: a number may be another one of the same value, and entries come in any
order. -/
inductive StoredValue : PlainValue K D → PlainValue K D → Prop
  | refl (value : PlainValue K D) : StoredValue value value
  | integer {value : D} {number : Int64} (hexactly : DoubleType.exactly value = some number) :
      StoredValue (.number (.double value)) (.number (.int64 number))
  | dictionary {entries entries' : List (K × PlainValue K D)} (hnodup : (entries.map Prod.fst).Nodup)
      (hnodup' : (entries'.map Prod.fst).Nodup)
      (hkeys : ∀ key, key ∈ entries.map Prod.fst ↔ key ∈ entries'.map Prod.fst)
      (hvalues : ∀ key value value', get key entries = some value → get key entries' = some value' →
        StoredValue value value') :
      StoredValue (.dictionary entries) (.dictionary entries')
  | array {values values' : List (PlainValue K D)} (hlength : values.length = values'.length)
      (hvalues : ∀ (i : Nat) value value', values[i]? = some value → values'[i]? = some value' →
        StoredValue value value') :
      StoredValue (.array values) (.array values')

/-- First numbers change, then entries move. -/
theorem StoredValue.exists_renumbered {value stored : PlainValue K D} (h : StoredValue value stored) :
    ∃ renumbered, Renumbered value renumbered ∧ SameValue renumbered stored := by
  induction h with
  | refl value => exact ⟨value, .refl value, .refl value⟩
  | integer hexactly => exact ⟨_, .integer hexactly, .refl _⟩
  | @dictionary entries entries' hnodup hnodup' hkeys hvalues ih =>
      have hentry : ∀ entry : K × PlainValue K D, ∃ renumbered, entry ∈ entries →
          Renumbered entry.2 renumbered ∧
            ∀ value', get entry.1 entries' = some value' → SameValue renumbered value' := by
        intro entry
        by_cases hmem : entry ∈ entries
        · have hget := get_of_mem_of_nodup hnodup hmem
          have hkey' := (hkeys entry.1).mp (List.mem_map_of_mem hmem)
          obtain ⟨value', hget'⟩ := Option.ne_none_iff_exists'.mp (mem_keys_iff.mp hkey')
          obtain ⟨renumbered, hrenumbered, hsame⟩ := ih _ _ _ hget hget'
          refine ⟨renumbered, fun _ => ⟨hrenumbered, fun value'' hget'' => ?_⟩⟩
          rw [hget'] at hget''
          cases hget''
          exact hsame
        · exact ⟨.null, fun h => absurd h hmem⟩
      choose f hf using hentry
      refine ⟨_, .dictionary f fun entry hmem => (hf entry hmem).1, ?_⟩
      have hfst : (entries.map fun entry => (entry.1, f entry)).map Prod.fst = entries.map Prod.fst := by
        rw [List.map_map]
        rfl
      refine .dictionary (hfst ▸ hnodup) hnodup' (fun key => hfst ▸ hkeys key) fun key value value' hget hget' => ?_
      obtain ⟨entry, hmem, hentry⟩ := List.mem_map.mp (mem_of_get hget)
      cases hentry
      exact (hf entry hmem).2 value' hget'
  | @array values values' hlength hvalues ih =>
      have hvalue : ∀ i : Nat, ∃ renumbered, ∀ value, values[i]? = some value → Renumbered value renumbered ∧
          ∀ value', values'[i]? = some value' → SameValue renumbered value' := by
        intro i
        by_cases hi : i < values.length
        · have hget : values[i]? = some values[i] := List.getElem?_eq_getElem hi
          have hi' : i < values'.length := hlength ▸ hi
          have hget' : values'[i]? = some values'[i] := List.getElem?_eq_getElem hi'
          obtain ⟨renumbered, hrenumbered, hsame⟩ := ih i _ _ hget hget'
          refine ⟨renumbered, fun value hvalue => ?_⟩
          rw [hget] at hvalue
          cases hvalue
          refine ⟨hrenumbered, fun value' hvalue' => ?_⟩
          rw [hget'] at hvalue'
          cases hvalue'
          exact hsame
        · refine ⟨.null, fun value hvalue => ?_⟩
          rw [List.getElem?_eq_none (Nat.not_lt.mp hi)] at hvalue
          cases hvalue
      choose f hf using hvalue
      refine ⟨_, .array f fun i value hget => (hf i value hget).1, ?_⟩
      refine .array (by rw [List.length_map, List.length_range, hlength]) fun i value value' hget hget' => ?_
      obtain ⟨hi, -⟩ := List.getElem?_eq_some_iff.mp hget'
      have hi' : i < values.length := hlength ▸ hi
      have hmap : ((List.range values.length).map f)[i]? = some (f i) := by
        rw [List.getElem?_map, List.getElem?_range hi']
        rfl
      rw [hmap] at hget
      cases hget
      exact (hf i _ (List.getElem?_eq_getElem hi')).2 value' hget'

/-! ### Leaves that were stored -/

/-- A leaf is stored as a leaf of the same value. -/
theorem Renumbered.leafValue {value : LeafValue D} {stored : PlainValue K D}
    (h : Renumbered value.foundationValue stored) :
    ∃ value' : LeafValue D, value'.Same value ∧ stored = value'.foundationValue ∧ (value.Fits → value'.Fits) := by
  cases value with
  | bool flag =>
      cases h
      exact ⟨.bool flag, rfl, rfl, id⟩
  | number number =>
      obtain ⟨number', hsame, rfl⟩ := Renumbered.leafNumber h
      exact ⟨.number number', hsame, rfl, id⟩
  | string s =>
      cases h
      exact ⟨.string s, rfl, rfl, id⟩
  | deferredValue op =>
      cases op with
      | timestamp =>
          obtain ⟨value', hvalue, rfl⟩ := Renumbered.singleton h
          cases hvalue
          exact ⟨.deferredValue .timestamp, trivial, rfl, id⟩
      | increment delta =>
          obtain ⟨value', hvalue, rfl⟩ := Renumbered.singleton h
          obtain ⟨value'', hvalue', rfl⟩ := Renumbered.singleton hvalue
          obtain ⟨delta', hsame, rfl⟩ := Renumbered.leafNumber hvalue'
          exact ⟨.deferredValue (.increment delta'), hsame, rfl, id⟩

/-! ### The start and the end -/

namespace FNode

variable [UnicodeVersion] {node : FNode K (LeafValue D)} {value stored : PlainValue K D}

/-- A node that can be read back is read back after it was stored. -/
theorem exists_nodeFrom_stored (hleaf : (node.isLeafNode || node.isEmpty) = true)
    (hstorable : Storable true 0 node.data) (hvalue : node.val true = .ok value)
    (hstored : StoredValue value stored) : ∃ node', nodeFrom 0 stored = some node' ∧ node'.Same node := by
  obtain ⟨renumbered, hrenumbered, hsame⟩ := hstored.exists_renumbered
  obtain ⟨data, hwf⟩ := node
  cases data with
  | empty =>
      cases hvalue
      cases hrenumbered
      exact ⟨.empty, hsame.nodeFrom 0 .empty rfl, trivial⟩
  | leaf leafValue priority =>
      obtain ⟨hdepth, hfits, hpriority⟩ := hstorable
      cases priority with
      | empty =>
          cases hvalue
          obtain ⟨leafValue', hsameValue, rfl, hfits'⟩ := hrenumbered.leafValue
          have hread := (nodeFrom_foundationValue (K := K) 0 leafValue' _).mpr ⟨hdepth, hfits' hfits, rfl⟩
          exact ⟨_, hsame.nodeFrom 0 _ hread, trivial, hsameValue⟩
      | leaf priorityValue beyond =>
          obtain ⟨hfitsPriority, rfl⟩ := hpriority rfl
          cases hvalue
          obtain ⟨value', priority', hvalue', hpriority', rfl⟩ := hrenumbered.pair
          obtain ⟨leafValue', hsameValue, rfl, hfits'⟩ := hvalue'.leafValue
          obtain ⟨priorityValue', hsamePriority, rfl, hfitsPriority'⟩ := hpriority'.leafValue
          have hread := (nodeFrom_payload_iff (K := K) leafValue' _ _).mpr
            ⟨hdepth, hfits' hfits, _, (priorityFrom_foundationValue priorityValue' _).mpr
              ⟨hfitsPriority' hfitsPriority, rfl⟩, rfl⟩
          exact ⟨_, hsame.nodeFrom 0 _ hread, ⟨trivial, hsamePriority⟩, hsameValue⟩
      | children dict beyond => exact (hpriority rfl).elim
  | children dict priority =>
      have hempty : (⟨.children dict priority, hwf⟩ : FNode K (LeafValue D)) = .empty := isEmpty_iff.mp hleaf
      cases hempty

/-- A node that is read back can be read back. -/
theorem storable_of_nodeFrom (hleaf : (node.isLeafNode || node.isEmpty) = true)
    (hvalue : node.val true = .ok value) {node' : FNode K (LeafValue D)} (hread : nodeFrom 0 value = some node')
    (hsame : node'.Same node) : Storable true 0 node.data := by
  have hdepth := le_of_nodeFrom hread
  obtain ⟨data, hwf⟩ := node
  cases data with
  | empty => exact hdepth
  | leaf leafValue priority =>
      cases priority with
      | empty =>
          cases hvalue
          obtain ⟨-, hfits, -⟩ := (nodeFrom_foundationValue 0 leafValue _).mp hread
          exact ⟨hdepth, hfits, fun _ => trivial⟩
      | leaf priorityValue beyond =>
          cases hvalue
          obtain ⟨-, hfits, priority, hpriority, rfl⟩ := (nodeFrom_payload_iff leafValue _ _).mp hread
          obtain ⟨hfitsPriority, rfl⟩ := (priorityFrom_foundationValue priorityValue _).mp hpriority
          refine ⟨hdepth, hfits, fun _ => ⟨hfitsPriority, ?_⟩⟩
          have hbeyond : NodeData.empty.Same beyond := hsame.1.1
          cases beyond with
          | empty => rfl
          | leaf value priority => exact hbeyond.elim
          | children dict priority => exact hbeyond.elim
      | children dict beyond =>
          have hchildren := (NodeData.wellFormed_children_iff.mp (NodeData.wellFormed_getPriority hwf)).1
          have hbeside : (true && !(NodeData.children dict beyond).isEmpty) = true := by
            simpa [NodeData.isEmpty] using hchildren
          rw [val, valOf, if_pos hbeside] at hvalue
          obtain ⟨priorityValue, -, hvalue⟩ := bind_eq_ok.mp hvalue
          cases hvalue
          obtain ⟨-, -, priority, hpriority, rfl⟩ := (nodeFrom_payload_iff leafValue _ _).mp hread
          have hsamePriority : priority.data.Same (.children dict beyond) := hsame.1
          rcases leafValue_of_priorityFrom hpriority with rfl | ⟨value, rfl⟩
          · exact hsamePriority.elim
          · exact hsamePriority.elim
  | children dict priority =>
      have hempty : (⟨.children dict priority, hwf⟩ : FNode K (LeafValue D)) = .empty := isEmpty_iff.mp hleaf
      cases hempty

/-- A value that can be the start or the end of a query is a leaf or empty, and can be read back. -/
theorem storable_of_endpointNode {plain : PlainValue K D} (hnode : endpointNode plain = some node) :
    (node.isLeafNode || node.isEmpty) = true ∧ Storable true 0 node.data := by
  have hleaf : ∀ value : LeafValue D, nodeFrom 0 (value.foundationValue : PlainValue K D) = some node →
      (node.isLeafNode || node.isEmpty) = true ∧ Storable true 0 node.data := by
    intro value hread
    obtain ⟨hdepth, hfits, rfl⟩ := (nodeFrom_foundationValue 0 value node).mp hread
    exact ⟨rfl, hdepth, hfits, fun _ => trivial⟩
  cases plain with
  | null =>
      cases hnode
      exact ⟨rfl, Nat.zero_le _⟩
  | bool flag => exact hleaf (.bool flag) hnode
  | number number =>
      cases hnode
      exact ⟨rfl, Nat.zero_le _, trivial, fun _ => trivial⟩
  | string s => exact hleaf (.string s) hnode
  | dictionary entries => cases hnode
  | array values => cases hnode

end FNode

/-! ### Indices -/

namespace FPath

omit [DoubleType D] in
theorem mem_of_mem_splitOn {s piece : List Char} (hpiece : piece ∈ s.splitOn '/') {c : Char} (hc : c ∈ piece) :
    c ∈ s ∧ c ≠ '/' := by
  induction s generalizing piece with
  | nil =>
      rw [List.splitOn_nil, List.mem_singleton] at hpiece
      subst hpiece
      cases hc
  | cons first rest ih =>
      rw [List.splitOn_cons_eq_if_modifyHead] at hpiece
      split_ifs at hpiece with hfirst
      · rcases List.mem_cons.mp hpiece with rfl | hpiece
        · cases hc
        · exact (ih hpiece hc).imp_left (List.mem_cons_of_mem _)
      · obtain ⟨head, tail, hsplit⟩ := List.exists_cons_of_ne_nil (List.splitOn_ne_nil '/' rest)
        rw [hsplit] at hpiece ih
        rcases List.mem_cons.mp hpiece with rfl | hpiece
        · rcases List.mem_cons.mp hc with rfl | hc
          · exact ⟨List.mem_cons_self, by simpa using hfirst⟩
          · exact (ih List.mem_cons_self hc).imp_left (List.mem_cons_of_mem _)
        · exact (ih (List.mem_cons_of_mem _ hpiece) hc).imp_left (List.mem_cons_of_mem _)

theorem mem_ofString {s : List Char} {key : K} (hkey : key ∈ ofString s) :
    text key ≠ [] ∧ text key ∈ s.splitOn '/' := by
  obtain ⟨piece, hpiece, hread⟩ := List.mem_filterMap.mp hkey
  obtain ⟨hsplit, hne⟩ := List.mem_filter.mp hpiece
  rw [(StringKey.ofText_eq_some_iff piece key).mp hread]
  exact ⟨by simpa using hne, hsplit⟩

theorem isSplit_ofString (s : List Char) : (ofString s : FPath K).IsSplit := by
  intro key hkey
  obtain ⟨hne, hsplit⟩ := mem_ofString hkey
  exact ⟨hne, fun hslash => (mem_of_mem_splitOn hsplit hslash).2 rfl⟩

theorem wireFormat_eq_iff {path : FPath K} (hpath : path.IsSplit) {definition : List Char}
    (hslash : '/' ∉ definition) : path.wireFormat = definition ↔ path.map text = [definition] := by
  cases path with
  | nil =>
      refine iff_of_false ?_ nofun
      rintro rfl
      exact hslash List.mem_cons_self
  | cons piece rest =>
      have hpieces : ∀ text' ∈ (piece :: rest).map text, '/' ∉ text' :=
        List.forall_mem_map.mpr fun piece hpiece => (hpath piece hpiece).2
      have hsplit := List.splitOn_intercalate '/' hpieces (by simp)
      have hwire : wireFormat (piece :: rest) = ['/'].intercalate ((piece :: rest).map text) := rfl
      rw [hwire]
      constructor
      · intro h
        rw [h, List.splitOn_eq_singleton hslash] at hsplit
        exact hsplit.symm
      · intro h
        rw [h, List.intercalate_singleton]

end FPath

namespace FIndex

/-- The definitions of the indices that are no child paths. -/
def definitions : List (List Char) := [".key".toList, ".value".toList, ".priority".toList]

/-- The pieces of a child path can be read back, and its text is not the definition of another index. -/
def IsRestorable : FIndex K → Prop
  | .path indexPath => indexPath.IsSplit ∧ ∀ definition ∈ definitions, indexPath.map text ≠ [definition]
  | _ => True

variable {definition : List Char}

theorem fromQueryDefinition_eq (h : definition ∉ definitions) :
    (fromQueryDefinition definition : FIndex K) = .path (FPath.ofString definition) := by
  obtain ⟨hkey, h⟩ := not_or.mp (mt List.mem_cons.mpr h)
  obtain ⟨hvalue, h⟩ := not_or.mp (mt List.mem_cons.mpr h)
  rw [fromQueryDefinition, if_neg hkey, if_neg hvalue, if_neg (mt List.mem_singleton.mpr h)]

theorem fromQueryDefinition_ne_path (h : definition ∈ definitions) (indexPath : FPath K) :
    fromQueryDefinition definition ≠ .path indexPath := by
  rcases List.mem_cons.mp h with rfl | h
  · exact nofun
  · rcases List.mem_cons.mp h with rfl | h
    · exact nofun
    · rw [List.mem_singleton.mp h]
      exact nofun

/-- The definition reads as the index. -/
theorem fromQueryDefinition_queryDefinition_iff (index : FIndex K) :
    fromQueryDefinition index.queryDefinition = index ↔ index.IsRestorable := by
  have hslash : ∀ definition ∈ definitions, '/' ∉ definition := by decide
  cases index with
  | key => exact iff_of_true rfl trivial
  | value => exact iff_of_true rfl trivial
  | priority => exact iff_of_true rfl trivial
  | path indexPath =>
      have hdefinition : (FIndex.path indexPath).queryDefinition = indexPath.wireFormat := rfl
      rw [IsRestorable, hdefinition]
      constructor
      · intro h
        have hnot : indexPath.wireFormat ∉ definitions := fun hmem => fromQueryDefinition_ne_path hmem indexPath h
        have hread : FIndex.path (FPath.ofString indexPath.wireFormat) = .path indexPath :=
          (fromQueryDefinition_eq hnot).symm.trans h
        have hsplit : (FPath.ofString indexPath.wireFormat : FPath K).IsSplit := FPath.isSplit_ofString _
        rw [FIndex.path.inj hread] at hsplit
        refine ⟨hsplit, fun definition hmem heq => hnot ?_⟩
        rw [(FPath.wireFormat_eq_iff hsplit (hslash definition hmem)).mpr heq]
        exact hmem
      · rintro ⟨hsplit, hne⟩
        have hnot : indexPath.wireFormat ∉ definitions := fun hmem =>
          hne _ hmem ((FPath.wireFormat_eq_iff hsplit (hslash _ hmem)).mp rfl)
        rw [fromQueryDefinition_eq hnot, FPath.ofString_wireFormat hsplit]

/-- A child path that a query can be ordered by has a text that no other index has. -/
theorem isRestorable_of_childIndex {indexPathString : List Char} {index : FIndex K}
    (h : childIndex indexPathString = some index) : index.IsRestorable := by
  rw [childIndex] at h
  split_ifs at h with hkey hpriority hvalue hvalid
  cases h
  refine ⟨FPath.isSplit_ofString _, fun definition hmem heq => ?_⟩
  rw [Bool.not_eq_true', Bool.not_eq_false, FValidation.isValidPathString, Bool.and_eq_true] at hvalid
  have hdots : ∀ definition ∈ definitions, '.' ∈ definition := by decide
  obtain ⟨key, hkey, rfl⟩ : ∃ key ∈ (FPath.ofString indexPathString : FPath K), text key = definition :=
    List.mem_map.mp (heq ▸ List.mem_cons_self)
  obtain ⟨hmem', -⟩ := FPath.mem_of_mem_splitOn (FPath.mem_ofString hkey).2 (hdots _ hmem)
  exact absurd (List.all_eq_true.mp hvalid.2 '.' hmem') (by decide)

end FIndex

/-! ### The parameters -/

namespace QueryParams

variable {params : QueryParams K D} {dict : List (List Char × PlainValue K D)}

/-- What every call of a builder keeps. -/
structure Consistent (params : QueryParams K D) : Prop where
  startValue : ∀ value, params.indexStartValue = some value → (value.isLeafNode || value.isEmpty) = true
  startKey : params.indexStartValue = none → params.indexStartKey = none
  endValue : ∀ value, params.indexEndValue = some value → (value.isLeafNode || value.isEmpty) = true
  endKey : params.indexEndValue = none → params.indexEndKey = none
  limit : params.limitSet = false → params.limit = 0 ∧ params.viewFrom = none
  viewFrom : ∀ vf, params.viewFrom = some vf → vf = kFQPViewFromLeft ∨ vf = kFQPViewFromRight

omit [DoubleType D] in
theorem Consistent.build (h : params.Consistent) (builder : ParamsBuilder K D) :
    (params.build builder).Consistent := by
  cases builder with
  | limitTo limit => exact ⟨h.startValue, h.startKey, h.endValue, h.endKey, nofun, nofun⟩
  | limitToFirst limit =>
      refine ⟨h.startValue, h.startKey, h.endValue, h.endKey, nofun, fun vf hvf => ?_⟩
      cases hvf
      exact Or.inl rfl
  | limitToLast limit =>
      refine ⟨h.startValue, h.startKey, h.endValue, h.endKey, nofun, fun vf hvf => ?_⟩
      cases hvf
      exact Or.inr rfl
  | startAt indexValue childKey =>
      refine ⟨fun value hvalue => ?_, nofun, h.endValue, h.endKey, h.limit, h.viewFrom⟩
      cases hvalue
      exact indexValue.property
  | endAt indexValue childKey =>
      refine ⟨h.startValue, h.startKey, fun value hvalue => ?_, nofun, h.limit, h.viewFrom⟩
      cases hvalue
      exact indexValue.property
  | orderBy index => exact ⟨h.startValue, h.startKey, h.endValue, h.endKey, h.limit, h.viewFrom⟩

omit [DoubleType D] in
theorem built_consistent (builders : List (ParamsBuilder K D)) : (built builders).Consistent := by
  have hloop : ∀ (builders : List (ParamsBuilder K D)) (params : QueryParams K D), params.Consistent →
      (builders.foldl build params).Consistent := by
    intro builders
    induction builders with
    | nil => exact fun params h => h
    | cons builder rest ih => exact fun params h => ih _ (h.build builder)
  exact hloop builders _ ⟨nofun, fun _ => rfl, nofun, fun _ => rfl, fun _ => ⟨rfl, rfl⟩, nofun⟩

omit [DoubleType D] in
theorem Consistent.anchor_eq (h : params.Consistent) :
    params.anchor = kFQPViewFromLeft ∨ params.anchor = kFQPViewFromRight := by
  rw [anchor]
  cases hview : params.viewFrom with
  | some vf => exact h.viewFrom vf hview
  | none =>
      cases params.hasStart with
      | true => exact Or.inl rfl
      | false => exact Or.inr rfl

/-- The parameters as the sync tree compares them -/
def upToEquality (params : QueryParams K D) : FQueryParams K (LeafValue D) :=
  ⟨params.index, if params.limitSet then some (params.limit.toInt, params.isViewFromLeft) else none,
    params.indexStartValue.map fun value => (value, params.indexStartKey),
    params.indexEndValue.map fun value => (value, params.indexEndKey)⟩

omit [DoubleType D] in
theorem endpoint_eq {value value' : Option (FNode K (LeafValue D))} {key key' : Option K}
    (hkey : value = none → key = none) (hkey' : value' = none → key' = none)
    (h : (value.map fun value => (value, key)) = value'.map fun value => (value, key')) :
    value = value' ∧ key = key' := by
  cases value with
  | none =>
      cases value' with
      | none => exact ⟨rfl, (hkey rfl).trans (hkey' rfl).symm⟩
      | some value' => cases h
  | some value =>
      cases value' with
      | none => cases h
      | some value' =>
          cases h
          exact ⟨rfl, rfl⟩

variable {params' : QueryParams K D}

/-- Parameters that the sync tree takes for the same are equal. -/
theorem Consistent.isEqual_of_upToEquality_eq (h : params.Consistent) (h' : params'.Consistent)
    (hsame : params.upToEquality = params'.upToEquality) : params.IsEqual params' := by
  obtain ⟨hstart, hstartKey⟩ := endpoint_eq h.startKey h'.startKey (congrArg FQueryParams.indexStart hsame)
  obtain ⟨hend, hendKey⟩ := endpoint_eq h.endKey h'.endKey (congrArg FQueryParams.indexEnd hsame)
  have hlimit : (if params.limitSet then some (params.limit.toInt, params.isViewFromLeft) else none) =
      if params'.limitSet then some (params'.limit.toInt, params'.isViewFromLeft) else none :=
    congrArg FQueryParams.limit hsame
  have hrel : ∀ value : Option (FNode K (LeafValue D)), Option.Rel FNode.Same value value := by
    rintro (- | value)
    · exact .none
    · exact .some value.data.same_refl
  have hview : params.limitSet = params'.limitSet ∧ params.limit = params'.limit ∧
      params.isViewFromLeft = params'.isViewFromLeft := by
    cases hset : params.limitSet with
    | false =>
        cases hset' : params'.limitSet with
        | false =>
            obtain ⟨hzero, hnone⟩ := h.limit hset
            obtain ⟨hzero', hnone'⟩ := h'.limit hset'
            refine ⟨rfl, hzero.trans hzero'.symm, ?_⟩
            rw [isViewFromLeft, hnone, isViewFromLeft, hnone', hasStart, hasStart, hstart]
        | true =>
            rw [hset, hset'] at hlimit
            cases hlimit
    | true =>
        cases hset' : params'.limitSet with
        | false =>
            rw [hset, hset'] at hlimit
            cases hlimit
        | true =>
            rw [hset, hset', if_pos rfl, if_pos rfl, Option.some_inj, Prod.mk.injEq] at hlimit
            exact ⟨rfl, Int64.toInt_inj.mp hlimit.1, hlimit.2⟩
  exact ⟨hview.1, hview.2.1, congrArg FQueryParams.index hsame, hstartKey, hstart ▸ hrel _, hendKey,
    hend ▸ hrel _, hview.2.2⟩

/-! ### The entries of the wire form -/

omit [StringKey K] [DoubleType D] in
theorem get_presentEntries {fields : List (List Char × Option (PlainValue K D))}
    (hnodup : (fields.map Prod.fst).Nodup) : ∀ field ∈ fields, get field.1 (presentEntries fields) = field.2 := by
  induction fields with
  | nil => exact nofun
  | cons first rest ih =>
      obtain ⟨hfirst, hrest⟩ := List.nodup_cons.mp hnodup
      obtain ⟨key, value⟩ := first
      have hkeys : ∀ entry ∈ presentEntries rest, entry.1 ∈ rest.map Prod.fst := by
        intro entry hentry
        obtain ⟨field, hfield, hvalue⟩ := List.mem_filterMap.mp hentry
        obtain ⟨value, -, rfl⟩ := Option.map_eq_some_iff.mp hvalue
        exact List.mem_map.mpr ⟨field, hfield, rfl⟩
      have hnone : get key (presentEntries rest) = none :=
        get_eq_none_iff.mpr fun entry hentry heq => hfirst (heq ▸ hkeys entry hentry)
      refine List.forall_mem_cons.mpr ⟨?_, fun field hfield => ?_⟩
      · cases value with
        | none => exact hnone
        | some value => exact if_pos rfl
      · have hmem : field.1 ∈ rest.map Prod.fst := List.mem_map_of_mem hfield
        have hne : key ≠ field.1 := fun heq => hfirst (heq ▸ hmem)
        cases value with
        | none => exact ih hrest field hfield
        | some value => exact (if_neg hne).trans (ih hrest field hfield)

/-- The dictionary has the fields after they were stored. -/
def HasFields (fields : List (List Char × Option (PlainValue K D))) (dict : List (List Char × PlainValue K D)) :
    Prop := ∀ field ∈ fields, Option.Rel StoredValue field.2 (get field.1 dict)

omit [DoubleType D] in
theorem nodup_wireFields (params : QueryParams K D) (startValue endValue : Option (PlainValue K D)) :
    ((params.wireFields startValue endValue).map Prod.fst).Nodup := by
  have hkeys : [kFQPIndexStartValue, kFQPIndexStartName, kFQPIndexEndValue, kFQPIndexEndName, kFQPLimit,
    kFQPViewFrom, kFQPIndex].Nodup := by decide
  exact hkeys

theorem hasFields_presentEntries (params : QueryParams K D) (startValue endValue : Option (PlainValue K D)) :
    HasFields (params.wireFields startValue endValue)
      (presentEntries (params.wireFields startValue endValue)) := by
  intro field hfield
  rw [get_presentEntries (nodup_wireFields params startValue endValue) field hfield]
  cases field.2 with
  | none => exact .none
  | some value => exact .some (.refl value)

theorem eq_none_of_rel {value : Option (PlainValue K D)} (h : Option.Rel StoredValue none value) : value = none := by
  cases h
  rfl

theorem string_of_rel {s : List Char} {value : Option (PlainValue K D)}
    (h : Option.Rel StoredValue (some (.string s)) value) : value = some (.string s) := by
  cases h with
  | some h =>
      cases h
      rfl

theorem int64_of_rel {number : Int64} {value : Option (PlainValue K D)}
    (h : Option.Rel StoredValue (some (.number (.int64 number))) value) :
    value = some (.number (.int64 number)) := by
  cases h with
  | some h =>
      cases h
      rfl

/-! ### Reading the parameters -/

/-- Nothing is read from an empty dictionary, so the test for it makes no difference. -/
theorem fromQueryObject_eq_some_iff : fromQueryObject dict = some params' ↔
      readEndpoint kFQPIndexStartValue kFQPIndexStartName dict =
          some (params'.indexStartValue, params'.indexStartKey) ∧
        readEndpoint kFQPIndexEndValue kFQPIndexEndName dict = some (params'.indexEndValue, params'.indexEndKey) ∧
        readViewFrom dict = some params'.viewFrom ∧ params'.limitSet = (readLimit dict).isSome ∧
        params'.limit = (readLimit dict).getD 0 ∧ params'.index = readIndex dict := by
  have hgeneral : fromQueryObject dict =
      (readEndpoint kFQPIndexStartValue kFQPIndexStartName dict).bind fun indexStart =>
        (readEndpoint kFQPIndexEndValue kFQPIndexEndName dict).bind fun indexEnd =>
          (readViewFrom dict).bind fun viewFrom =>
            some ⟨(readLimit dict).isSome, (readLimit dict).getD 0, viewFrom, indexStart.1, indexStart.2, indexEnd.1,
              indexEnd.2, readIndex dict⟩ := by
    cases dict with
    | nil => rfl
    | cons entry rest => rfl
  rw [hgeneral]
  constructor
  · intro h
    obtain ⟨indexStart, hstart, h⟩ := Option.bind_eq_some_iff.mp h
    obtain ⟨indexEnd, hend, h⟩ := Option.bind_eq_some_iff.mp h
    obtain ⟨viewFrom, hview, h⟩ := Option.bind_eq_some_iff.mp h
    cases h
    exact ⟨hstart, hend, hview, rfl, rfl, rfl⟩
  · rintro ⟨hstart, hend, hview, hset, hlimit, hindex⟩
    rw [hstart, hend, hview, ← hset, ← hlimit, ← hindex]
    rfl

section Reading

variable [UnicodeVersion] {startValue endValue : Option (PlainValue K D)}

/-- A start or an end that can be read back is read back after it was stored. -/
theorem exists_readEndpoint {valueKey nameKey : List Char} {node : Option (FNode K (LeafValue D))} {key : Option K}
    {value : Option (PlainValue K D)} (hvalue : exportedValue node = .ok value)
    (hleaf : ∀ indexValue, node = some indexValue → (indexValue.isLeafNode || indexValue.isEmpty) = true)
    (hstorable : ∀ indexValue, node = some indexValue → Storable true 0 indexValue.data)
    (hkey : node = none → key = none) (hget : Option.Rel StoredValue value (get valueKey dict))
    (hname : Option.Rel StoredValue (key.map fun key => .string (text key)) (get nameKey dict)) :
    ∃ node', readEndpoint valueKey nameKey dict = some (node', key) ∧ Option.Rel FNode.Same node' node := by
  cases node with
  | none =>
      cases hvalue
      refine ⟨none, ?_, .none⟩
      rw [readEndpoint, eq_none_of_rel hget, hkey rfl]
  | some indexValue =>
      obtain ⟨exported, hexported, hvalue⟩ := bind_eq_ok.mp hvalue
      cases hvalue
      have hread : ((get nameKey dict).bind fun name => (WriteField.value name).asString.bind ofText) = key := by
        cases key with
        | none => rw [eq_none_of_rel hname, Option.bind_none]
        | some key =>
            rw [string_of_rel hname]
            exact (StringKey.ofText_eq_some_iff _ _).mpr rfl
      generalize hstored : get valueKey dict = stored at hget
      cases hget with
      | @some _ stored hvalue =>
          obtain ⟨node', hnode, hsame⟩ := FNode.exists_nodeFrom_stored (hleaf _ rfl) (hstorable _ rfl) hexported hvalue
          refine ⟨some node', ?_, .some hsame⟩
          rw [readEndpoint, hstored]
          simp only [hnode, hread, Option.bind_eq_bind, Option.bind_some]

theorem storable_of_readEndpoint {valueKey nameKey : List Char} {indexValue : FNode K (LeafValue D)}
    {value : Option (PlainValue K D)} (hvalue : exportedValue (some indexValue) = .ok value)
    (hleaf : (indexValue.isLeafNode || indexValue.isEmpty) = true) (hget : get valueKey dict = value)
    {endpoint : Option (FNode K (LeafValue D)) × Option K}
    (hread : readEndpoint valueKey nameKey dict = some endpoint)
    (hsame : Option.Rel FNode.Same endpoint.1 (some indexValue)) : Storable true 0 indexValue.data := by
  obtain ⟨exported, hexported, hvalue⟩ := bind_eq_ok.mp hvalue
  cases hvalue
  rw [readEndpoint, hget] at hread
  obtain ⟨node, hnode, hread⟩ := Option.bind_eq_some_iff.mp hread
  cases hread
  cases hsame with
  | some hsame => exact FNode.storable_of_nodeFrom hleaf hexported hnode hsame

/-- The start, the end and the index can be read back. -/
structure Restorable (params : QueryParams K D) : Prop where
  startValue : ∀ value, params.indexStartValue = some value → Storable true 0 value.data
  endValue : ∀ value, params.indexEndValue = some value → Storable true 0 value.data
  index : params.index.IsRestorable

omit [UnicodeVersion] [DoubleType D] in
theorem isViewFromLeft_eq {params' : QueryParams K D} (hstart : params'.hasStart = params.hasStart)
    (hview : params'.viewFrom = if params.limitSet then some params.anchor else none)
    (hc : params.Consistent) : params'.isViewFromLeft = params.isViewFromLeft := by
  rw [isViewFromLeft, hview, isViewFromLeft]
  cases hset : params.limitSet with
  | false =>
      rw [(hc.limit hset).2]
      exact hstart
  | true =>
      rw [if_pos rfl, anchor]
      cases params.viewFrom with
      | some vf => rfl
      | none =>
          cases params.hasStart with
          | true => rfl
          | false => rfl

/-- One form that is read: what is read equals the parameters. -/
theorem exists_fromQueryObject (hc : params.Consistent) (hr : params.Restorable)
    (hstart : exportedValue params.indexStartValue = .ok startValue)
    (hend : exportedValue params.indexEndValue = .ok endValue)
    (h : HasFields (params.wireFields startValue endValue) dict) :
    ∃ params', fromQueryObject dict = some params' ∧ params'.IsEqual params := by
  obtain ⟨hstartValue, h⟩ := List.forall_mem_cons.mp h
  obtain ⟨hstartName, h⟩ := List.forall_mem_cons.mp h
  obtain ⟨hendValue, h⟩ := List.forall_mem_cons.mp h
  obtain ⟨hendName, h⟩ := List.forall_mem_cons.mp h
  obtain ⟨hlimit, h⟩ := List.forall_mem_cons.mp h
  obtain ⟨hview, h⟩ := List.forall_mem_cons.mp h
  obtain ⟨hindex, -⟩ := List.forall_mem_cons.mp h
  obtain ⟨start', hreadStart, hsameStart⟩ :=
    exists_readEndpoint hstart hc.startValue hr.startValue hc.startKey hstartValue hstartName
  obtain ⟨end', hreadEnd, hsameEnd⟩ :=
    exists_readEndpoint hend hc.endValue hr.endValue hc.endKey hendValue hendName
  have hreadIndex : readIndex dict = params.index := by
    rw [readIndex]
    by_cases hpriority : params.index = .priority
    · rw [if_neg (not_not.mpr hpriority)] at hindex
      rw [eq_none_of_rel hindex, hpriority]
      rfl
    · rw [if_pos hpriority] at hindex
      rw [string_of_rel hindex]
      exact (FIndex.fromQueryDefinition_queryDefinition_iff params.index).mpr hr.index
  have hreadLimit : readLimit dict = if params.limitSet then some params.limit else none := by
    rw [readLimit]
    cases hset : params.limitSet with
    | false =>
        rw [hset, if_neg Bool.false_ne_true] at hlimit
        rw [eq_none_of_rel hlimit]
        rfl
    | true =>
        rw [hset, if_pos rfl] at hlimit
        rw [int64_of_rel hlimit]
        rfl
  have hreadView : readViewFrom dict = some (if params.limitSet then some params.anchor else none) := by
    rw [readViewFrom]
    cases hset : params.limitSet with
    | false =>
        rw [hset, if_neg Bool.false_ne_true] at hview
        rw [eq_none_of_rel hview]
        rfl
    | true =>
        rw [hset, if_pos rfl] at hview
        rw [string_of_rel hview]
        exact if_neg fun hne => hc.anchor_eq.elim hne.1 hne.2
  have hread : fromQueryObject dict = some ⟨params.limitSet, params.limit,
      if params.limitSet then some params.anchor else none, start', params.indexStartKey, end', params.indexEndKey,
      params.index⟩ := by
    refine fromQueryObject_eq_some_iff.mpr ⟨hreadStart, hreadEnd, hreadView, ?_, ?_, hreadIndex.symm⟩
    · rw [hreadLimit]
      cases params.limitSet <;> rfl
    · rw [hreadLimit]
      cases hset : params.limitSet with
      | false => exact (hc.limit hset).1
      | true => rfl
  have hhasStart : start'.isSome = params.indexStartValue.isSome := by
    generalize params.indexStartValue = value at hsameStart ⊢
    cases hsameStart <;> rfl
  exact ⟨_, hread, rfl, rfl, rfl, rfl, hsameStart, rfl, hsameEnd, isViewFromLeft_eq hhasStart rfl hc⟩

/-- What is written is read as the same parameters. -/
def ReadsBack (params : QueryParams K D) : Prop :=
  ∃ dict, params.wireProtocolParams = .ok dict ∧
    ∃ params', fromQueryObject dict = some params' ∧ params'.IsEqual params

theorem exists_exportedValue {node : Option (FNode K (LeafValue D))}
    (h : ∀ value, node = some value → Storable true 0 value.data) :
    ∃ value : Option (PlainValue K D), exportedValue node = .ok value := by
  cases node with
  | none => exact ⟨none, rfl⟩
  | some indexValue =>
      obtain ⟨value, hvalue, -⟩ := (roundTrips_iff indexValue (Or.inl rfl)).mpr (h indexValue rfl)
      exact ⟨some value, bind_eq_ok.mpr ⟨value, hvalue, rfl⟩⟩

theorem Restorable.exists_wireProtocolParams (hr : params.Restorable) :
    ∃ startValue endValue : Option (PlainValue K D), exportedValue params.indexStartValue = .ok startValue ∧
      exportedValue params.indexEndValue = .ok endValue ∧
      params.wireProtocolParams = .ok (presentEntries (params.wireFields startValue endValue)) := by
  obtain ⟨startValue, hstart⟩ := exists_exportedValue hr.startValue
  obtain ⟨endValue, hend⟩ := exists_exportedValue hr.endValue
  exact ⟨startValue, endValue, hstart, hend, bind_eq_ok.mpr ⟨_, hstart, bind_eq_ok.mpr ⟨_, hend, rfl⟩⟩⟩

theorem readsBack_iff (hc : params.Consistent) : params.ReadsBack ↔ params.Restorable := by
  constructor
  · rintro ⟨dict, hwire, params', hread, hequal⟩
    obtain ⟨startValue, hstart, hwire⟩ := bind_eq_ok.mp hwire
    obtain ⟨endValue, hend, hwire⟩ := bind_eq_ok.mp hwire
    cases hwire
    have hget := get_presentEntries (nodup_wireFields params startValue endValue)
    obtain ⟨hreadStart, hreadEnd, -, -, -, hreadIndex⟩ := fromQueryObject_eq_some_iff.mp hread
    refine ⟨fun value hvalue => ?_, fun value hvalue => ?_, ?_⟩
    · have hsame := hequal.indexStartValue
      rw [hvalue] at hstart hsame
      exact storable_of_readEndpoint hstart (hc.startValue value hvalue)
        (hget (kFQPIndexStartValue, startValue) (by simp [wireFields])) hreadStart hsame
    · have hsame := hequal.indexEndValue
      rw [hvalue] at hend hsame
      exact storable_of_readEndpoint hend (hc.endValue value hvalue)
        (hget (kFQPIndexEndValue, endValue) (by simp [wireFields])) hreadEnd hsame
    · by_cases hpriority : params.index = .priority
      · rw [hpriority]
        trivial
      · have hdefinition := hget (kFQPIndex, some (.string params.index.queryDefinition))
          (by simp [wireFields, hpriority])
        rw [readIndex, hdefinition, hequal.index] at hreadIndex
        exact (FIndex.fromQueryDefinition_queryDefinition_iff params.index).mp hreadIndex.symm
  · intro hr
    obtain ⟨startValue, endValue, hstart, hend, hwire⟩ := hr.exists_wireProtocolParams
    exact ⟨_, hwire, exists_fromQueryObject hc hr hstart hend (hasFields_presentEntries params startValue endValue)⟩

end Reading

end QueryParams

/-! ### Queries that can be made -/

/-- The index and the start and the end of the builder are made by the methods of a query. -/
def ParamsBuilder.IsMade : ParamsBuilder K D → Prop
  | .startAt indexValue _ | .endAt indexValue _ => ∃ plain : PlainValue K D, endpointNode plain = some indexValue.val
  | .orderBy index =>
      index ∈ [.key, .priority, .value] ∨ ∃ indexPathString, childIndex indexPathString = some index
  | _ => True

namespace QueryParams

variable [UnicodeVersion]

theorem Restorable.build {params : QueryParams K D} (h : params.Restorable) {builder : ParamsBuilder K D}
    (hmade : builder.IsMade) : (params.build builder).Restorable := by
  cases builder with
  | limitTo limit => exact ⟨h.startValue, h.endValue, h.index⟩
  | limitToFirst limit => exact ⟨h.startValue, h.endValue, h.index⟩
  | limitToLast limit => exact ⟨h.startValue, h.endValue, h.index⟩
  | startAt indexValue childKey =>
      obtain ⟨plain, hplain⟩ := hmade
      refine ⟨fun value hvalue => ?_, h.endValue, h.index⟩
      cases hvalue
      exact (FNode.storable_of_endpointNode hplain).2
  | endAt indexValue childKey =>
      obtain ⟨plain, hplain⟩ := hmade
      refine ⟨h.startValue, fun value hvalue => ?_, h.index⟩
      cases hvalue
      exact (FNode.storable_of_endpointNode hplain).2
  | orderBy index =>
      refine ⟨h.startValue, h.endValue, ?_⟩
      rcases hmade with hmem | ⟨indexPathString, hindex⟩
      · have hsimple : ∀ index ∈ [FIndex.key, .priority, .value], (index : FIndex K).IsRestorable := by
          simp [FIndex.IsRestorable]
        exact hsimple index hmem
      · exact FIndex.isRestorable_of_childIndex hindex

theorem built_restorable {builders : List (ParamsBuilder K D)} (hmade : ∀ builder ∈ builders, builder.IsMade) :
    (built builders).Restorable := by
  have hloop : ∀ (builders : List (ParamsBuilder K D)) (params : QueryParams K D),
      (∀ builder ∈ builders, builder.IsMade) → params.Restorable → (builders.foldl build params).Restorable := by
    intro builders
    induction builders with
    | nil => exact fun params _ h => h
    | cons builder rest ih =>
        intro params hmade h
        obtain ⟨hbuilder, hrest⟩ := List.forall_mem_cons.mp hmade
        exact ih _ hrest (h.build hbuilder)
  exact hloop builders _ hmade ⟨nofun, nofun, trivial⟩

end QueryParams

end FirebaseSwift.Database
