import FirebaseSwift.Database.ArrayKeys
import FirebaseSwift.Database.PlainValueOrder
import Mathlib.Data.List.Forall2

/-! Plain values that are read back as the node they were made from. What a node is converted to is read as
the same node exactly if it is not too deep, its strings are not too long, its keys are valid and can be
scanned, and no integer key with a minus is lost in an array. -/

namespace FirebaseSwift.Database

open UnicodeStrings FUtilities SortedDictionary FValidation FSnapshotUtilities

theorem exists_ok_iff {ε α : Type} {a : α} {p : α → Prop} :
    (∃ value, (Except.ok a : Except ε α) = .ok value ∧ p value) ↔ p a := by
  constructor
  · rintro ⟨_, hvalue, h⟩
    cases hvalue
    exact h
  · exact fun h => ⟨a, rfl, h⟩

section RoundTrips

variable {K D : Type} [StringKey K] [UnicodeVersion]

/-! ### Converting children -/

/-- The entries that the children are converted to. -/
def Converted (exp : Bool) (dict : List (K × NodeData K (LeafValue D))) (obj : List (K × PlainValue K D)) : Prop :=
  List.Forall₂ (fun child entry => child.1 = entry.1 ∧ valOf exp child.2 = .ok entry.2) dict obj

theorem valOfChildren_eq_ok_iff {exp : Bool} {dict : List (K × NodeData K (LeafValue D))} {scan result : KeyScan}
    {obj : List (K × PlainValue K D)} : valOfChildren exp dict scan = .ok (obj, result) ↔
      Converted exp dict obj ∧ scan.nextKeys (dict.map fun child => text child.1) = .ok result := by
  induction dict generalizing scan obj with
  | nil =>
      rw [valOfChildren, Converted, List.forall₂_nil_left_iff]
      constructor
      · intro h
        cases h
        exact ⟨rfl, rfl⟩
      · rintro ⟨rfl, h⟩
        cases h
        rfl
  | cons child rest ih =>
      obtain ⟨key, childNode⟩ := child
      rw [valOfChildren, Converted, List.forall₂_cons_left_iff, List.map_cons, KeyScan.nextKeys_cons]
      cases hvalue : valOf exp childNode with
      | error trap =>
          refine iff_of_false nofun ?_
          rintro ⟨⟨entry, others, ⟨-, hentry⟩, -⟩, -⟩
          cases hentry
      | ok value =>
          dsimp only
          rw [ok_bind]
          cases hnext : scan.next (text key) with
          | error trap => exact iff_of_false nofun fun h => nomatch h.2
          | ok next =>
              rw [ok_bind, ok_bind]
              constructor
              · intro h
                cases hrest : valOfChildren exp rest next with
                | error trap =>
                    rw [hrest] at h
                    cases h
                | ok pair =>
                    obtain ⟨others, last⟩ := pair
                    rw [hrest] at h
                    cases h
                    obtain ⟨hconverted, hkeys⟩ := ih.mp hrest
                    exact ⟨⟨(key, value), others, ⟨rfl, rfl⟩, hconverted, rfl⟩, hkeys⟩
              · rintro ⟨⟨entry, others, ⟨hkey, hentry⟩, hconverted, rfl⟩, hkeys⟩
                obtain ⟨entryKey, entryValue⟩ := entry
                dsimp only at hkey hentry
                subst hkey
                cases hentry
                rw [ih.mpr ⟨hconverted, hkeys⟩]
                rfl

namespace Converted

variable {exp : Bool} {dict : List (K × NodeData K (LeafValue D))} {obj : List (K × PlainValue K D)}

theorem keys_eq (h : Converted exp dict obj) : obj.map Prod.fst = dict.map Prod.fst := by
  induction h with
  | nil => rfl
  | cons hentry _ ih => rw [List.map_cons, List.map_cons, ih, hentry.1]

theorem exists_child (h : Converted exp dict obj) : ∀ entry ∈ obj, ∃ child ∈ dict,
    child.1 = entry.1 ∧ valOf exp child.2 = .ok entry.2 := by
  induction h with
  | nil => exact nofun
  | @cons child entry dict obj hentry _ ih =>
      refine List.forall_mem_cons.mpr ⟨⟨child, List.mem_cons_self, hentry⟩, fun other hother => ?_⟩
      obtain ⟨otherChild, hmem, hvalue⟩ := ih other hother
      exact ⟨otherChild, List.mem_cons_of_mem _ hmem, hvalue⟩

theorem exists_entry (h : Converted exp dict obj) : ∀ child ∈ dict, ∃ entry ∈ obj,
    child.1 = entry.1 ∧ valOf exp child.2 = .ok entry.2 := by
  induction h with
  | nil => exact nofun
  | @cons child entry dict obj hentry _ ih =>
      refine List.forall_mem_cons.mpr ⟨⟨entry, List.mem_cons_self, hentry⟩, fun other hother => ?_⟩
      obtain ⟨otherEntry, hmem, hvalue⟩ := ih other hother
      exact ⟨otherEntry, List.mem_cons_of_mem _ hmem, hvalue⟩

theorem exists_of_ok (h : ∀ child ∈ dict, ∃ value, valOf exp child.2 = .ok value) :
    ∃ obj : List (K × PlainValue K D), Converted exp dict obj := by
  induction dict with
  | nil => exact ⟨[], .nil⟩
  | cons child rest ih =>
      obtain ⟨⟨value, hvalue⟩, hrest⟩ := List.forall_mem_cons.mp h
      obtain ⟨obj, hobj⟩ := ih hrest
      exact ⟨(child.1, value) :: obj, .cons ⟨rfl, hvalue⟩ hobj⟩

end Converted

/-! ### Which nodes are read back -/

mutual

/-- The node is not too deep, its strings are not too long, its keys can be scanned, and for export its
priorities have no priorities. Where the children become an array no key has a minus; elsewhere all keys are
valid. -/
def Storable (exp : Bool) (depth : Nat) : NodeData K (LeafValue D) → Prop
  | .empty => depth ≤ kFirebaseMaxObjectDepth
  | .leaf value priority =>
      depth ≤ kFirebaseMaxObjectDepth ∧ value.Fits ∧ (exp = true → IsPlainPriority priority)
  | .children dict priority =>
      depth ≤ kFirebaseMaxObjectDepth ∧ ScansKeys (dict.map fun child => text child.1) ∧
        (exp = false → BecomesArray (dict.map fun child => text child.1) →
          ∀ child ∈ dict, isNegative (text child.1) = false) ∧
        (exp = true ∨ ¬BecomesArray (dict.map fun child => text child.1) →
          ∀ child ∈ dict, isValidKey (text child.1) = true) ∧
        (exp = true → IsPlainPriority priority) ∧ StorableChildren exp (depth + 1) dict

def StorableChildren (exp : Bool) (depth : Nat) : List (K × NodeData K (LeafValue D)) → Prop
  | [] => True
  | (_, child) :: rest => Storable exp depth child ∧ StorableChildren exp depth rest

end

theorem storableChildren_iff {exp : Bool} {depth : Nat} {dict : List (K × NodeData K (LeafValue D))} :
    StorableChildren exp depth dict ↔ ∀ child ∈ dict, Storable exp depth child.2 := by
  induction dict with
  | nil => exact iff_of_true trivial nofun
  | cons child rest ih => rw [StorableChildren, ih, List.forall_mem_cons]

variable [DoubleType D]

/-- A value that the node is converted to is read as the node. -/
def RoundTrips (exp : Bool) (depth : Nat) (node : FNode K (LeafValue D)) : Prop :=
  ∃ value, node.val exp = .ok value ∧ nodeFrom depth value = some node

/-- A priority is read back if it has no priority itself and is no node with children. -/
theorem readsPriority_iff (priority : FNode K (LeafValue D)) :
    (∃ value, priority.val false = .ok value ∧ priorityFrom value = some priority) ↔
      IsPlainPriority priority.data := by
  obtain ⟨data, hwf⟩ := priority
  cases data with
  | empty => exact iff_of_true ⟨.null, rfl, rfl⟩ trivial
  | leaf leafValue data =>
      have hval : (⟨.leaf leafValue data, hwf⟩ : FNode K (LeafValue D)).val false =
          .ok leafValue.foundationValue := rfl
      rw [hval, IsPlainPriority]
      constructor
      · rintro ⟨value, hvalue, hread⟩
        cases hvalue
        obtain ⟨hfits, hnode⟩ := (priorityFrom_foundationValue leafValue _).mp hread
        cases hnode
        exact ⟨hfits, rfl⟩
      · rintro ⟨hfits, rfl⟩
        exact ⟨_, rfl, (priorityFrom_foundationValue leafValue _).mpr ⟨hfits, rfl⟩⟩
  | children dict data =>
      refine iff_of_false ?_ id
      rintro ⟨value, -, hread⟩
      rcases leafValue_of_priorityFrom hread with hempty | ⟨leafValue, hleaf⟩
      · cases hempty
      · cases hleaf

theorem roundTrips_leaf {exp : Bool} {depth : Nat} (leafValue : LeafValue D) (priority : FNode K (LeafValue D))
    (hpriority : exp = true ∨ priority = .empty) :
    RoundTrips exp depth (.leaf leafValue priority) ↔ Storable exp depth (.leaf leafValue priority.data) := by
  rw [Storable, ← readsPriority_iff]
  have hval : (FNode.leaf leafValue priority).val exp =
      if (exp && !priority.isEmpty) = true then priority.val false >>= fun priorityValue =>
        .ok (.dictionary [(payloadValue, leafValue.foundationValue), (DatabaseKey.priority, priorityValue)])
      else .ok leafValue.foundationValue := by
    rw [FNode.val, FNode.leaf, valOf]
    rfl
  rw [RoundTrips, hval]
  by_cases hbeside : (exp && !priority.isEmpty) = true
  · obtain ⟨rfl, -⟩ := Bool.and_eq_true_iff.mp hbeside
    rw [if_pos hbeside]
    cases hpriorityVal : priority.val false with
    | error trap =>
        refine iff_of_false nofun fun h => ?_
        obtain ⟨_, hvalue, -⟩ := h.2.2 rfl
        cases hvalue
    | ok priorityValue =>
        rw [ok_bind]
        constructor
        · rintro ⟨value, hvalue, hread⟩
          cases hvalue
          obtain ⟨hdepth, hfits, read, hreadPriority, hnode⟩ := (nodeFrom_payload_iff leafValue _ _).mp hread
          have hsame : priority = read := by
            have hpriorities := congrArg FNode.getPriority hnode
            rwa [FNode.getPriority_leaf, FNode.getPriority_leaf] at hpriorities
          exact ⟨hdepth, hfits, fun _ => ⟨priorityValue, rfl, hsame ▸ hreadPriority⟩⟩
        · rintro ⟨hdepth, hfits, hreads⟩
          obtain ⟨_, hvalue, hread⟩ := hreads rfl
          cases hvalue
          exact ⟨_, rfl, (nodeFrom_payload_iff leafValue _ _).mpr ⟨hdepth, hfits, priority, hread, rfl⟩⟩
  · have hnone : priority = .empty := by
      rcases hpriority with rfl | hnone
      · rw [Bool.true_and, Bool.not_eq_true', Bool.not_eq_false] at hbeside
        exact FNode.isEmpty_iff.mp hbeside
      · exact hnone
    subst hnone
    rw [if_neg hbeside]
    constructor
    · rintro ⟨value, hvalue, hread⟩
      cases hvalue
      obtain ⟨hdepth, hfits, -⟩ := (nodeFrom_foundationValue depth leafValue _).mp hread
      exact ⟨hdepth, hfits, fun _ => ⟨.null, rfl, rfl⟩⟩
    · rintro ⟨hdepth, hfits, -⟩
      exact ⟨_, rfl, (nodeFrom_foundationValue depth leafValue _).mpr ⟨hdepth, hfits, rfl⟩⟩

/-! ### Nodes with children -/

namespace HasChildren

variable {node : FNode K (LeafValue D)} {dict : List (K × NodeData K (LeafValue D))} {exp : Bool} {depth : Nat}
  {obj : List (K × PlainValue K D)}

/-- Each entry is read as the child of its key exactly if the children are read back. -/
theorem reads_iff (h : HasChildren node dict) (hobj : Converted exp dict obj) :
    (∀ entry ∈ obj, nodeFrom (depth + 1) entry.2 = some (node.getImmediateChild entry.1)) ↔
      ∀ child ∈ dict, RoundTrips exp (depth + 1) (node.getImmediateChild child.1) := by
  constructor
  · intro hreads child hchild
    obtain ⟨entry, hentry, hkey, hvalue⟩ := hobj.exists_entry child hchild
    refine ⟨entry.2, ?_, ?_⟩
    · rw [FNode.val, h.child child hchild]
      exact hvalue
    · rw [hkey]
      exact hreads entry hentry
  · intro htrips entry hentry
    obtain ⟨child, hchild, hkey, hvalue⟩ := hobj.exists_child entry hentry
    obtain ⟨value, hval, hread⟩ := htrips child hchild
    rw [FNode.val, h.child child hchild, hvalue] at hval
    cases hval
    rw [← hkey]
    exact hread

theorem entries_iff (h : HasChildren node dict) (hobj : Converted exp dict obj)
    {extra : List (K × PlainValue K D)} (hextra : extra = [] ∨ ∃ value, extra = [(DatabaseKey.priority, value)]) :
    nodeFrom depth (.dictionary (obj ++ extra)) = some node ↔ depth ≤ kFirebaseMaxObjectDepth ∧
      (∀ child ∈ dict, isValidKey (text child.1) = true) ∧ dictionaryPriority extra = some node.getPriority ∧
        ∀ child ∈ dict, RoundTrips exp (depth + 1) (node.getImmediateChild child.1) := by
  have hkeys := hobj.keys_eq
  have hvalid : (∀ entry ∈ obj, isValidKey (text entry.1) = true) ↔
      ∀ child ∈ dict, isValidKey (text child.1) = true := by
    have hmap : ∀ {α : Type} (entries : List (K × α)), (∀ entry ∈ entries, isValidKey (text entry.1) = true) ↔
        ∀ key ∈ entries.map Prod.fst, isValidKey (text key) = true := fun entries => by
      rw [List.forall_mem_map]
    rw [hmap, hmap, hkeys]
  rw [nodeFrom_entries_iff h.leafValue h.ne_empty (hkeys ▸ h.nodup) (hkeys ▸ h.priority) hextra, hvalid,
    h.reads_iff hobj, hkeys, and_iff_left h.exists_child]

/-- An array holds the children whose keys are positions. -/
theorem array_iff (h : HasChildren node dict) (hobj : Converted exp dict obj)
    (harray : BecomesArray (dict.map fun child => text child.1)) {maxKey : Nat}
    (hmax : ∀ child ∈ dict, ∀ value ∈ scannedInteger (text child.1), value ≤ maxKey) :
    nodeFrom depth (.array ((List.range (maxKey + 1)).map fun i => (get (position i) obj).getD .null)) = some node ↔
      depth ≤ kFirebaseMaxObjectDepth ∧ node.getPriority = .empty ∧
        (∀ child ∈ dict, isNegative (text child.1) = false) ∧
          ∀ child ∈ dict, RoundTrips exp (depth + 1) (node.getImmediateChild child.1) := by
  have hobjKeys := hobj.keys_eq
  have hposition : ∀ child ∈ dict, ∀ i, position i = child.1 ↔
      isNegative (text child.1) = false ∧ (i : Int) ∈ scannedInteger (text child.1) := by
    intro child hchild i
    obtain ⟨value, hvalue, -⟩ := harray _ (List.mem_map_of_mem hchild)
    constructor
    · intro heq
      have htext : text child.1 = Nat.toDigits 10 i := by rw [← heq, StringKey.text_position]
      rcases scannedInteger_eq_some hvalue with ⟨hnonneg, hle, hdigits⟩ | ⟨-, -, hne⟩
      · have hi : i = value.toNat := by
          calc i = Nat.ofDigitChars 10 (Nat.toDigits 10 i) 0 := Nat.ofDigitChars_ten_toDigits.symm
            _ = Nat.ofDigitChars 10 (Nat.toDigits 10 value.toNat) 0 := by rw [← htext, hdigits]
            _ = value.toNat := Nat.ofDigitChars_ten_toDigits
        rw [hi, Int.toNat_of_nonneg hle]
        exact ⟨hnonneg, hvalue⟩
      · exact absurd htext (hne i)
    · rintro ⟨hnonneg, hi⟩
      rcases scannedInteger_eq_some hi with ⟨-, -, hdigits⟩ | ⟨hnegative, -, -⟩
      · apply text_injective
        rw [StringKey.text_position, hdigits, Int.toNat_natCast]
      · rw [hnonneg] at hnegative
        cases hnegative
  rw [nodeFrom_array_iff h.leafValue h.ne_empty]
  refine and_congr_right fun _ => and_congr_right fun _ => ?_
  constructor
  · rintro ⟨hall, hpositions⟩
    have hchildren : ∀ child ∈ dict, ∃ i < maxKey + 1, position i = child.1 := fun child hchild =>
      hpositions child.1 (fun heq => h.priority (heq ▸ List.mem_map_of_mem hchild)) (h.child_ne_empty child hchild)
    refine ⟨fun child hchild => ?_, (h.reads_iff hobj).mp fun entry hentry => ?_⟩
    · obtain ⟨i, -, hi⟩ := hchildren child hchild
      exact ((hposition child hchild i).mp hi).1
    · obtain ⟨child, hchild, hkey, -⟩ := hobj.exists_child entry hentry
      obtain ⟨i, hi, heq⟩ := hchildren child hchild
      have hget : get (position i) obj = some entry.2 := by
        rw [heq, hkey]
        exact get_of_mem_of_nodup (hobjKeys ▸ h.nodup) hentry
      have hread := hall i hi
      rw [hget, heq, hkey] at hread
      exact hread
  · rintro ⟨hnonneg, htrips⟩
    refine ⟨fun i hi => ?_, fun key hkey hchild => ?_⟩
    · cases hget : get (position i) obj with
      | some value => exact (h.reads_iff hobj).mpr htrips _ (mem_of_get hget)
      | none =>
          have hnone : node.getImmediateChild (position i) = .empty := by
            by_contra hchild
            have hmem := h.exists_child _ (position_ne_priority i) hchild
            rw [← hobjKeys] at hmem
            exact mem_keys_iff.mp hmem hget
          have hdepth : depth + 1 ≤ kFirebaseMaxObjectDepth := by
            cases dict with
            | nil =>
                refine absurd (FNode.eq_empty_of_observations h.leafValue fun key hkey => ?_) h.ne_empty
                by_contra hchild
                cases h.exists_child key hkey hchild
            | cons child rest =>
                obtain ⟨value, -, hread⟩ := htrips child List.mem_cons_self
                exact le_of_nodeFrom hread
          rw [hnone, Option.getD_none, nodeFrom, if_neg (Nat.not_lt.mpr hdepth)]
    · obtain ⟨child, hmem, rfl⟩ := List.mem_map.mp (h.exists_child key hkey hchild)
      obtain ⟨value, hvalue, -⟩ := harray _ (List.mem_map_of_mem hmem)
      rcases scannedInteger_eq_some hvalue with ⟨-, hle, -⟩ | ⟨hnegative, -, -⟩
      · have hbound := hmax child hmem value hvalue
        refine ⟨value.toNat, by omega, (hposition child hmem _).mpr ⟨hnonneg child hmem, ?_⟩⟩
        rw [Int.toNat_of_nonneg hle]
        exact hvalue
      · rw [hnonneg child hmem] at hnegative
        cases hnegative

end HasChildren

/-- The cases of the conversion: an array, a dictionary with the priority, and a dictionary without one. -/
theorem roundTrips_children {exp : Bool} {depth : Nat} {dict : List (K × NodeData K (LeafValue D))}
    {priority : NodeData K (LeafValue D)} (hwf : (NodeData.children dict priority).wellFormed = true)
    (hpriority : exp = true ∨ priority = .empty) :
    RoundTrips exp depth (⟨.children dict priority, hwf⟩ : FNode K (LeafValue D)) ↔
      depth ≤ kFirebaseMaxObjectDepth ∧ ScansKeys (dict.map fun child => text child.1) ∧
        (exp = false → BecomesArray (dict.map fun child => text child.1) →
          ∀ child ∈ dict, isNegative (text child.1) = false) ∧
        (exp = true ∨ ¬BecomesArray (dict.map fun child => text child.1) →
          ∀ child ∈ dict, isValidKey (text child.1) = true) ∧
        (exp = true → IsPlainPriority priority) ∧ ∀ child ∈ dict, RoundTrips exp (depth + 1)
          ((⟨.children dict priority, hwf⟩ : FNode K (LeafValue D)).getImmediateChild child.1) := by
  have hdict := hasChildren hwf
  obtain ⟨hne, -, -, hpriorityWf⟩ := NodeData.wellFormed_children_iff.mp hwf
  have hnonempty : ¬dict.isEmpty = true := mt List.isEmpty_iff.mp hne
  have hkeysNe : (dict.map fun child => text child.1) ≠ [] := mt List.map_eq_nil_iff.mp hne
  have hval : (⟨.children dict priority, hwf⟩ : FNode K (LeafValue D)).val exp =
      valOfChildren exp dict {} >>= fun pair =>
        if (!exp && pair.2.allIntegerKeys && decide (pair.2.maxKey < 2 * pair.2.numKeys)) = true then
          .ok (.array ((List.range (pair.2.maxKey.toNat + 1)).map fun i =>
            (get (position i) pair.1).getD .null))
        else if (exp && !priority.isEmpty) = true then valOf false priority >>= fun priorityValue =>
          .ok (.dictionary (pair.1 ++ [(DatabaseKey.priority, priorityValue)]))
        else .ok (.dictionary pair.1) := by
    rw [FNode.val, valOf, if_neg hnonempty]
  rcases @KeyScan.nextKeys_eq _ {} rfl (dict.map fun child => text child.1) with
    ⟨hscans, result, hresult, hscanned⟩ | ⟨hscans, trap, htrap⟩
  · by_cases hconverted : ∃ obj, Converted exp dict obj
    · obtain ⟨obj, hobj⟩ := hconverted
      have harray := hscanned.becomesArray_iff hkeysNe
      rw [RoundTrips, hval, valOfChildren_eq_ok_iff.mpr ⟨hobj, hresult⟩, ok_bind]
      dsimp only
      by_cases hcond : (!exp && result.allIntegerKeys && decide (result.maxKey < 2 * result.numKeys)) = true
      · rw [if_pos hcond, exists_ok_iff]
        rw [Bool.and_eq_true, Bool.and_eq_true, Bool.not_eq_true', decide_eq_true_iff] at hcond
        obtain ⟨⟨rfl, hall⟩, hlt⟩ := hcond
        have hbecomes := harray.mp ⟨hall, hlt⟩
        have hnone : priority = .empty := hpriority.resolve_left nofun
        have hmax : ∀ child ∈ dict, ∀ value ∈ scannedInteger (text child.1), value ≤ (result.maxKey.toNat : Int) := by
          intro child hchild value hvalue
          have hbound := ((hscanned.maxKey_lt hall (result.maxKey + 1)).mp (Int.lt_succ _)).2 _
            (List.mem_map_of_mem hchild) value hvalue
          omega
        rw [hdict.array_iff hobj hbecomes hmax]
        constructor
        · rintro ⟨hdepth, -, hnonneg, htrips⟩
          exact ⟨hdepth, hscans, fun _ _ => hnonneg, fun h => absurd hbecomes (h.resolve_left nofun), nofun, htrips⟩
        · rintro ⟨hdepth, -, hnonneg, -, -, htrips⟩
          exact ⟨hdepth, FNode.ext hnone, hnonneg rfl hbecomes, htrips⟩
      · have hnot : exp = true ∨ ¬BecomesArray (dict.map fun child => text child.1) := by
          rw [Bool.and_assoc, Bool.and_eq_true, Bool.and_eq_true, Bool.not_eq_true', decide_eq_true_iff, harray] at hcond
          cases exp with
          | true => exact Or.inl rfl
          | false => exact Or.inr fun hbecomes => hcond ⟨rfl, hbecomes⟩
        have hkeys : exp = false → BecomesArray (dict.map fun child => text child.1) →
            ∀ child ∈ dict, isNegative (text child.1) = false := by
          rintro rfl hbecomes
          exact absurd hbecomes (hnot.resolve_left nofun)
        rw [if_neg hcond]
        by_cases hbeside : (exp && !priority.isEmpty) = true
        · have hreads := readsPriority_iff (⟨priority, hpriorityWf⟩ : FNode K (LeafValue D))
          rw [FNode.val] at hreads
          rw [if_pos hbeside]
          obtain ⟨rfl, -⟩ := Bool.and_eq_true_iff.mp hbeside
          cases hpriorityVal : valOf false priority with
          | error trap =>
              refine iff_of_false nofun fun h => ?_
              obtain ⟨_, hvalue, -⟩ := hreads.mpr (h.2.2.2.2.1 rfl)
              dsimp only at hvalue
              rw [hpriorityVal] at hvalue
              cases hvalue
          | ok priorityValue =>
              rw [ok_bind, exists_ok_iff, hdict.entries_iff hobj (Or.inr ⟨priorityValue, rfl⟩)]
              dsimp only at hreads
              rw [hpriorityVal, exists_ok_iff] at hreads
              have hread : dictionaryPriority [((DatabaseKey.priority : K), priorityValue)] =
                  priorityFrom priorityValue := by
                rw [dictionaryPriority, get_singleton]
              rw [hread]
              constructor
              · rintro ⟨hdepth, hvalid, hpriorityRead, htrips⟩
                exact ⟨hdepth, hscans, hkeys, fun _ => hvalid, fun _ => hreads.mp hpriorityRead, htrips⟩
              · rintro ⟨hdepth, -, -, hvalid, hplain, htrips⟩
                exact ⟨hdepth, hvalid (Or.inl rfl), hreads.mpr (hplain rfl), htrips⟩
        · have hnone : priority = .empty := by
            rcases hpriority with rfl | hnone
            · rw [Bool.true_and, Bool.not_eq_true', Bool.not_eq_false] at hbeside
              exact congrArg FNode.data (FNode.isEmpty_iff.mp
                (show (⟨priority, hpriorityWf⟩ : FNode K (LeafValue D)).isEmpty = true from hbeside))
            · exact hnone
          have hentries := @HasChildren.entries_iff _ _ _ _ _ _ _ _ depth _ hdict hobj _ (Or.inl rfl)
          rw [List.append_nil] at hentries
          rw [if_neg hbeside, exists_ok_iff, hentries]
          constructor
          · rintro ⟨hdepth, hvalid, -, htrips⟩
            exact ⟨hdepth, hscans, hkeys, fun _ => hvalid, fun _ => hnone ▸ trivial, htrips⟩
          · rintro ⟨hdepth, -, -, hvalid, -, htrips⟩
            exact ⟨hdepth, hvalid hnot, congrArg some (FNode.ext hnone.symm), htrips⟩
    · refine iff_of_false ?_ fun h => hconverted (Converted.exists_of_ok fun child hchild => ?_)
      · rintro ⟨value, hvalue, -⟩
        rw [hval] at hvalue
        cases hpair : valOfChildren exp dict {} with
        | error trap =>
            rw [hpair] at hvalue
            cases hvalue
        | ok pair => exact hconverted ⟨pair.1, (valOfChildren_eq_ok_iff.mp hpair).1⟩
      · obtain ⟨value, hvalue, -⟩ := h.2.2.2.2.2 child hchild
        rw [FNode.val, hdict.child child hchild] at hvalue
        exact ⟨value, hvalue⟩
  · refine iff_of_false ?_ fun h => hscans h.2.1
    rintro ⟨value, hvalue, -⟩
    rw [hval] at hvalue
    cases hpair : valOfChildren exp dict {} with
    | error trap =>
        rw [hpair] at hvalue
        cases hvalue
    | ok pair =>
        have hok := (valOfChildren_eq_ok_iff.mp hpair).2
        rw [htrap] at hok
        cases hok

/-- A node is read back exactly if it is storable. -/
theorem roundTrips_iff {exp : Bool} {depth : Nat} (node : FNode K (LeafValue D))
    (hpriority : exp = true ∨ node.PriorityFree) : RoundTrips exp depth node ↔ Storable exp depth node.data := by
  induction node using FNode.child_induction generalizing depth with
  | hstep node ih =>
      obtain ⟨data, hwf⟩ := node
      cases data with
      | empty =>
          rw [Storable]
          constructor
          · rintro ⟨value, hvalue, hread⟩
            cases hvalue
            exact le_of_nodeFrom hread
          · intro hdepth
            refine ⟨.null, rfl, ?_⟩
            rw [nodeFrom, if_neg (Nat.not_lt.mpr hdepth)]
            rfl
      | leaf leafValue priority =>
          have hpriorityWf : priority.wellFormed = true := by simpa [NodeData.wellFormed] using hwf
          exact roundTrips_leaf leafValue ⟨priority, hpriorityWf⟩
            (hpriority.imp id fun hfree => hfree.getPriority_eq)
      | children dict priority =>
          have hdict := hasChildren hwf
          have hchildren : (∀ child ∈ dict, RoundTrips exp (depth + 1)
              ((⟨.children dict priority, hwf⟩ : FNode K (LeafValue D)).getImmediateChild child.1)) ↔
                StorableChildren exp (depth + 1) dict := by
            rw [storableChildren_iff]
            refine forall₂_congr fun child hchild => ?_
            have hkey : child.1 ≠ DatabaseKey.priority := fun heq =>
              hdict.priority (heq ▸ List.mem_map_of_mem hchild)
            rw [ih child.1 hkey (hdict.child_ne_empty child hchild)
              (hpriority.imp id fun hfree => hfree.getImmediateChild hkey), hdict.child child hchild]
          rw [Storable, ← hchildren]
          refine roundTrips_children hwf (hpriority.imp id fun hfree => ?_)
          exact congrArg FNode.data hfree.getPriority_eq

/-! ### Reading a node back -/

/-- What the node is converted to is read as the node, in whatever order entries come. -/
def ReadsBack (exp : Bool) (node : FNode K (LeafValue D)) : Prop :=
  ∃ value, node.val exp = .ok value ∧ ∀ value', SameValue value value' → nodeFrom 0 value' = some node

theorem readsBack_iff {exp : Bool} {node : FNode K (LeafValue D)} : ReadsBack exp node ↔ RoundTrips exp 0 node := by
  constructor
  · rintro ⟨value, hvalue, hread⟩
    exact ⟨value, hvalue, hread value (.refl value)⟩
  · rintro ⟨value, hvalue, hread⟩
    exact ⟨value, hvalue, fun value' hsame => hsame.nodeFrom 0 node hread⟩

/-- Without priorities. -/
theorem FNode.readsBack_val_iff (node : FNode K (LeafValue D)) (hfree : node.PriorityFree) :
    ReadsBack false node ↔ Storable false 0 node.data := by
  rw [readsBack_iff]
  exact roundTrips_iff node (Or.inr hfree)

end RoundTrips

section Examples

attribute [local instance] marksOnly

/-- A node with the same leaf below each of the keys. -/
def keyed (keys : List String) : FNode String (LeafValue Float) :=
  keys.foldl (fun node key => node.updateChild [key] (.leaf (.bool true) .empty)) .empty

theorem keyed_priorityFree {keys : List String} (hkeys : ".priority" ∉ keys) : (keyed keys).PriorityFree := by
  have hloop : ∀ node : FNode String (LeafValue Float), node.PriorityFree →
      (keys.foldl (fun node key => node.updateChild [key] (.leaf (.bool true) .empty)) node).PriorityFree := by
    induction keys with
    | nil => exact fun _ => id
    | cons key keys ih =>
        obtain ⟨hkey, hkeys⟩ := not_or.mp (mt List.mem_cons.mpr hkeys)
        refine fun node hnode => ih hkeys _ (hnode.updateChild (FNode.priorityFree_leaf _) ?_)
        exact mt List.mem_singleton.mp hkey
  exact hloop .empty FNode.priorityFree_empty

/-- An array with a gap -/
theorem FNode.readsBack_val_iff_gap : (keyed ["0", "2"]).PriorityFree ∧ ReadsBack false (keyed ["0", "2"]) := by
  have hfree : (keyed ["0", "2"]).PriorityFree := keyed_priorityFree (by decide)
  refine ⟨hfree, (FNode.readsBack_val_iff _ hfree).mpr ?_⟩
  refine ⟨by decide, ?_, fun _ _ => ?_, ?_, nofun, ⟨by decide, trivial, nofun⟩, ⟨by decide, trivial, nofun⟩, trivial⟩
  · show ScansKeys ["0".toList, "2".toList]
    simp only [ScansKeys]
    decide
  · decide
  · rintro (hexport | harray)
    · cases hexport
    · refine absurd ?_ harray
      show ∀ key ∈ ["0".toList, "2".toList], ∃ value ∈ scannedInteger key, value < 2 * 2
      decide

/-- A negative key is lost in the array. -/
theorem FNode.val_drops_negative_key :
    ¬∀ node : FNode String (LeafValue Float), node.PriorityFree → ReadsBack false node := by
  intro h
  obtain ⟨value, hvalue, hread⟩ := h (keyed ["-1", "0"]) (keyed_priorityFree (by decide))
  have harray : (keyed ["-1", "0"]).val false = .ok (.array [.bool true]) := rfl
  have hlost : nodeFrom 0 (.array [.bool true]) = some (keyed ["0"]) := rfl
  cases harray.symm.trans hvalue
  have hsame := Option.some.inj (hlost.symm.trans (hread _ (.refl _)))
  have hkeys := congrArg (fun node => (node.getImmediateChild "-1").isEmpty) hsame
  exact absurd hkeys (by decide)

end Examples

end FirebaseSwift.Database
