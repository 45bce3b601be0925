import FirebaseSwift.Firestore.FieldMasks
import FirebaseSwift.Firestore.ObjectValues
import FirebaseSwift.Library.SortedDictionary

/-! Values whose maps are dictionaries in the order of their keys. Setting a value at a path is replacing it there,
level by level, so that values at paths aside of each other are set in any order, and a value above others
makes those before it disappear. -/

namespace FirebaseSwift.Firestore

open SortedDictionary ObjectValue

variable {D : Type}

mutual

/-- The fields of every map are in the order of their keys. Arrays are not looked into. -/
def Value.Ordered : Value D → Prop
  | .map fields => Sorted (· < ·) fields ∧ FieldsOrdered fields
  | _ => True

def FieldsOrdered : List (Bytes × Value D) → Prop
  | [] => True
  | (_, value) :: fields => value.Ordered ∧ FieldsOrdered fields

end

theorem fieldsOrdered_iff {fields : List (Bytes × Value D)} : FieldsOrdered fields ↔ ∀ field ∈ fields, field.2.Ordered := by
  induction fields with
  | nil => exact iff_of_true trivial fun _ h => absurd h List.not_mem_nil
  | cons field fields ih => rw [List.forall_mem_cons, FieldsOrdered, ih]

/-! ### Replacing a value -/

/-- The value at a path -/
def getAt : FieldPath → Value D → Option (Value D)
  | [], value => some value
  | segment :: path, value => (get segment (mapFields value)).bind (getAt path)

/-- The fields of a value, or none -/
def fieldsOf (source : Option (Value D)) : List (Bytes × Value D) := (source.map mapFields).getD []

/-- A value with another at a path in it. Where there is no map, there is an empty one first. -/
def replaceAt (value : Value D) : FieldPath → Option (Value D) → Value D
  | [], _ => value
  | segment :: path, source =>
      .map (set (· < ·) segment (replaceAt value path (get segment (fieldsOf source))) (fieldsOf source))

/-- Ordered, if there is a value -/
def OrderedSource (source : Option (Value D)) : Prop := ∀ value ∈ source, value.Ordered

section Replacing

variable {value other : Value D} {source : Option (Value D)} {path rest : FieldPath}

theorem ordered_mapFields (h : value.Ordered) : Sorted (· < ·) (mapFields value) ∧ FieldsOrdered (mapFields value) := by
  cases value with
  | map fields => exact h
  | _ => exact ⟨List.Pairwise.nil, trivial⟩

theorem OrderedSource.fieldsOf (h : OrderedSource source) :
    Sorted (· < ·) (fieldsOf source) ∧ FieldsOrdered (fieldsOf source) := by
  cases source with
  | none => exact ⟨List.Pairwise.nil, trivial⟩
  | some value => exact ordered_mapFields (h value rfl)

theorem OrderedSource.get (h : OrderedSource source) (segment : Bytes) :
    OrderedSource (get segment (Firestore.fieldsOf source)) := fun value hvalue =>
  fieldsOrdered_iff.mp h.fieldsOf.2 (segment, value) (mem_of_get hvalue)

theorem ordered_replaceAt (hvalue : value.Ordered) (h : OrderedSource source) : (replaceAt value path source).Ordered := by
  induction path generalizing source with
  | nil => exact hvalue
  | cons segment path ih =>
      refine ⟨h.fieldsOf.1.set _ segment _, fieldsOrdered_iff.mpr fun field hfield => ?_⟩
      rcases mem_set _ hfield with rfl | hfield
      · exact ih (h.get segment)
      · exact fieldsOrdered_iff.mp h.fieldsOf.2 field hfield

theorem getAt_replaceAt (value : Value D) (path : FieldPath) (source : Option (Value D)) :
    getAt path (replaceAt value path source) = some value := by
  induction path generalizing source with
  | nil => rfl
  | cons segment path ih =>
      rw [replaceAt, getAt, mapFields, get_set_self, Option.bind_some, ih]

theorem getAt_append (path rest : FieldPath) (value : Value D) :
    getAt (path ++ rest) value = (getAt path value).bind (getAt rest) := by
  induction path generalizing value with
  | nil => rfl
  | cons segment path ih =>
      rw [List.cons_append, getAt, getAt, Option.bind_assoc]
      exact congrArg _ (funext ih)

/-- What was set below is gone. -/
theorem replaceAt_below (value other : Value D) (path rest : FieldPath) (source : Option (Value D)) :
    replaceAt value path (some (replaceAt other (path ++ rest) source)) = replaceAt value path source := by
  induction path generalizing source with
  | nil => rfl
  | cons segment path ih =>
      have hfields : fieldsOf (some (replaceAt other (segment :: (path ++ rest)) source)) =
          set (· < ·) segment (replaceAt other (path ++ rest) (get segment (fieldsOf source))) (fieldsOf source) := rfl
      rw [List.cons_append, replaceAt, hfields, get_set_self, set_set, ih, replaceAt]

/-- Setting the value that is there changes nothing. -/
theorem replaceAt_getAt (h : value.Ordered) (hget : getAt path value = some other) :
    replaceAt other path (some value) = value := by
  induction path generalizing value with
  | nil => exact (Option.some.inj hget).symm
  | cons segment path ih =>
      obtain ⟨inner, hinner, hget⟩ := Option.bind_eq_some_iff.mp hget
      have hfields : fieldsOf (some value) = mapFields value := rfl
      obtain ⟨hsorted, hordered⟩ := ordered_mapFields h
      rw [replaceAt, hfields, hinner, ih (fieldsOrdered_iff.mp hordered _ (mem_of_get hinner)) hget,
        hsorted.set_get hinner]
      cases value with
      | map fields => rfl
      | _ => cases hinner

/-- What is set below a value that has it there already changes nothing. -/
theorem replaceAt_above (h : value.Ordered) (hget : getAt rest value = some other) (path : FieldPath)
    (source : Option (Value D)) :
    replaceAt other (path ++ rest) (some (replaceAt value path source)) = replaceAt value path source := by
  induction path generalizing source with
  | nil => exact replaceAt_getAt h hget
  | cons segment path ih =>
      have hfields : fieldsOf (some (replaceAt value (segment :: path) source)) =
          set (· < ·) segment (replaceAt value path (get segment (fieldsOf source))) (fieldsOf source) := rfl
      rw [List.cons_append, replaceAt, hfields, get_set_self, set_set, ih, replaceAt]

/-- Values at paths aside of each other are set in any order. -/
theorem replaceAt_aside {path' : FieldPath} (h : OrderedSource source) (hpath : ¬path <+: path') (hpath' : ¬path' <+: path)
    (value other : Value D) :
    replaceAt value path (some (replaceAt other path' source)) = replaceAt other path' (some (replaceAt value path source)) := by
  induction path generalizing path' source with
  | nil => exact absurd List.nil_prefix hpath
  | cons segment path ih =>
      cases path' with
      | nil => exact absurd List.nil_prefix hpath'
      | cons segment' path' =>
          have hfields : ∀ (value : Value D) segment path, fieldsOf (some (replaceAt value (segment :: path) source)) =
              set (· < ·) segment (replaceAt value path (get segment (fieldsOf source))) (fieldsOf source) :=
            fun _ _ _ => rfl
          rw [replaceAt, hfields, replaceAt, hfields]
          by_cases hsegment : segment = segment'
          · subst hsegment
            have hbelow := ih (h.get segment) (fun hprefix => hpath (List.cons_prefix_cons.mpr ⟨rfl, hprefix⟩))
              fun hprefix => hpath' (List.cons_prefix_cons.mpr ⟨rfl, hprefix⟩)
            rw [get_set_self, get_set_self, set_set, set_set, hbelow]
          · rw [get_set_of_ne _ hsegment, get_set_of_ne _ (Ne.symm hsegment), h.fieldsOf.1.set_comm hsegment]

end Replacing

/-! ### Setting a value in an object -/

theorem applyChange_eq_set (key : Bytes) (value : Value D) (fields : List (Bytes × Value D)) :
    applyChange key value fields = set (· < ·) key (Value.sortFields value) fields := by
  induction fields with
  | nil => rfl
  | cons field fields ih =>
      obtain ⟨sourceKey, source⟩ := field
      rw [applyChange, SortedDictionary.set, ih]
      rcases lt_trichotomy key sourceKey with h | rfl | h
      · rw [if_neg h.ne, if_neg h.asymm, if_neg h.ne', if_pos h]
      · rw [if_pos rfl, if_pos rfl]
      · rw [if_neg h.ne', if_pos h, if_neg h.ne, if_neg h.asymm]

variable {fields : List (Bytes × Value D)}

theorem any_key_iff {key : Bytes} : fields.any (·.1 == key) = true ↔ get key fields ≠ none := by
  rw [← mem_keys_iff, List.any_eq_true, List.mem_map]
  simp only [beq_iff_eq]

theorem modifyEntry_eq_set {key : Bytes} (h : Sorted (· < ·) fields) {value : Value D}
    (hget : get key fields = some value) (f : Value D → Value D) :
    modifyEntry key f fields = set (· < ·) key (f value) fields := by
  induction fields with
  | nil => cases hget
  | cons field fields ih =>
      obtain ⟨sourceKey, source⟩ := field
      obtain ⟨hhead, htail⟩ := List.pairwise_cons.mp h
      rw [get_cons] at hget
      rw [modifyEntry, SortedDictionary.set]
      split_ifs at hget ⊢ with heq hlt
      · cases hget
        rw [heq]
      · -- The entry comes later, and the keys are in order.
        exact absurd hlt (hhead _ (mem_of_get hget)).asymm
      · rw [ih htail hget]

/-- Setting a value at a path replaces it there. -/
theorem map_setAt {path : FieldPath} (hpath : path ≠ []) (h : (Value.map fields).Ordered) (value : Value D) :
    .map (setAt path value fields) = replaceAt (Value.sortFields value) path (some (.map fields)) := by
  induction path, value, fields using setAt.induct with
  | case1 value fields => exact absurd rfl hpath
  | case2 last value fields =>
      rw [setAt, applyChange_eq_set]
      rfl
  | case3 segment next path value fields ih =>
      have hfields : fieldsOf (some (.map fields)) = fields := rfl
      have hempty : Value.sortFields (.map [] : Value D) = .map [] := rfl
      rw [setAt, replaceAt, hfields]
      cases hget : get segment fields with
      | none =>
          have hnone : ¬(fields.any fun field => field.1 == segment) = true := fun hany => any_key_iff.mp hany hget
          have hsource : ((Value.map []) : Value D).Ordered := ⟨List.Pairwise.nil, trivial⟩
          rw [if_neg hnone, applyChange_eq_set, hempty,
            modifyEntry_eq_set (h.1.set _ segment _) (get_set_self _ segment _ fields), set_set,
            ih (.map []) nofun hsource]
          rfl
      | some source =>
          have hany : (fields.any fun field => field.1 == segment) = true := any_key_iff.mpr (hget ▸ nofun)
          have hsource := ordered_mapFields (fieldsOrdered_iff.mp h.2 _ (mem_of_get hget))
          rw [if_pos hany, modifyEntry_eq_set h.1 hget, ih source nofun hsource]
          rfl

/-! ### Sorting the fields -/

mutual

/-- No key is twice in a map. Arrays are not looked into. -/
def Value.Distinct : Value D → Prop
  | .map fields => (fields.map Prod.fst).Nodup ∧ FieldsDistinct fields
  | _ => True

def FieldsDistinct : List (Bytes × Value D) → Prop
  | [] => True
  | (_, value) :: fields => value.Distinct ∧ FieldsDistinct fields

end

namespace Value

theorem sortFieldsOfEntries_eq_map (fields : List (Bytes × Value D)) :
    sortFieldsOfEntries fields = fields.map fun field => (field.1, sortFields field.2) := by
  induction fields with
  | nil => rfl
  | cons field fields ih => rw [sortFieldsOfEntries, ih, List.map_cons]

theorem sorted_sortByKey {fields : List (Bytes × Value D)} (h : (fields.map Prod.fst).Nodup) :
    Sorted (· < ·) (sortByKey fields) := by
  have hperm : (sortByKey fields).Perm fields := List.perm_insertionSort _ fields
  have hle : (sortByKey fields).Pairwise fun field field' => field.1 ≤ field'.1 := List.pairwise_insertionSort _ fields
  have hne : (sortByKey fields).Pairwise fun field field' => field.1 ≠ field'.1 :=
    List.pairwise_map.mp ((hperm.map Prod.fst).nodup_iff.mpr h)
  exact (hle.and hne).imp fun hboth => lt_of_le_of_ne hboth.1 hboth.2

theorem sortByKey_perm {fields fields' : List (Bytes × Value D)} (hperm : fields.Perm fields')
    (h : (fields.map Prod.fst).Nodup) : sortByKey fields = sortByKey fields' := by
  refine (sorted_sortByKey h).eq_of_perm (sorted_sortByKey ((hperm.map Prod.fst).nodup_iff.mp h)) ?_
  exact (List.perm_insertionSort _ fields).trans (hperm.trans (List.perm_insertionSort _ fields').symm)

mutual

theorem Distinct.ordered : ∀ {value : Value D}, value.Distinct → (sortFields value).Ordered
  | .map fields, h => by
      have hfields := FieldsDistinct.ordered h.2
      rw [sortFields]
      refine ⟨sorted_sortByKey ?_, fieldsOrdered_iff.mpr fun field hfield => ?_⟩
      · rw [sortFieldsOfEntries_eq_map, List.map_map]
        exact h.1
      · exact fieldsOrdered_iff.mp hfields field ((List.mem_insertionSort _).mp hfield)
  | .array _, _ | .unset, _ | .null, _ | .boolean _, _ | .integer _, _ | .double _, _ | .timestamp _ _, _
  | .string _, _ | .bytes _, _ | .reference _, _ | .geoPoint _ _, _ => trivial

theorem FieldsDistinct.ordered : ∀ {fields : List (Bytes × Value D)}, FieldsDistinct fields →
    FieldsOrdered (sortFieldsOfEntries fields)
  | [], _ => trivial
  | (_, _) :: _, h => ⟨h.1.ordered, FieldsDistinct.ordered h.2⟩

end

end Value

end FirebaseSwift.Firestore
