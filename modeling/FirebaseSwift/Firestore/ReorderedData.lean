import FirebaseSwift.Firestore.OrderedValues
import FirebaseSwift.Firestore.ParsedWrites

/-! The same data with the entries of its maps in another order. What is refused of it and what it adds to the field
mask are the same, and so are the transforms and the value, but for the order of the fields. -/

namespace FirebaseSwift.Firestore

open Value

variable {D : Type}

mutual

/-- No key is twice in a map, as in the dictionaries that the data comes from. -/
def BridgeFieldValue.Distinct : BridgeFieldValue D → Prop
  | .map entries => (entries.map Prod.fst).Nodup ∧ EntriesDistinct entries
  | .array elements => ElementsDistinct elements
  | .sentinelArrayUnion elements => ElementsDistinct elements
  | .sentinelArrayRemove elements => ElementsDistinct elements
  | _ => True

def EntriesDistinct : List (Bytes × BridgeFieldValue D) → Prop
  | [] => True
  | (_, value) :: entries => value.Distinct ∧ EntriesDistinct entries

def ElementsDistinct : List (BridgeFieldValue D) → Prop
  | [] => True
  | value :: elements => value.Distinct ∧ ElementsDistinct elements

end

mutual

/-- The same value with the entries of its maps in another order -/
def SameData : BridgeFieldValue D → BridgeFieldValue D → Prop
  | .map entries, .map entries' => ∃ middle, SameEntries entries middle ∧ middle.Perm entries'
  | .array elements, .array elements' => SameElements elements elements'
  | .sentinelArrayUnion elements, .sentinelArrayUnion elements' => SameElements elements elements'
  | .sentinelArrayRemove elements, .sentinelArrayRemove elements' => SameElements elements elements'
  | value, value' => value = value'

def SameEntries : List (Bytes × BridgeFieldValue D) → List (Bytes × BridgeFieldValue D) → Prop
  | [], entries' => entries' = []
  | (key, value) :: entries, entries' =>
      ∃ value' rest, entries' = (key, value') :: rest ∧ SameData value value' ∧ SameEntries entries rest

def SameElements : List (BridgeFieldValue D) → List (BridgeFieldValue D) → Prop
  | [], elements' => elements' = []
  | value :: elements, elements' =>
      ∃ value' rest, elements' = value' :: rest ∧ SameData value value' ∧ SameElements elements rest

end

/-! ### What the parser makes of it -/

/-- A transform with the fields of its elements in order -/
def TransformOperation.sorted : TransformOperation D → TransformOperation D
  | .arrayUnion elements => .arrayUnion (sortFieldsOfValues elements)
  | .arrayRemove elements => .arrayRemove (sortFieldsOfValues elements)
  | transformation => transformation

def FieldTransform.sorted (transform : FieldTransform D) : FieldTransform D :=
  ⟨transform.path, transform.transformation.sorted⟩

/-- The value without its sentinels, with the fields in order -/
def sortedValue (value : BridgeFieldValue D) : Option (Value D) := (withoutSentinels value).map sortFields

/-- The transforms of some parts, with the fields of their elements in order -/
def sortedTransforms (parts : List (Part D)) : List (FieldTransform D) :=
  (parts.filterMap partTransform).map FieldTransform.sorted

/-- The parser makes the same of lists of parts. -/
structure AlikeParts (first second : List (Part D)) : Prop where
  accepts : ∀ databaseId, (∀ part ∈ first, ¬Offends databaseId part) ↔ ∀ part ∈ second, ¬Offends databaseId part
  paths : (first.filterMap maskPath).Perm (second.filterMap maskPath)
  transforms : (sortedTransforms first).Perm (sortedTransforms second)

/-- The parser makes the same of two values. -/
structure Alike (value value' : BridgeFieldValue D) : Prop where
  isDelete : value = .sentinelDelete ↔ value' = .sentinelDelete
  parts : ∀ context, AlikeParts (parts context value) (parts context value')
  sorted : sortedValue value = sortedValue value'

namespace AlikeParts

variable {first second third fourth : List (Part D)}

theorem refl (parts : List (Part D)) : AlikeParts parts parts := ⟨fun _ => Iff.rfl, List.Perm.refl _, List.Perm.refl _⟩

theorem trans (h : AlikeParts first second) (h' : AlikeParts second third) : AlikeParts first third :=
  ⟨fun databaseId => (h.accepts databaseId).trans (h'.accepts databaseId), h.paths.trans h'.paths,
    h.transforms.trans h'.transforms⟩

theorem append (h : AlikeParts first second) (h' : AlikeParts third fourth) :
    AlikeParts (first ++ third) (second ++ fourth) := by
  refine ⟨fun databaseId => ?_, ?_, ?_⟩
  · rw [List.forall_mem_append, List.forall_mem_append, h.accepts databaseId, h'.accepts databaseId]
  · rw [List.filterMap_append, List.filterMap_append]
    exact h.paths.append h'.paths
  · rw [sortedTransforms, sortedTransforms, List.filterMap_append, List.filterMap_append, List.map_append,
      List.map_append]
    exact h.transforms.append h'.transforms

theorem of_perm (h : first.Perm second) : AlikeParts first second where
  accepts _ := forall_congr' fun part => by rw [h.mem_iff]
  paths := h.filterMap _
  transforms := (h.filterMap _).map _

/-- Two parts with what is inside of them -/
theorem cons {part part' : Part D} (h : AlikeParts first second)
    (haccepts : ∀ databaseId, Offends databaseId part ↔ Offends databaseId part')
    (hpath : maskPath part = maskPath part')
    (htransform : (partTransform part).map FieldTransform.sorted = (partTransform part').map FieldTransform.sorted) :
    AlikeParts (part :: first) (part' :: second) := by
  have hhead : AlikeParts [part] [part'] := by
    refine ⟨fun databaseId => ?_, ?_, ?_⟩
    · rw [List.forall_mem_singleton, List.forall_mem_singleton, haccepts databaseId]
    · rw [List.filterMap_cons, List.filterMap_cons, hpath]
    · have htransforms : sortedTransforms [part] = sortedTransforms [part'] := by
        rw [sortedTransforms, sortedTransforms, List.map_filterMap, List.map_filterMap, List.filterMap_cons,
          List.filterMap_cons, htransform]
      rw [htransforms]
  exact hhead.append h

end AlikeParts

theorem Alike.refl (value : BridgeFieldValue D) : Alike value value :=
  ⟨Iff.rfl, fun context => AlikeParts.refl (Firestore.parts context value), rfl⟩

/-! ### Maps and arrays -/

theorem partsOfEntries_eq_flatMap (context : ParseContext) (entries : List (Bytes × BridgeFieldValue D)) :
    partsOfEntries context entries = entries.flatMap fun entry => parts (context.field entry.1) entry.2 := by
  induction entries with
  | nil => rfl
  | cons entry entries ih => rw [partsOfEntries, ih, List.flatMap_cons]

variable (entries : List (Bytes × BridgeFieldValue D))

theorem sortFieldsOfEntries_without : sortFieldsOfEntries (fieldsWithoutSentinels entries) =
      entries.filterMap fun entry => (sortedValue entry.2).map fun parsed => (entry.1, parsed) := by
  induction entries with
  | nil => rfl
  | cons entry entries ih =>
      obtain ⟨key, value⟩ := entry
      rw [fieldsWithoutSentinels, List.filterMap_cons, ← ih, sortedValue]
      cases withoutSentinels value <;> rfl

/-- The parser makes the same of the entries of two maps. -/
structure AlikeEntries (entries entries' : List (Bytes × BridgeFieldValue D)) : Prop where
  keys : entries.map Prod.fst = entries'.map Prod.fst
  parts : ∀ context, AlikeParts (partsOfEntries context entries) (partsOfEntries context entries')
  sorted : sortFieldsOfEntries (fieldsWithoutSentinels entries) = sortFieldsOfEntries (fieldsWithoutSentinels entries')

/-- The parser makes the same of the elements of two arrays. -/
structure AlikeElements (elements elements' : List (BridgeFieldValue D)) : Prop where
  parts : ∀ context, AlikeParts (partsOfElements context elements) (partsOfElements context elements')
  sorted : sortFieldsOfValues (valuesWithoutSentinels elements) = sortFieldsOfValues (valuesWithoutSentinels elements')

theorem keys_sublist :
    ((sortFieldsOfEntries (fieldsWithoutSentinels entries)).map Prod.fst).Sublist (entries.map Prod.fst) := by
  induction entries with
  | nil => exact List.Sublist.refl _
  | cons entry entries ih =>
      obtain ⟨key, value⟩ := entry
      rw [fieldsWithoutSentinels]
      cases withoutSentinels value with
      | none => exact ih.cons key
      | some parsed => exact ih.cons_cons key

theorem sortedValue_map :
    sortedValue (.map entries) = some (.map (sortByKey (sortFieldsOfEntries (fieldsWithoutSentinels entries)))) := rfl

theorem allows_congr {context : ParseContext} {databaseId : DatabaseId} {entries entries' : List (Bytes × BridgeFieldValue D)}
    (h : (entries.map Prod.fst).Perm (entries'.map Prod.fst)) :
    Offends databaseId (context, .map entries) ↔ Offends databaseId (context, .map entries') := by
  have hkeys : ∀ entries : List (Bytes × BridgeFieldValue D), Offends databaseId (context, .map entries) ↔
      ∃ name ∈ entries.map Prod.fst, ¬context.Allows name := by
    intro entries
    simp only [Offends, List.mem_map, exists_exists_and_eq_and]
  rw [hkeys, hkeys]
  exact exists_congr fun name => by rw [h.mem_iff]

theorem AlikeEntries.map {entries middle entries' : List (Bytes × BridgeFieldValue D)} (h : AlikeEntries entries middle)
    (hperm : middle.Perm entries') (hdistinct : (entries.map Prod.fst).Nodup) : Alike (.map entries) (.map entries') := by
  have hkeys : (entries.map Prod.fst).Perm (entries'.map Prod.fst) := h.keys ▸ hperm.map Prod.fst
  refine ⟨iff_of_false nofun nofun, fun context => ?_, ?_⟩
  · have hbelow : AlikeParts (partsOfEntries context middle) (partsOfEntries context entries') := by
      rw [partsOfEntries_eq_flatMap, partsOfEntries_eq_flatMap]
      exact AlikeParts.of_perm (hperm.flatMap_right _)
    have hempty : entries.isEmpty = entries'.isEmpty := by
      rw [Bool.eq_iff_iff, List.isEmpty_iff_length_eq_zero, List.isEmpty_iff_length_eq_zero,
        ← List.length_map Prod.fst, hkeys.length_eq, List.length_map]
    rw [Firestore.parts, Firestore.parts]
    refine ((h.parts context).trans hbelow).cons (fun databaseId => allows_congr hkeys) ?_ ?_
    · rw [maskPath, maskPath, hempty]
    · rw [partTransform, partTransform]
      cases context.path <;> rfl
  · have hsorted : (sortFieldsOfEntries (fieldsWithoutSentinels entries)).Perm
        (sortFieldsOfEntries (fieldsWithoutSentinels entries')) := by
      rw [h.sorted, sortFieldsOfEntries_without, sortFieldsOfEntries_without]
      exact hperm.filterMap _
    rw [sortedValue_map, sortedValue_map, sortByKey_perm hsorted (hdistinct.sublist (keys_sublist entries))]

theorem AlikeElements.array {elements elements' : List (BridgeFieldValue D)} (h : AlikeElements elements elements') :
    Alike (.array elements) (.array elements') := by
  refine ⟨iff_of_false nofun nofun, fun context => ?_, ?_⟩
  · rw [Firestore.parts, Firestore.parts]
    refine (h.parts context.element).cons (fun databaseId => Iff.rfl) rfl ?_
    rw [partTransform, partTransform]
    cases context.path <;> rfl
  · exact congrArg (fun values => some (Value.array values)) h.sorted

/-- A transform with elements -/
theorem AlikeElements.transform {elements elements' : List (BridgeFieldValue D)} (h : AlikeElements elements elements') :
    Alike (.sentinelArrayUnion elements) (.sentinelArrayUnion elements') ∧
      Alike (.sentinelArrayRemove elements) (.sentinelArrayRemove elements') := by
  have hbelow := h.parts (ParseContext.root .argument).element
  constructor
  · refine ⟨iff_of_false nofun nofun, fun context => hbelow.cons (fun databaseId => Iff.rfl) rfl ?_, rfl⟩
    rw [partTransform, partTransform]
    cases context.path with
    | none => rfl
    | some path => exact congrArg (fun values => some (FieldTransform.mk path (.arrayUnion values))) h.sorted
  · refine ⟨iff_of_false nofun nofun, fun context => hbelow.cons (fun databaseId => Iff.rfl) rfl ?_, rfl⟩
    rw [partTransform, partTransform]
    cases context.path with
    | none => rfl
    | some path => exact congrArg (fun values => some (FieldTransform.mk path (.arrayRemove values))) h.sorted

theorem AlikeEntries.cons {key : Bytes} {value value' : BridgeFieldValue D}
    {entries entries' : List (Bytes × BridgeFieldValue D)} (hvalue : Alike value value') (h : AlikeEntries entries entries') :
    AlikeEntries ((key, value) :: entries) ((key, value') :: entries') where
  keys := congrArg (key :: ·) h.keys
  parts context := (hvalue.parts (context.field key)).append (h.parts context)
  sorted := by
    have hsorted := h.sorted
    rw [sortFieldsOfEntries_without, sortFieldsOfEntries_without] at hsorted ⊢
    rw [List.filterMap_cons, List.filterMap_cons, hvalue.sorted, hsorted]

theorem AlikeElements.cons {value value' : BridgeFieldValue D} {elements elements' : List (BridgeFieldValue D)}
    (hvalue : Alike value value') (h : AlikeElements elements elements') :
    AlikeElements (value :: elements) (value' :: elements') where
  parts context := (hvalue.parts context).append (h.parts context)
  sorted := by
    have hnull : ∀ value : BridgeFieldValue D,
        sortFields ((withoutSentinels value).getD .null) = (sortedValue value).getD .null := by
      intro value
      rw [sortedValue]
      cases withoutSentinels value <;> rfl
    rw [valuesWithoutSentinels, valuesWithoutSentinels, sortFieldsOfValues, sortFieldsOfValues, h.sorted, hnull, hnull,
      hvalue.sorted]

mutual

/-- The order of the entries does not count. -/
theorem alike_of_same : ∀ {value value' : BridgeFieldValue D}, SameData value value' → value.Distinct → Alike value value'
  | .map entries, value', hsame, hdistinct => by
      cases value' with
      | map entries' =>
          obtain ⟨middle, hsame, hperm⟩ := hsame
          exact (alikeEntries_of_same hsame hdistinct.2).map hperm hdistinct.1
      | _ => cases hsame
  | .array elements, value', hsame, hdistinct => by
      cases value' with
      | array elements' => exact (alikeElements_of_same hsame hdistinct).array
      | _ => cases hsame
  | .sentinelArrayUnion elements, value', hsame, hdistinct => by
      cases value' with
      | sentinelArrayUnion elements' => exact (alikeElements_of_same hsame hdistinct).transform.1
      | _ => cases hsame
  | .sentinelArrayRemove elements, value', hsame, hdistinct => by
      cases value' with
      | sentinelArrayRemove elements' => exact (alikeElements_of_same hsame hdistinct).transform.2
      | _ => cases hsame
  | .null, _, hsame, _ | .boolean _, _, hsame, _ | .integer _, _, hsame, _ | .double _, _, hsame, _
  | .string _, _, hsame, _ | .blob _, _, hsame, _ | .timestamp _ _, _, hsame, _ | .geoPoint _ _, _, hsame, _
  | .reference _ _, _, hsame, _ | .unsupported _, _, hsame, _ | .minKey, _, hsame, _ | .maxKey, _, hsame, _
  | .regex _ _, _, hsame, _ | .int32 _, _, hsame, _ | .decimal128 _, _, hsame, _ | .bsonObjectId _, _, hsame, _
  | .bsonTimestamp _ _, _, hsame, _ | .bsonBinaryData _ _, _, hsame, _ | .vector _, _, hsame, _
  | .sentinelDelete, _, hsame, _ | .sentinelServerTimestamp, _, hsame, _ | .sentinelIncrement _, _, hsame, _
  | .sentinelMinimum _, _, hsame, _ | .sentinelMaximum _, _, hsame, _ => by
      cases hsame
      exact Alike.refl _

theorem alikeEntries_of_same : ∀ {entries entries' : List (Bytes × BridgeFieldValue D)}, SameEntries entries entries' →
    EntriesDistinct entries → AlikeEntries entries entries'
  | [], _, hsame, _ => by
      cases hsame
      exact ⟨rfl, fun context => AlikeParts.refl _, rfl⟩
  | (_, _) :: _, _, ⟨_, _, heq, hvalue, hrest⟩, hdistinct => by
      rw [heq]
      exact (alikeEntries_of_same hrest hdistinct.2).cons (alike_of_same hvalue hdistinct.1)

theorem alikeElements_of_same : ∀ {elements elements' : List (BridgeFieldValue D)}, SameElements elements elements' →
    ElementsDistinct elements → AlikeElements elements elements'
  | [], _, hsame, _ => by
      cases hsame
      exact ⟨fun context => AlikeParts.refl _, rfl⟩
  | _ :: _, _, ⟨_, _, heq, hvalue, hrest⟩, hdistinct => by
      rw [heq]
      exact (alikeElements_of_same hrest hdistinct.2).cons (alike_of_same hvalue hdistinct.1)

end

mutual

theorem sameData_refl : ∀ value : BridgeFieldValue D, SameData value value
  | .map entries => ⟨entries, sameEntries_refl entries, List.Perm.refl _⟩
  | .array elements | .sentinelArrayUnion elements | .sentinelArrayRemove elements => sameElements_refl elements
  | .null | .boolean _ | .integer _ | .double _ | .string _ | .blob _ | .timestamp _ _ | .geoPoint _ _
  | .reference _ _ | .unsupported _ | .minKey | .maxKey | .regex _ _ | .int32 _ | .decimal128 _
  | .bsonObjectId _ | .bsonTimestamp _ _ | .bsonBinaryData _ _ | .vector _ | .sentinelDelete
  | .sentinelServerTimestamp | .sentinelIncrement _ | .sentinelMinimum _ | .sentinelMaximum _ => rfl

theorem sameEntries_refl : ∀ entries : List (Bytes × BridgeFieldValue D), SameEntries entries entries
  | [] => rfl
  | (_, value) :: entries => ⟨value, entries, rfl, sameData_refl value, sameEntries_refl entries⟩

theorem sameElements_refl : ∀ elements : List (BridgeFieldValue D), SameElements elements elements
  | [] => rfl
  | value :: elements => ⟨value, elements, rfl, sameData_refl value, sameElements_refl elements⟩

end

/-! ### The order of the fields of the value -/

theorem distinct_singleFieldMap {key : Bytes} {value : Value D} (h : value.Distinct) : (singleFieldMap key value).Distinct :=
  ⟨List.nodup_singleton key, h, trivial⟩

theorem distinct_pair {first second : Bytes} (h : first ≠ second) {value other : Value D} (hvalue : value.Distinct)
    (hother : other.Distinct) : (Value.map [(first, value), (second, other)]).Distinct :=
  ⟨List.nodup_cons.mpr ⟨fun hmem => h (List.mem_singleton.mp hmem), List.nodup_singleton second⟩, hvalue, hother, trivial⟩

theorem distinct_scalarValue {value : BridgeFieldValue D} {scalar : Value D} (h : scalarValue value = some scalar) :
    scalar.Distinct := by
  cases value with
  | vector doubles =>
      cases h
      exact distinct_pair (by decide) trivial trivial
  | minKey | maxKey | int32 _ | decimal128 _ | bsonObjectId _ =>
      cases h
      exact distinct_singleFieldMap trivial
  | regex pattern options =>
      cases h
      exact distinct_singleFieldMap (distinct_pair (by decide) trivial trivial)
  | bsonTimestamp seconds increment =>
      cases h
      exact distinct_singleFieldMap (distinct_pair (by decide) trivial trivial)
  | bsonBinaryData subtype bytes =>
      cases h
      split_ifs
      · exact trivial
      · exact distinct_singleFieldMap trivial
  | null | boolean _ | integer _ | double _ | string _ | blob _ | timestamp _ _ | geoPoint _ _ =>
      cases h
      exact trivial
  | array _ | map _ | reference _ _ | unsupported _ | sentinelDelete | sentinelServerTimestamp
  | sentinelArrayUnion _ | sentinelArrayRemove _ | sentinelIncrement _ | sentinelMinimum _ | sentinelMaximum _ =>
      cases h

theorem map_fst_sortFieldsOfEntries (fields : List (Bytes × Value D)) :
    (sortFieldsOfEntries fields).map Prod.fst = fields.map Prod.fst := by
  rw [sortFieldsOfEntries_eq_map, List.map_map]
  rfl

mutual

theorem distinct_withoutSentinels : ∀ (value : BridgeFieldValue D) {parsed : Value D}, value.Distinct →
    withoutSentinels value = some parsed → parsed.Distinct
  | .map entries, _, hdistinct, h => by
      cases h
      refine ⟨?_, distinct_fieldsWithoutSentinels entries hdistinct.2⟩
      rw [← map_fst_sortFieldsOfEntries]
      exact hdistinct.1.sublist (keys_sublist entries)
  | .array _, _, _, h | .reference _ _, _, _, h | .unsupported _, _, _, h => by
      cases h
      exact trivial
  | .null, _, _, h | .boolean _, _, _, h | .integer _, _, _, h | .double _, _, _, h | .string _, _, _, h
  | .blob _, _, _, h | .timestamp _ _, _, _, h | .geoPoint _ _, _, _, h | .minKey, _, _, h | .maxKey, _, _, h
  | .regex _ _, _, _, h | .int32 _, _, _, h | .decimal128 _, _, _, h | .bsonObjectId _, _, _, h
  | .bsonTimestamp _ _, _, _, h | .bsonBinaryData _ _, _, _, h | .vector _, _, _, h | .sentinelDelete, _, _, h
  | .sentinelServerTimestamp, _, _, h | .sentinelArrayUnion _, _, _, h | .sentinelArrayRemove _, _, _, h
  | .sentinelIncrement _, _, _, h | .sentinelMinimum _, _, _, h | .sentinelMaximum _, _, _, h => by
      simp only [withoutSentinels] at h
      exact distinct_scalarValue h

theorem distinct_fieldsWithoutSentinels : ∀ entries : List (Bytes × BridgeFieldValue D), EntriesDistinct entries →
    FieldsDistinct (fieldsWithoutSentinels entries)
  | [], _ => trivial
  | (_, value) :: entries, hdistinct => by
      rw [fieldsWithoutSentinels]
      cases hparsed : withoutSentinels value with
      | none => exact distinct_fieldsWithoutSentinels entries hdistinct.2
      | some parsed =>
          exact ⟨distinct_withoutSentinels value hdistinct.1 hparsed, distinct_fieldsWithoutSentinels entries hdistinct.2⟩

end

theorem ordered_sortedValue {value : BridgeFieldValue D} (hdistinct : value.Distinct) : OrderedSource (sortedValue value) := by
  intro parsed hparsed
  obtain ⟨stripped, hstripped, rfl⟩ := Option.map_eq_some_iff.mp hparsed
  exact (distinct_withoutSentinels value hdistinct hstripped).ordered

end FirebaseSwift.Firestore
