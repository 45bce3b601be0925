import FirebaseSwift.Firestore.ParsedData

/-! Values in which everything is set, at every depth. The values that are parsed are filled, and they stay
so in the data of a document. -/

namespace FirebaseSwift.Firestore

open Value

variable {D : Type}

mutual

/-- Whether no value in a value is unset. -/
def Value.IsFilled : Value D → Prop
  | .unset => False
  | .map fields => FieldsFilled fields
  | .array values => ValuesFilled values
  | _ => True

def FieldsFilled : List (Bytes × Value D) → Prop
  | [] => True
  | (_, value) :: fields => value.IsFilled ∧ FieldsFilled fields

def ValuesFilled : List (Value D) → Prop
  | [] => True
  | value :: values => value.IsFilled ∧ ValuesFilled values

end

theorem fieldsFilled_iff {fields : List (Bytes × Value D)} : FieldsFilled fields ↔ ∀ field ∈ fields, field.2.IsFilled := by
  induction fields with
  | nil => exact iff_of_true trivial fun _ h => absurd h List.not_mem_nil
  | cons field fields ih => rw [FieldsFilled, ih, List.forall_mem_cons]

theorem valuesFilled_iff {values : List (Value D)} : ValuesFilled values ↔ ∀ value ∈ values, value.IsFilled := by
  induction values with
  | nil => exact iff_of_true trivial fun _ h => absurd h List.not_mem_nil
  | cons value values ih => rw [ValuesFilled, ih, List.forall_mem_cons]

/-! ### Parsed values -/

theorem isFilled_scalarValue {value : BridgeFieldValue D} {scalar : Value D} (h : scalarValue value = some scalar) :
    scalar.IsFilled := by
  cases value with
  | vector doubles =>
      cases h
      refine ⟨trivial, valuesFilled_iff.mpr fun value hvalue => ?_, trivial⟩
      obtain ⟨_, -, rfl⟩ := List.mem_map.mp hvalue
      exact trivial
  | bsonBinaryData subtype bytes =>
      cases h
      split_ifs
      · exact trivial
      · exact ⟨trivial, trivial⟩
  | regex pattern options =>
      cases h
      exact ⟨⟨trivial, trivial, trivial⟩, trivial⟩
  | bsonTimestamp seconds increment =>
      cases h
      exact ⟨⟨trivial, trivial, trivial⟩, trivial⟩
  | minKey | maxKey | int32 _ | decimal128 _ | bsonObjectId _ =>
      cases h
      exact ⟨trivial, trivial⟩
  | null | boolean _ | integer _ | double _ | string _ | blob _ | timestamp _ _ | geoPoint _ _ =>
      cases h
      exact trivial
  | array _ | map _ | reference _ _ | unsupported _ | sentinelDelete | sentinelServerTimestamp
  | sentinelArrayUnion _ | sentinelArrayRemove _ | sentinelIncrement _ | sentinelMinimum _ | sentinelMaximum _ =>
      cases h

mutual

theorem isFilled_withoutSentinels : ∀ (value : BridgeFieldValue D) {parsed : Value D},
    withoutSentinels value = some parsed → parsed.IsFilled
  | .map entries, _, h => by
      cases h
      exact fieldsFilled_withoutSentinels entries
  | .array elements, _, h => by
      cases h
      exact valuesFilled_withoutSentinels elements
  | .reference _ _, _, h | .unsupported _, _, h => by
      cases h
      exact trivial
  | .null, _, h | .boolean _, _, h | .integer _, _, h | .double _, _, h | .string _, _, h | .blob _, _, h
  | .timestamp _ _, _, h | .geoPoint _ _, _, h | .minKey, _, h | .maxKey, _, h | .regex _ _, _, h | .int32 _, _, h
  | .decimal128 _, _, h | .bsonObjectId _, _, h | .bsonTimestamp _ _, _, h | .bsonBinaryData _ _, _, h
  | .vector _, _, h | .sentinelDelete, _, h | .sentinelServerTimestamp, _, h | .sentinelArrayUnion _, _, h
  | .sentinelArrayRemove _, _, h | .sentinelIncrement _, _, h | .sentinelMinimum _, _, h
  | .sentinelMaximum _, _, h => by
      simp only [withoutSentinels] at h
      exact isFilled_scalarValue h

theorem fieldsFilled_withoutSentinels : ∀ entries : List (Bytes × BridgeFieldValue D),
    FieldsFilled (fieldsWithoutSentinels entries)
  | [] => trivial
  | (key, value) :: entries => by
      rw [fieldsWithoutSentinels]
      cases hparsed : withoutSentinels value with
      | none => exact fieldsFilled_withoutSentinels entries
      | some parsed => exact ⟨isFilled_withoutSentinels value hparsed, fieldsFilled_withoutSentinels entries⟩

theorem valuesFilled_withoutSentinels : ∀ elements : List (BridgeFieldValue D),
    ValuesFilled (valuesWithoutSentinels elements)
  | [] => trivial
  | value :: elements => by
      rw [valuesWithoutSentinels]
      refine ⟨?_, valuesFilled_withoutSentinels elements⟩
      cases hparsed : withoutSentinels value with
      | none => exact trivial
      | some parsed => exact isFilled_withoutSentinels value hparsed

end

/-! ### Transforms -/

def TransformOperation.IsFilled : TransformOperation D → Prop
  | .serverTimestamp => True
  | .arrayUnion elements => ValuesFilled elements
  | .arrayRemove elements => ValuesFilled elements
  | .numericIncrement operand => operand.IsFilled
  | .numericMinimum operand => operand.IsFilled
  | .numericMaximum operand => operand.IsFilled

theorem isFilled_operand (operand : NumericOperand D) : operand.value.IsFilled := by
  cases operand <;> exact trivial

theorem isFilled_partTransform {part : Part D} {transform : FieldTransform D} (h : partTransform part = some transform) :
    transform.transformation.IsFilled := by
  obtain ⟨context, value⟩ := part
  obtain ⟨path, -, h⟩ := Option.bind_eq_some_iff.mp h
  obtain ⟨operation, hoperation, h⟩ := Option.bind_eq_some_iff.mp h
  cases h
  dsimp only
  cases value with
  | sentinelServerTimestamp =>
      cases hoperation
      exact trivial
  | sentinelArrayUnion elements | sentinelArrayRemove elements =>
      cases hoperation
      exact valuesFilled_withoutSentinels elements
  | sentinelIncrement operand | sentinelMinimum operand | sentinelMaximum operand =>
      cases hoperation
      exact isFilled_operand operand
  | _ => cases hoperation

/-! ### The data of a document -/

mutual

theorem Value.IsFilled.sortFields : ∀ {value : Value D}, value.IsFilled → (sortFields value).IsFilled
  | .map fields, h => by
      have hfields := fieldsFilled_iff.mp (FieldsFilled.sortFieldsOfEntries h)
      rw [Value.sortFields]
      exact fieldsFilled_iff.mpr fun field hfield => hfields field ((List.mem_insertionSort _).mp hfield)
  | .array _, h => ValuesFilled.sortFieldsOfValues h
  | .null, h | .boolean _, h | .integer _, h | .double _, h | .timestamp _ _, h | .string _, h | .bytes _, h
  | .reference _, h | .geoPoint _ _, h => h

theorem FieldsFilled.sortFieldsOfEntries : ∀ {fields : List (Bytes × Value D)}, FieldsFilled fields →
    FieldsFilled (Value.sortFieldsOfEntries fields)
  | [], h => h
  | (_, _) :: _, h => ⟨h.1.sortFields, h.2.sortFieldsOfEntries⟩

theorem ValuesFilled.sortFieldsOfValues : ∀ {values : List (Value D)}, ValuesFilled values →
    ValuesFilled (Value.sortFieldsOfValues values)
  | [], h => h
  | _ :: _, h => ⟨h.1.sortFields, h.2.sortFieldsOfValues⟩

end

namespace ObjectValue

variable {fields : List (Bytes × Value D)} {value : Value D}

theorem fieldsFilled_ofValue (h : FieldsFilled fields) {object : ObjectValue D}
    (hobject : ofValue (.map fields) = some object) : FieldsFilled object.fields := by
  cases hobject
  have hmap : (Value.map fields).IsFilled := h
  exact hmap.sortFields

theorem fieldsFilled_applyChange {key : Bytes} (h : value.IsFilled) (hfields : FieldsFilled fields) :
    FieldsFilled (applyChange key value fields) := by
  induction fields with
  | nil => exact ⟨h.sortFields, trivial⟩
  | cons field fields ih =>
      rw [applyChange]
      split_ifs
      · exact ⟨h.sortFields, hfields.2⟩
      · exact ⟨hfields.1, ih hfields.2⟩
      · exact ⟨h.sortFields, hfields⟩

theorem fieldsFilled_modifyEntry {key : Bytes} {f : Value D → Value D}
    (hf : ∀ value, value.IsFilled → (f value).IsFilled) (hfields : FieldsFilled fields) :
    FieldsFilled (modifyEntry key f fields) := by
  induction fields with
  | nil => exact trivial
  | cons field fields ih =>
      rw [modifyEntry]
      split_ifs
      · exact ⟨hf _ hfields.1, hfields.2⟩
      · exact ⟨hfields.1, ih hfields.2⟩

theorem fieldsFilled_mapFields (h : value.IsFilled) : FieldsFilled (mapFields value) := by
  cases value with
  | map fields => exact h
  | _ => exact trivial

theorem fieldsFilled_setAt {path : FieldPath} (h : value.IsFilled) (hfields : FieldsFilled fields) :
    FieldsFilled (setAt path value fields) := by
  induction path, value, fields using setAt.induct with
  | case1 value fields => exact hfields
  | case2 last value fields => exact fieldsFilled_applyChange h hfields
  | case3 segment next path value fields ih =>
      have hchange : ∀ source : Value D, source.IsFilled →
          (Value.map (setAt (next :: path) value (mapFields source))).IsFilled := fun source hsource =>
        ih source h (fieldsFilled_mapFields hsource)
      have hempty : (Value.map [] : Value D).IsFilled := trivial
      rw [setAt]
      refine fieldsFilled_modifyEntry hchange ?_
      split_ifs
      · exact hfields
      · exact fieldsFilled_applyChange hempty hfields

end ObjectValue

end FirebaseSwift.Firestore
