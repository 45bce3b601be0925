import FirebaseSwift.Firestore.ParseEffects

/-! What the parser makes of a value. The parts of the value, each with its context, say what is refused,
which paths go to the field mask and which transforms are collected. The result is the value without its
sentinels, and every array that was made is filled. -/

namespace FirebaseSwift.Firestore

open ComparedSets ParseContext

variable {D : Type}

/-! ### The parts of a value -/

/-- A value inside of a value, or the value itself, with its context -/
abbrev Part (D : Type) := ParseContext × BridgeFieldValue D

mutual

/-- All parts of a value, in the order in which they are parsed -/
def parts (context : ParseContext) : BridgeFieldValue D → List (Part D)
  | .map entries => (context, .map entries) :: partsOfEntries context entries
  | .array elements => (context, .array elements) :: partsOfElements context.element elements
  | .sentinelArrayUnion elements =>
      (context, .sentinelArrayUnion elements) :: partsOfElements (ParseContext.root .argument).element elements
  | .sentinelArrayRemove elements =>
      (context, .sentinelArrayRemove elements) :: partsOfElements (ParseContext.root .argument).element elements
  | value => [(context, value)]

def partsOfEntries (context : ParseContext) : List (Bytes × BridgeFieldValue D) → List (Part D)
  | [] => []
  | (key, value) :: entries => parts (context.field key) value ++ partsOfEntries context entries

def partsOfElements (context : ParseContext) : List (BridgeFieldValue D) → List (Part D)
  | [] => []
  | value :: elements => parts context value ++ partsOfElements context elements

end

/-- A name that a field may have. Names in `__` are reserved in writes. -/
def ParseContext.Allows (context : ParseContext) (name : Bytes) : Prop := name ≠ [] ∧ ¬(context.write ∧ isReserved name)

/-- What is refused: names that are not allowed, an array in an array, a sentinel where its mode forbids it,
a reference to another database, and a value of an unsupported type. -/
def Offends (databaseId : DatabaseId) : Part D → Prop
  | (context, .map entries) => ∃ entry ∈ entries, ¬context.Allows entry.1
  | (context, .array _) => context.arrayElement ∧ context.dataSource ≠ .arrayArgument
  | (_, .reference database _) => database ≠ databaseId
  | (_, .unsupported _) => True
  | (context, .sentinelDelete) => context.path = none ∨ context.dataSource ≠ .mergeSet
  | (context, value) => value.isSentinel ∧ (¬context.write ∨ context.path = none)

/-- The path of a part that goes to the field mask. Empty maps go there, and so do deletes. -/
def maskPath : Part D → Option FieldPath
  | (context, .map entries) => if entries.isEmpty then context.path.filter (· ≠ []) else none
  | (context, .sentinelDelete) => context.path
  | (context, value) => if value.isSentinel then none else context.path

mutual

/-- The value of the wire protocol for a value without its sentinels. There is none for a sentinel. -/
def withoutSentinels : BridgeFieldValue D → Option (Value D)
  | .map entries => some (.map (fieldsWithoutSentinels entries))
  | .array elements => some (.array (valuesWithoutSentinels elements))
  | .reference database document => some (.reference (referenceName database document))
  | .unsupported _ => some .null
  | value => scalarValue value

def fieldsWithoutSentinels : List (Bytes × BridgeFieldValue D) → List (Bytes × Value D)
  | [] => []
  | (key, value) :: entries =>
      match withoutSentinels value with
      | some parsed => (key, parsed) :: fieldsWithoutSentinels entries
      | none => fieldsWithoutSentinels entries

def valuesWithoutSentinels : List (BridgeFieldValue D) → List (Value D)
  | [] => []
  | value :: elements => (withoutSentinels value).getD .null :: valuesWithoutSentinels elements

end

/-- What a transform sentinel does to its field -/
def transformOperation : BridgeFieldValue D → Option (TransformOperation D)
  | .sentinelServerTimestamp => some .serverTimestamp
  | .sentinelArrayUnion elements => some (.arrayUnion (valuesWithoutSentinels elements))
  | .sentinelArrayRemove elements => some (.arrayRemove (valuesWithoutSentinels elements))
  | .sentinelIncrement operand => some (.numericIncrement operand.value)
  | .sentinelMinimum operand => some (.numericMinimum operand.value)
  | .sentinelMaximum operand => some (.numericMaximum operand.value)
  | _ => none

/-- The transform of a part, at the path of the part -/
def partTransform (part : Part D) : Option (FieldTransform D) := do
  return ⟨← part.1.path, ← transformOperation part.2⟩

/-- What is not a sentinel has a value. -/
theorem isSome_withoutSentinels (value : BridgeFieldValue D) : (withoutSentinels value).isSome = !value.isSentinel := by
  cases value <;> rfl

/-! ### Inside of arrays -/

/-- Whether nothing of a part is collected. -/
def Silent (part : Part D) : Prop := part.1.path = none

theorem Silent.maskPath {part : Part D} (h : Silent part) : maskPath part = none := by
  obtain ⟨context, value⟩ := part
  have hpath : context.path = none := h
  cases value <;> simp [Firestore.maskPath, hpath]

theorem Silent.partTransform {part : Part D} (h : Silent part) : partTransform part = none := by
  have hpath : part.1.path = none := h
  rw [Firestore.partTransform, hpath]
  rfl

/-- A property of contexts that goes from a value to its parts -/
structure Inherited (P : ParseContext → Prop) : Prop where
  field : ∀ {context} name, P context → P (context.field name)
  element : ∀ {context}, P context → P context.element
  argument : P (ParseContext.root .argument).element

mutual

theorem Inherited.parts {P : ParseContext → Prop} (h : Inherited P) {context : ParseContext} (hcontext : P context) :
    ∀ (value : BridgeFieldValue D), ∀ part ∈ parts context value, P part.1
  | .map entries => by
      rw [Firestore.parts]
      exact List.forall_mem_cons.mpr ⟨hcontext, h.partsOfEntries hcontext entries⟩
  | .array elements => by
      rw [Firestore.parts]
      exact List.forall_mem_cons.mpr ⟨hcontext, h.partsOfElements (h.element hcontext) elements⟩
  | .sentinelArrayUnion elements => by
      rw [Firestore.parts]
      exact List.forall_mem_cons.mpr ⟨hcontext, h.partsOfElements h.argument elements⟩
  | .sentinelArrayRemove elements => by
      rw [Firestore.parts]
      exact List.forall_mem_cons.mpr ⟨hcontext, h.partsOfElements h.argument elements⟩
  | .null | .boolean _ | .integer _ | .double _ | .string _ | .blob _ | .timestamp _ _ | .geoPoint _ _
  | .reference _ _ | .unsupported _ | .minKey | .maxKey | .regex _ _ | .int32 _ | .decimal128 _
  | .bsonObjectId _ | .bsonTimestamp _ _ | .bsonBinaryData _ _ | .vector _ | .sentinelDelete
  | .sentinelServerTimestamp | .sentinelIncrement _ | .sentinelMinimum _ | .sentinelMaximum _ =>
      List.forall_mem_singleton.mpr hcontext

theorem Inherited.partsOfEntries {P : ParseContext → Prop} (h : Inherited P) {context : ParseContext} (hcontext : P context) :
    ∀ (entries : List (Bytes × BridgeFieldValue D)), ∀ part ∈ partsOfEntries context entries, P part.1
  | [] => fun _ hpart => absurd hpart List.not_mem_nil
  | (key, value) :: entries => by
      rw [Firestore.partsOfEntries]
      exact List.forall_mem_append.mpr
        ⟨h.parts (h.field key hcontext) value, h.partsOfEntries hcontext entries⟩

theorem Inherited.partsOfElements {P : ParseContext → Prop} (h : Inherited P) {context : ParseContext} (hcontext : P context) :
    ∀ (elements : List (BridgeFieldValue D)), ∀ part ∈ partsOfElements context elements, P part.1
  | [] => fun _ hpart => absurd hpart List.not_mem_nil
  | value :: elements => by
      rw [Firestore.partsOfElements]
      exact List.forall_mem_append.mpr ⟨h.parts hcontext value, h.partsOfElements hcontext elements⟩

end

/-- Below a context without a path there are no paths. -/
theorem inherited_path : Inherited fun context => context.path = none where
  field _ hpath := congrArg (Option.map _) hpath
  element _ := rfl
  argument := rfl

/-- What is no write has no writes in it. -/
theorem inherited_write : Inherited fun context => context.write = false where
  field _ hwrite := hwrite
  element hwrite := hwrite
  argument := rfl

variable {list : List (Part D)}

theorem filterMap_maskPath_eq_nil (h : ∀ part ∈ list, Silent part) :
    list.filterMap maskPath = [] := List.filterMap_eq_nil_iff.mpr fun part hpart => (h part hpart).maskPath

theorem filterMap_partTransform_eq_nil (h : ∀ part ∈ list, Silent part) :
    list.filterMap partTransform = [] := List.filterMap_eq_nil_iff.mpr fun part hpart => (h part hpart).partTransform

/-! ### Scalars and sentinels -/

variable {parser : UserDataParser} {context : ParseContext} {value : BridgeFieldValue D}

theorem parses_addOwnPath : Parses (addOwnPath context : ParseM D Unit) True context.path.toList [] () := by
  rw [addOwnPath]
  cases context.path with
  | none => exact Parses.pure ()
  | some path => exact Parses.addToFieldMask path

def BridgeFieldValue.isScalar : BridgeFieldValue D → Bool
  | .map _ => false
  | .array _ => false
  | value => !value.isSentinel

theorem parseData_scalar (h : value.isScalar) : parser.parseData context value = (do
    addOwnPath context
    return some (← parser.parseScalar context value)) := by
  cases value <;> first | rfl | cases h

theorem parts_scalar (h : value.isScalar) : parts context value = [(context, value)] := by
  cases value <;> first | rfl | cases h

theorem maskPath_scalar (h : value.isScalar) : maskPath (context, value) = context.path := by
  cases value <;> first | rfl | cases h

theorem partTransform_scalar (h : value.isScalar) : partTransform (context, value) = none := by
  have hnone : transformOperation value = none := by cases value <;> first | rfl | cases h
  rw [partTransform, hnone]
  cases context.path <;> rfl

/-- The check of a reference and of the type -/
theorem parses_parseScalar (h : value.isScalar) :
    Parses (parser.parseScalar context value) (¬Offends parser.databaseId (context, value)) [] []
      ((withoutSentinels value).getD .null) := by
  have hplain : ∀ {value : BridgeFieldValue D} {scalar}, parser.parseScalar context value = pure scalar →
      withoutSentinels value = some scalar → ¬Offends parser.databaseId (context, value) →
      Parses (parser.parseScalar context value) (¬Offends parser.databaseId (context, value)) [] []
        ((withoutSentinels value).getD .null) := by
    intro value scalar hparse hvalue hoffends
    rw [hparse, hvalue]
    exact (Parses.pure scalar).congr (iff_of_true trivial hoffends) rfl rfl
  cases value with
  | map entries => cases h
  | array elements => cases h
  | reference database document =>
      have hread := document.fromPathString_toString
      have hdatabase : (database.projectId ≠ parser.databaseId.projectId ∨
          database.databaseId ≠ parser.databaseId.databaseId) ↔ database ≠ parser.databaseId := by
        rw [← not_and_or, not_iff_not]
        constructor
        · rintro ⟨hproject, hid⟩
          cases database
          cases hproject
          cases hid
          rfl
        · rintro rfl
          exact ⟨rfl, rfl⟩
      rw [UserDataParser.parseScalar, hread]
      refine (Parses.check _ fun heq => ?_).congr ((and_true _).to_iff.trans (not_congr hdatabase)) rfl rfl
      rw [not_ne_iff.mp (mt hdatabase.mpr heq)]
      exact Parses.pure _
  | unsupported typeName =>
      exact (Parses.throwInvalidArgument _ _).congr (iff_of_false id (not_not_intro trivial)) rfl rfl
  | sentinelDelete => cases h
  | sentinelServerTimestamp => cases h
  | sentinelArrayUnion elements => cases h
  | sentinelArrayRemove elements => cases h
  | sentinelIncrement operand => cases h
  | sentinelMinimum operand => cases h
  | sentinelMaximum operand => cases h
  | null => exact hplain rfl rfl fun hoffends => nomatch hoffends.1
  | boolean value => exact hplain rfl rfl fun hoffends => nomatch hoffends.1
  | integer value => exact hplain rfl rfl fun hoffends => nomatch hoffends.1
  | double value => exact hplain rfl rfl fun hoffends => nomatch hoffends.1
  | string value => exact hplain rfl rfl fun hoffends => nomatch hoffends.1
  | blob bytes => exact hplain rfl rfl fun hoffends => nomatch hoffends.1
  | timestamp seconds nanoseconds => exact hplain rfl rfl fun hoffends => nomatch hoffends.1
  | geoPoint latitude longitude => exact hplain rfl rfl fun hoffends => nomatch hoffends.1
  | minKey => exact hplain rfl rfl fun hoffends => nomatch hoffends.1
  | maxKey => exact hplain rfl rfl fun hoffends => nomatch hoffends.1
  | regex pattern options => exact hplain rfl rfl fun hoffends => nomatch hoffends.1
  | int32 value => exact hplain rfl rfl fun hoffends => nomatch hoffends.1
  | decimal128 value => exact hplain rfl rfl fun hoffends => nomatch hoffends.1
  | bsonObjectId value => exact hplain rfl rfl fun hoffends => nomatch hoffends.1
  | bsonTimestamp seconds increment => exact hplain rfl rfl fun hoffends => nomatch hoffends.1
  | bsonBinaryData subtype bytes => exact hplain rfl rfl fun hoffends => nomatch hoffends.1
  | vector doubles => exact hplain rfl rfl fun hoffends => nomatch hoffends.1

theorem withoutSentinels_scalar (h : value.isScalar) :
    some ((withoutSentinels value).getD .null) = withoutSentinels value := by
  cases value <;> first | rfl | cases h

theorem parses_scalar (h : value.isScalar) :
    Parses (parser.parseData context value) (∀ part ∈ parts context value, ¬Offends parser.databaseId part)
      ((parts context value).filterMap maskPath) ((parts context value).filterMap partTransform)
      (withoutSentinels value) := by
  rw [parseData_scalar h, parts_scalar h, ← withoutSentinels_scalar h]
  refine (parses_addOwnPath.bind ((parses_parseScalar h).bind (Parses.pure (some _)))).congr ?_ ?_ ?_
  · rw [true_and, and_true, List.forall_mem_singleton]
  · rw [List.append_nil, List.append_nil, List.filterMap_cons, List.filterMap_nil, maskPath_scalar h]
    cases context.path <;> rfl
  · rw [List.filterMap_cons, partTransform_scalar h]
    rfl

theorem parses_sentinelPath : Parses (sentinelPath context value : ParseM D FieldPath)
    (context.write ∧ context.path ≠ none) [] [] (context.path.getD []) := by
  rw [sentinelPath]
  refine (Parses.check _ fun _ => ?_).congr (and_congr_left fun _ => not_not) rfl rfl
  cases context.path with
  | none => exact (Parses.throwInvalidArgument _ _).congr (iff_of_false id fun hne => hne rfl) rfl rfl
  | some path => exact (Parses.pure path).congr (iff_of_true trivial nofun) rfl rfl

/-- A sentinel that adds a transform, made of what is parsed -/
theorem parses_transform {α : Type} {f : α → TransformOperation D} {operand : α}
    (h : transformOperation value = some (f operand)) {parse : ParseM D α} {accepted : Prop}
    (hparse : Parses parse accepted [] [] operand) : Parses (do
        let path ← sentinelPath context value
        let operand ← parse
        addToFieldTransforms path (f operand)
        return none)
      ((context.write ∧ context.path ≠ none) ∧ accepted) [] ([(context, value)].filterMap partTransform)
      (none : Option (Value D)) := by
  have hrun : Parses (do
        let path ← sentinelPath context value
        let operand ← parse
        addToFieldTransforms path (f operand)
        return none)
      ((context.write ∧ context.path ≠ none) ∧ accepted ∧ True ∧ True) []
      [⟨context.path.getD [], f operand⟩] (none : Option (Value D)) :=
    Parses.bind parses_sentinelPath (Parses.bind hparse
      (Parses.bind (Parses.addToFieldTransforms _ (f operand)) (Parses.pure none)))
  cases hpath : context.path with
  | none =>
      exact (hrun.of_not (fun hok => hok.1.2 hpath) _ _ _).congr (iff_of_false id fun hok => hok.1.2 rfl) rfl rfl
  | some path =>
      refine hrun.congr ?_ rfl ?_
      · rw [hpath, true_and, and_true]
      · rw [List.filterMap_cons, partTransform, h, hpath]
        rfl

theorem parses_parseDelete : Parses (parseDelete context : ParseM D Unit)
    (¬Offends parser.databaseId (context, (.sentinelDelete : BridgeFieldValue D)))
    ([(context, (.sentinelDelete : BridgeFieldValue D))].filterMap maskPath) [] () := by
  have hrun : Parses (parseDelete context : ParseM D Unit)
      ((context.write ∧ context.path ≠ none) ∧ context.dataSource = .mergeSet) [context.path.getD []] [] () := by
    refine Parses.bind parses_sentinelPath ?_
    cases context.dataSource with
    | mergeSet => exact (Parses.addToFieldMask _).congr (iff_of_true trivial rfl) rfl rfl
    | update =>
        refine Parses.congr ?_ (iff_of_false (id : False → False) (by simp)) rfl rfl
        split_ifs
        · exact Parses.throw .hardAssert (by simp) ()
        · exact Parses.throwInvalidArgument _ ()
    | set => exact (Parses.throwInvalidArgument _ ()).congr (iff_of_false id (by simp)) rfl rfl
    | argument => exact (Parses.throwInvalidArgument _ ()).congr (iff_of_false id (by simp)) rfl rfl
    | arrayArgument => exact (Parses.throwInvalidArgument _ ()).congr (iff_of_false id (by simp)) rfl rfl
  have haccepted : (context.write ∧ context.path ≠ none) ∧ context.dataSource = .mergeSet ↔
      ¬Offends parser.databaseId (context, (.sentinelDelete : BridgeFieldValue D)) := by
    rw [Offends, not_or, not_ne_iff]
    refine and_congr_left fun hsource => and_iff_right ?_
    rw [write, hsource]
  cases hpath : context.path with
  | none =>
      exact (hrun.of_not (fun hok => hok.1.2 hpath) _ _ _).congr
        (iff_of_false id (not_not_intro (.inl hpath))) rfl rfl
  | some path =>
      refine hrun.congr haccepted ?_ rfl
      rw [List.filterMap_cons, maskPath, hpath]
      rfl

theorem parses_validatePathSegment (context : ParseContext) (name : Bytes) :
    Parses (context.validatePathSegment name : ParseM D Unit) (context.Allows name) [] [] () := by
  refine Parses.congr (Parses.check _ fun _ => Parses.check _ fun _ => Parses.pure ()) ?_ rfl rfl
  rw [and_true]
  exact Iff.rfl

theorem parses_childField (context : ParseContext) (name : Bytes) :
    Parses (context.childField name : ParseM D ParseContext) (context.Allows name) [] [] (context.field name) := by
  refine ((parses_validatePathSegment (context.field name) name).bind (Parses.pure (context.field name))).congr
    ?_ rfl rfl
  rw [and_true]
  exact Iff.rfl

/-! ### The loops -/

section Loops

/-- The array of the fields behind those that are filled -/
theorem filled_replicate {α : Type} (done : List α) (n : Nat) (entry unset : α) :
    (done ++ List.replicate (n + 1) unset).set done.length entry = (done ++ [entry]) ++ List.replicate n unset := by
  rw [List.set_append_right _ _ (Nat.le_refl _), Nat.sub_self, List.replicate_succ, List.set_cons_zero,
    List.append_assoc, List.singleton_append]

theorem lt_length_replicate {α : Type} (done : List α) (n : Nat) (unset : α) :
    done.length < (done ++ List.replicate (n + 1) unset).length := by
  rw [List.length_append, List.length_replicate]
  omega

/-- What `parseData` does with a value -/
def ParsesData (parser : UserDataParser) (context : ParseContext) (value : BridgeFieldValue D) : Prop :=
  Parses (parser.parseData context value) (∀ part ∈ parts context value, ¬Offends parser.databaseId part)
    ((parts context value).filterMap maskPath) ((parts context value).filterMap partTransform)
    (withoutSentinels value)

/-- What the loop over the fields of a map does, with some fields filled already -/
def ParsesFields (parser : UserDataParser) (context : ParseContext) (entries : List (Bytes × BridgeFieldValue D)) : Prop :=
  ∀ done : List (Bytes × Value D), Parses
    (parser.parseFields context entries
      (done ++ List.replicate (entries.countP fun entry => !entry.2.isSentinel) ([], .unset)) done.length)
    ((∀ entry ∈ entries, context.Allows entry.1) ∧
      ∀ part ∈ partsOfEntries context entries, ¬Offends parser.databaseId part)
    ((partsOfEntries context entries).filterMap maskPath) ((partsOfEntries context entries).filterMap partTransform)
    (done ++ fieldsWithoutSentinels entries)

/-- What the loop over the elements of an array does, with some elements filled already -/
def ParsesElements (parser : UserDataParser) (context : ParseContext) (elements : List (BridgeFieldValue D)) : Prop :=
  ∀ done : List (Value D), Parses
    (parser.parseElements context elements (done ++ List.replicate elements.length .unset) done.length)
    (∀ part ∈ partsOfElements context.element elements, ¬Offends parser.databaseId part)
    ((partsOfElements context.element elements).filterMap maskPath)
    ((partsOfElements context.element elements).filterMap partTransform)
    (done ++ valuesWithoutSentinels elements)

/-- What the loop over the elements of a transform does. It collects nothing. -/
def ParsesTransformElements (parser : UserDataParser) (elements : List (BridgeFieldValue D)) : Prop :=
  ∀ (done : List (Value D)) (accumulator : ParseAccumulator D), accumulator.fieldTransforms = [] →
    (∀ output, parser.parseTransformElements elements (done ++ List.replicate elements.length .unset) done.length
        accumulator = .ok output ↔
      (∀ part ∈ partsOfElements (ParseContext.root .argument).element elements, ¬Offends parser.databaseId part) ∧
        output = (done ++ valuesWithoutSentinels elements, accumulator)) ∧
    parser.parseTransformElements elements (done ++ List.replicate elements.length .unset) done.length
      accumulator ≠ .error .outOfBounds

/-- One iteration over the fields. A sentinel fills none. -/
theorem ParsesFields.cons {key : Bytes} {entries : List (Bytes × BridgeFieldValue D)}
    (hvalue : ParsesData parser (context.field key) value) (ih : ParsesFields parser context entries) :
    ParsesFields parser context ((key, value) :: entries) := by
  intro done
  rw [UserDataParser.parseFields, partsOfEntries, List.filterMap_append, List.filterMap_append]
  have hthen : Parses (match withoutSentinels value with
      | some parsed => do
          parser.parseFields context entries (← writeAt (done ++ List.replicate
            (((key, value) :: entries).countP fun entry => !entry.2.isSentinel) ([], .unset)) done.length
            (key, parsed)) (done.length + 1)
      | none => parser.parseFields context entries (done ++ List.replicate
          (((key, value) :: entries).countP fun entry => !entry.2.isSentinel) ([], .unset)) done.length)
      ((∀ entry ∈ entries, context.Allows entry.1) ∧
        ∀ part ∈ partsOfEntries context entries, ¬Offends parser.databaseId part)
      ((partsOfEntries context entries).filterMap maskPath) ((partsOfEntries context entries).filterMap partTransform)
      (done ++ fieldsWithoutSentinels ((key, value) :: entries)) := by
    have hsome := isSome_withoutSentinels value
    rw [fieldsWithoutSentinels]
    cases hparsed : withoutSentinels value with
    | none =>
        rw [hparsed] at hsome
        rw [List.countP_cons_of_neg (by rw [← hsome]; exact nofun)]
        exact ih done
    | some parsed =>
        rw [hparsed] at hsome
        rw [List.countP_cons_of_pos (by rw [← hsome]; rfl)]
        refine Parses.congr (Parses.bind (Parses.writeAt (lt_length_replicate done _ _) (key, parsed)) ?_)
          (true_and _).to_iff rfl rfl
        have hnext := ih (done ++ [(key, parsed)])
        rw [List.length_append, List.length_singleton, List.append_assoc _ _ (fieldsWithoutSentinels entries)] at hnext
        rw [filled_replicate]
        exact hnext
  refine Parses.congr (Parses.bind (parses_childField context key) (Parses.bind hvalue hthen)) ?_ rfl rfl
  rw [List.forall_mem_cons, List.forall_mem_append]
  tauto

variable {elements : List (BridgeFieldValue D)}

/-- One iteration over the elements -/
theorem ParsesElements.cons (hvalue : ParsesData parser context.element value)
    (ih : ParsesElements parser context elements) : ParsesElements parser context (value :: elements) := by
  intro done
  rw [UserDataParser.parseElements, partsOfElements, List.filterMap_append, List.filterMap_append,
    valuesWithoutSentinels]
  have hnext := ih (done ++ [(withoutSentinels value).getD .null])
  rw [List.length_append, List.length_singleton, List.append_assoc _ _ (valuesWithoutSentinels elements)] at hnext
  rw [← filled_replicate] at hnext
  have hthen : Parses (do
      parser.parseElements context elements (← writeAt (done ++ List.replicate (elements.length + 1) .unset)
        done.length ((withoutSentinels value).getD .null)) (done.length + 1)) _ _ _ _ :=
    Parses.bind (Parses.writeAt (lt_length_replicate done _ .unset) ((withoutSentinels value).getD .null)) hnext
  refine Parses.congr (Parses.bind hvalue hthen) ?_ rfl rfl
  rw [List.forall_mem_append, true_and]

theorem mem_parts_self (context : ParseContext) (value : BridgeFieldValue D) : (context, value) ∈ parts context value := by
  cases value <;> exact List.mem_cons_self

theorem offends_sentinel {databaseId : DatabaseId} (h : value.isSentinel) (hpath : context.path = none) :
    Offends databaseId (context, value) := by
  cases value <;> first | exact absurd h Bool.false_ne_true | exact .inl hpath | exact ⟨rfl, .inr hpath⟩

/-- One iteration over the elements of a transform -/
theorem ParsesTransformElements.cons (hvalue : ParsesData parser (ParseContext.root .argument).element value)
    (ih : ParsesTransformElements parser elements) : ParsesTransformElements parser (value :: elements) := by
  intro done accumulator htransforms
  have hsilent : ∀ part ∈ parts (ParseContext.root .argument).element value, Silent part := inherited_path.parts rfl value
  have hrun : ∀ output, parser.parseData (ParseContext.root .argument).element value accumulator = .ok output ↔
      (∀ part ∈ parts (ParseContext.root .argument).element value, ¬Offends parser.databaseId part) ∧
        output = (withoutSentinels value, accumulator) := by
    intro output
    have hok := hvalue.ok_iff accumulator output
    rw [filterMap_maskPath_eq_nil hsilent, filterMap_partTransform_eq_nil hsilent, List.append_nil] at hok
    refine hok.trans (and_congr_right fun _ => ⟨?_, fun heq => ⟨_, rfl, heq⟩⟩)
    rintro ⟨mask, hmask, rfl⟩
    cases hmask
    rfl
  have hfail : ∀ failure, parser.parseData (ParseContext.root .argument).element value accumulator = .error failure →
      parser.parseTransformElements (value :: elements)
        (done ++ List.replicate (elements.length + 1) .unset) done.length accumulator = .error failure := by
    intro failure hparse
    rw [UserDataParser.parseTransformElements]
    show Except.bind (parser.parseData _ value accumulator) _ = _
    rw [hparse]
    rfl
  have hstep : ∀ parsed, parser.parseData (ParseContext.root .argument).element value accumulator =
        .ok (some parsed, accumulator) →
      parser.parseTransformElements (value :: elements)
        (done ++ List.replicate (elements.length + 1) .unset) done.length accumulator =
      parser.parseTransformElements elements ((done ++ [parsed]) ++ List.replicate elements.length .unset)
        (done ++ [parsed]).length accumulator := by
    intro parsed hparse
    rw [UserDataParser.parseTransformElements]
    show Except.bind (parser.parseData _ value accumulator) _ = _
    rw [hparse]
    show (if accumulator.fieldTransforms.isEmpty then _ else _ : ParseM D (List (Value D))) accumulator = _
    rw [htransforms, List.isEmpty_nil, if_pos rfl, writeAt, if_pos (lt_length_replicate done _ _), filled_replicate,
      List.length_append, List.length_singleton]
    rfl
  rw [List.length_cons, partsOfElements, valuesWithoutSentinels, List.forall_mem_append]
  by_cases haccepted : ∀ part ∈ parts (ParseContext.root .argument).element value, ¬Offends parser.databaseId part
  · have hsome : (withoutSentinels value).isSome := by
      rw [isSome_withoutSentinels, Bool.not_eq_true']
      refine Bool.eq_false_iff.mpr fun hsentinel => ?_
      exact haccepted _ (mem_parts_self _ value) (offends_sentinel hsentinel rfl)
    obtain ⟨parsed, hparsed⟩ := Option.isSome_iff_exists.mp hsome
    have hparse := (hrun _).mpr ⟨haccepted, rfl⟩
    rw [hparsed] at hparse
    have hrest := ih (done ++ [parsed]) accumulator htransforms
    rw [hstep parsed hparse, hparsed, and_iff_right haccepted]
    rw [List.append_assoc _ _ (valuesWithoutSentinels elements)] at hrest
    exact hrest
  · cases hparse : parser.parseData (ParseContext.root .argument).element value accumulator with
    | ok output => exact absurd ((hrun output).mp hparse).1 haccepted
    | error failure =>
        rw [hfail failure hparse]
        refine ⟨fun output => iff_of_false (by simp) fun hok => haccepted hok.1.1, fun heq => ?_⟩
        rw [Except.error.inj heq] at hparse
        exact hvalue.inBounds accumulator hparse

end Loops

/-! ### Parsing a value -/

variable {entries : List (Bytes × BridgeFieldValue D)} {elements : List (BridgeFieldValue D)}

theorem offends_map {databaseId : DatabaseId} :
    Offends databaseId (context, .map entries) ↔ ∃ entry ∈ entries, ¬context.Allows entry.1 := Iff.rfl

theorem parses_map (h : ParsesFields parser context entries) :
    Parses (parser.parseMap context entries) (∀ part ∈ parts context (.map entries), ¬Offends parser.databaseId part)
      ((parts context (.map entries)).filterMap maskPath) ((parts context (.map entries)).filterMap partTransform)
      (.map (fieldsWithoutSentinels entries)) := by
  have htransform : partTransform (context, .map entries) = none := by
    rw [partTransform]
    cases context.path <;> rfl
  rw [UserDataParser.parseMap, UserDataParser.parseMapWith, parts, List.filterMap_cons_none htransform,
    List.filterMap_cons]
  cases entries with
  | nil =>
      have hpath : Parses (addEmptyMapPath context : ParseM D Unit) True (context.path.filter (· ≠ [])).toList [] () := by
        rw [addEmptyMapPath]
        rcases context.path with _ | path
        · exact Parses.pure ()
        · cases path with
          | nil => exact Parses.pure ()
          | cons segment path => exact Parses.addToFieldMask _
      refine Parses.congr (Parses.bind hpath (Parses.pure (Value.map []))) ?_ ?_ rfl
      · refine iff_of_true ⟨trivial, trivial⟩ ?_
        rw [partsOfEntries, List.forall_mem_singleton, offends_map]
        exact fun ⟨_, hentry, _⟩ => absurd hentry List.not_mem_nil
      · rw [maskPath, partsOfEntries, List.append_nil]
        rcases context.path with _ | path
        · rfl
        · cases path <;> rfl
  | cons entry entries =>
      have hfields := h []
      rw [List.nil_append, List.nil_append, List.length_nil] at hfields
      rw [if_neg (by exact nofun), maskPath, if_neg (by exact nofun)]
      refine Parses.congr (Parses.bind hfields (Parses.pure (Value.map _))) ?_ (List.append_nil _) (List.append_nil _)
      rw [and_true]
      refine Iff.trans (and_congr_left fun _ => ?_) List.forall_mem_cons.symm
      rw [offends_map]
      push Not
      exact Iff.rfl

theorem parses_array (h : ParsesElements parser context elements) : ParsesData parser context (.array elements) := by
  have htransform : partTransform (context, .array elements) = none := by
    rw [partTransform]
    cases context.path <;> rfl
  have helements := h []
  rw [List.nil_append, List.nil_append, List.length_nil] at helements
  rw [ParsesData, parts, List.filterMap_cons_none htransform, List.filterMap_cons, UserDataParser.parseData]
  refine Parses.congr (Parses.bind parses_addOwnPath (Parses.check _ fun _ =>
    Parses.bind helements (Parses.pure (some _)))) ?_ ?_ (List.append_nil _)
  · rw [true_and, and_true, List.forall_mem_cons]
    exact Iff.rfl
  · have hmask : maskPath (context, .array elements) = context.path := rfl
    rw [hmask, List.append_nil]
    cases context.path <;> rfl

/-- A sentinel with elements -/
theorem parses_elementsTransform (h : ParsesTransformElements parser elements) :
    Parses (UserDataParser.withAccumulator (parser.parseTransformElements elements
        (List.replicate elements.length .unset) 0))
      (∀ part ∈ partsOfElements (ParseContext.root .argument).element elements, ¬Offends parser.databaseId part)
      [] [] (valuesWithoutSentinels elements) := by
  obtain ⟨hok, hinBounds⟩ := h [] {} rfl
  exact Parses.withAccumulator hok hinBounds

/-- The parts of a transform: the sentinel, and silent ones -/
theorem parses_sentinel {parse : ParseM D (Option (Value D))} {below : List (Part D)} {accepted : Prop}
    (hmask : maskPath (context, value) = none)
    (hoffends : Offends parser.databaseId (context, value) ↔ ¬context.write ∨ context.path = none)
    (hsilent : ∀ part ∈ below, Silent part) (haccepted : accepted ↔ ∀ part ∈ below, ¬Offends parser.databaseId part)
    (h : Parses parse ((context.write ∧ context.path ≠ none) ∧ accepted) []
      ([(context, value)].filterMap partTransform) none) :
    Parses parse (∀ part ∈ (context, value) :: below, ¬Offends parser.databaseId part)
      (((context, value) :: below).filterMap maskPath) (((context, value) :: below).filterMap partTransform)
      (none : Option (Value D)) := by
  have hcons : (context, value) :: below = [(context, value)] ++ below := rfl
  refine h.congr ?_ ?_ ?_
  · rw [List.forall_mem_cons, hoffends, not_or, not_not, haccepted]
  · rw [List.filterMap_cons_none hmask, filterMap_maskPath_eq_nil hsilent]
  · rw [hcons, List.filterMap_append, filterMap_partTransform_eq_nil hsilent, List.append_nil]

/-- A transform without elements -/
theorem parses_plainTransform {transformation : TransformOperation D}
    (h : transformOperation value = some transformation) (hmask : maskPath (context, value) = none)
    (hoffends : Offends parser.databaseId (context, value) ↔ ¬context.write ∨ context.path = none) : Parses (do
        let path ← sentinelPath context value
        addToFieldTransforms path transformation
        return none)
      (∀ part ∈ [(context, value)], ¬Offends parser.databaseId part) ([(context, value)].filterMap maskPath)
      ([(context, value)].filterMap partTransform) (none : Option (Value D)) := by
  have hrun : Parses (do
        let path ← sentinelPath context value
        let operand ← pure transformation
        addToFieldTransforms path operand
        return none)
      ((context.write ∧ context.path ≠ none) ∧ True) [] ([(context, value)].filterMap partTransform)
      (none : Option (Value D)) := parses_transform (f := id) h (Parses.pure transformation)
  exact parses_sentinel hmask hoffends (fun _ hpart => absurd hpart List.not_mem_nil)
    (iff_of_true trivial fun _ hpart => absurd hpart List.not_mem_nil) hrun

mutual

theorem parsesData (parser : UserDataParser) (context : ParseContext) :
    ∀ value : BridgeFieldValue D, ParsesData parser context value
  | .map entries => by
      have hmap := parses_map (parsesFields parser context entries)
      rw [ParsesData, UserDataParser.parseData, withoutSentinels]
      refine Parses.congr (Parses.bind hmap (Parses.pure (some _))) (and_true _).to_iff ?_ ?_
      · rw [List.append_nil]
      · rw [List.append_nil]
  | .array elements => parses_array (parsesElements parser context elements)
  | .sentinelDelete => by
      have hparts : parts context (.sentinelDelete : BridgeFieldValue D) = [(context, .sentinelDelete)] := rfl
      have htransform : partTransform (context, (.sentinelDelete : BridgeFieldValue D)) = none := by
        cases hpath : context.path <;> simp [partTransform, hpath, transformOperation]
      have hdelete : Parses (parseDelete context : ParseM D Unit)
        (¬Offends parser.databaseId (context, (.sentinelDelete : BridgeFieldValue D))) _ [] () := parses_parseDelete
      rw [ParsesData, UserDataParser.parseData, hparts, List.filterMap_cons_none htransform]
      refine Parses.congr (Parses.bind hdelete (Parses.pure none)) ?_ (List.append_nil _) rfl
      rw [and_true, List.forall_mem_singleton]
  | .sentinelArrayUnion elements => by
      have hparse := parses_elementsTransform (parsesTransformElements parser elements)
      rw [ParsesData, UserDataParser.parseData, parts]
      exact parses_sentinel rfl (and_iff_right rfl) (inherited_path.partsOfElements rfl elements) Iff.rfl
        (parses_transform (f := .arrayUnion) rfl hparse)
  | .sentinelArrayRemove elements => by
      have hparse := parses_elementsTransform (parsesTransformElements parser elements)
      rw [ParsesData, UserDataParser.parseData, parts]
      exact parses_sentinel rfl (and_iff_right rfl) (inherited_path.partsOfElements rfl elements) Iff.rfl
        (parses_transform (f := .arrayRemove) rfl hparse)
  | .sentinelServerTimestamp => parses_plainTransform rfl rfl (and_iff_right rfl)
  | .sentinelIncrement operand => parses_plainTransform rfl rfl (and_iff_right rfl)
  | .sentinelMinimum operand => parses_plainTransform rfl rfl (and_iff_right rfl)
  | .sentinelMaximum operand => parses_plainTransform rfl rfl (and_iff_right rfl)
  | .null | .boolean _ | .integer _ | .double _ | .string _ | .blob _ | .timestamp _ _ | .geoPoint _ _
  | .reference _ _ | .unsupported _ | .minKey | .maxKey | .regex _ _ | .int32 _ | .decimal128 _
  | .bsonObjectId _ | .bsonTimestamp _ _ | .bsonBinaryData _ _ | .vector _ => parses_scalar rfl

theorem parsesFields (parser : UserDataParser) (context : ParseContext) :
    ∀ entries : List (Bytes × BridgeFieldValue D), ParsesFields parser context entries
  | [] => fun done => by
      rw [UserDataParser.parseFields, fieldsWithoutSentinels, List.countP_nil, List.replicate_zero]
      exact (Parses.pure _).congr (iff_of_true trivial ⟨fun _ h => absurd h List.not_mem_nil,
        fun _ h => absurd h List.not_mem_nil⟩) rfl rfl
  | (key, value) :: entries =>
      ParsesFields.cons (parsesData parser (context.field key) value) (parsesFields parser context entries)

theorem parsesElements (parser : UserDataParser) (context : ParseContext) :
    ∀ elements : List (BridgeFieldValue D), ParsesElements parser context elements
  | [] => fun done => by
      rw [UserDataParser.parseElements, valuesWithoutSentinels, List.length_nil, List.replicate_zero]
      exact (Parses.pure _).congr (iff_of_true trivial fun _ h => absurd h List.not_mem_nil) rfl rfl
  | value :: elements =>
      ParsesElements.cons (parsesData parser context.element value) (parsesElements parser context elements)

theorem parsesTransformElements (parser : UserDataParser) :
    ∀ elements : List (BridgeFieldValue D), ParsesTransformElements parser elements
  | [] => fun done accumulator _ => by
      have hrun : parser.parseTransformElements [] (done ++ List.replicate ([] : List (BridgeFieldValue D)).length .unset)
          done.length accumulator = .ok (done ++ [], accumulator) := rfl
      rw [hrun, valuesWithoutSentinels]
      refine ⟨fun output => ⟨fun h => ⟨fun _ h => absurd h List.not_mem_nil, (Except.ok.inj h).symm⟩, ?_⟩, nofun⟩
      rintro ⟨-, rfl⟩
      rfl
  | value :: elements =>
      ParsesTransformElements.cons (parsesData parser (ParseContext.root .argument).element value)
        (parsesTransformElements parser elements)

end

end FirebaseSwift.Firestore
