import FirebaseSwift.Firestore.FilledValues
import FirebaseSwift.Firestore.UpdateKeys

/-! What the calls that write make of their data. An overwrite and a merge parse one map. An update parses
the value of each entry at its path and sets it there, and the path of a delete only goes to the field
mask. -/

namespace FirebaseSwift.Firestore

open ComparedSets ExceptLoops ParseContext

variable {D : Type} {parser : UserDataParser} {context : ParseContext}

/-- Whether no part of a value is refused. -/
def Accepts (databaseId : DatabaseId) (context : ParseContext) (value : BridgeFieldValue D) : Prop :=
  ∀ part ∈ parts context value, ¬Offends databaseId part

/-! ### Names in paths -/

/-- The path of the context is that of a write, and no name in it is reserved. -/
def ParseContext.IsPlain (context : ParseContext) : Prop := ∀ path ∈ context.path, context.write ∧ path.IsPlain

theorem ParseContext.IsPlain.field (h : context.IsPlain) {name : Bytes} (hname : context.Allows name) :
    (context.field name).IsPlain := by
  intro path hpath
  obtain ⟨base, hbase, rfl⟩ := Option.map_eq_some_iff.mp hpath
  obtain ⟨hwrite, hplain⟩ := h base hbase
  exact ⟨hwrite, List.forall_mem_append.mpr
    ⟨hplain, List.forall_mem_singleton.mpr fun hreserved => hname.2 ⟨hwrite, hreserved⟩⟩⟩

theorem ParseContext.isPlain_of_none (h : context.path = none) : context.IsPlain := by
  intro path hpath
  rw [h] at hpath
  cases hpath

mutual

/-- Below a plain context what is accepted has plain contexts only. -/
theorem isPlain_parts {databaseId : DatabaseId} {context : ParseContext} (h : context.IsPlain) :
    ∀ value : BridgeFieldValue D, Accepts databaseId context value → ∀ part ∈ parts context value, part.1.IsPlain
  | .map entries, haccepted => by
      rw [Accepts, parts, List.forall_mem_cons, offends_map] at haccepted
      obtain ⟨hnames, hbelow⟩ := haccepted
      push Not at hnames
      rw [parts]
      exact List.forall_mem_cons.mpr ⟨h, isPlain_partsOfEntries h entries hnames hbelow⟩
  | .array elements, _ => by
      rw [parts]
      exact List.forall_mem_cons.mpr
        ⟨h, fun part hpart => isPlain_of_none (inherited_path.partsOfElements rfl elements part hpart)⟩
  | .sentinelArrayUnion elements, _ => by
      rw [parts]
      exact List.forall_mem_cons.mpr
        ⟨h, fun part hpart => isPlain_of_none (inherited_path.partsOfElements rfl elements part hpart)⟩
  | .sentinelArrayRemove elements, _ => by
      rw [parts]
      exact List.forall_mem_cons.mpr
        ⟨h, fun part hpart => isPlain_of_none (inherited_path.partsOfElements rfl elements part hpart)⟩
  | .null, _ | .boolean _, _ | .integer _, _ | .double _, _ | .string _, _ | .blob _, _ | .timestamp _ _, _
  | .geoPoint _ _, _ | .reference _ _, _ | .unsupported _, _ | .minKey, _ | .maxKey, _ | .regex _ _, _ | .int32 _, _
  | .decimal128 _, _ | .bsonObjectId _, _ | .bsonTimestamp _ _, _ | .bsonBinaryData _ _, _ | .vector _, _
  | .sentinelDelete, _ | .sentinelServerTimestamp, _ | .sentinelIncrement _, _ | .sentinelMinimum _, _
  | .sentinelMaximum _, _ => List.forall_mem_singleton.mpr h

theorem isPlain_partsOfEntries {databaseId : DatabaseId} {context : ParseContext} (h : context.IsPlain) :
    ∀ entries : List (Bytes × BridgeFieldValue D), (∀ entry ∈ entries, context.Allows entry.1) →
      (∀ part ∈ partsOfEntries context entries, ¬Offends databaseId part) →
      ∀ part ∈ partsOfEntries context entries, part.1.IsPlain
  | [], _, _ => fun _ hpart => absurd hpart List.not_mem_nil
  | (key, value) :: entries, hnames, haccepted => by
      obtain ⟨hname, hnames⟩ := List.forall_mem_cons.mp hnames
      rw [partsOfEntries, List.forall_mem_append] at haccepted
      rw [partsOfEntries]
      exact List.forall_mem_append.mpr ⟨isPlain_parts (h.field hname) value haccepted.1,
        isPlain_partsOfEntries h entries hnames haccepted.2⟩

end

theorem path_of_maskPath {part : Part D} {path : FieldPath} (h : maskPath part = some path) :
    part.1.path = some path := by
  obtain ⟨context, value⟩ := part
  cases value with
  | map entries =>
      rw [maskPath] at h
      split_ifs at h
      exact (Option.filter_eq_some_iff.mp h).1
  | sentinelServerTimestamp | sentinelArrayUnion _ | sentinelArrayRemove _ | sentinelIncrement _ | sentinelMinimum _
  | sentinelMaximum _ => cases h
  | _ => exact h

/-- The paths of what is accepted are plain. -/
theorem isPlain_maskPaths (h : context.IsPlain) {databaseId : DatabaseId} {value : BridgeFieldValue D}
    (haccepted : Accepts databaseId context value) : ∀ path ∈ (parts context value).filterMap maskPath, path.IsPlain := by
  intro path hpath
  obtain ⟨part, hpart, hmask⟩ := List.mem_filterMap.mp hpath
  exact (isPlain_parts h value haccepted part hpart path (path_of_maskPath hmask)).2

variable {source : UserDataSource}

theorem isPlain_root (h : (ParseContext.root source).write) : (ParseContext.root source).IsPlain := by
  intro path hpath
  cases hpath
  exact ⟨h, fun _ hname => absurd hname List.not_mem_nil⟩

/-! ### One map -/

/-- The document with the fields that are no sentinels -/
def documentWithoutSentinels (data : List (Bytes × BridgeFieldValue D)) : ObjectValue D :=
  ⟨Value.sortByKey (Value.sortFieldsOfEntries (fieldsWithoutSentinels data))⟩

theorem fieldsFilled_document (data : List (Bytes × BridgeFieldValue D)) :
    FieldsFilled (documentWithoutSentinels data).fields :=
  ObjectValue.fieldsFilled_ofValue (fieldsFilled_withoutSentinels data) rfl

theorem parses_document (parser : UserDataParser) (source : UserDataSource) (data : List (Bytes × BridgeFieldValue D)) :
    Parses (do UserDataParser.objectValue (← parser.parseMap (ParseContext.root source) data))
      (Accepts parser.databaseId (ParseContext.root source) (.map data))
      ((parts (ParseContext.root source) (.map data)).filterMap maskPath)
      ((parts (ParseContext.root source) (.map data)).filterMap partTransform) (documentWithoutSentinels data) := by
  have hobject : Parses (UserDataParser.objectValue (.map (fieldsWithoutSentinels data))) True [] []
      (documentWithoutSentinels data) := Parses.pure _
  refine Parses.congr (Parses.bind (parses_map (parsesFields parser _ data)) hobject) (and_true _).to_iff ?_ ?_
  · rw [List.append_nil]
  · rw [List.append_nil]

/-- The transforms of a map -/
def transformsOf (source : UserDataSource) (data : List (Bytes × BridgeFieldValue D)) : List (FieldTransform D) :=
  (parts (ParseContext.root source) (.map data)).filterMap partTransform

theorem run_document (hwrite : (ParseContext.root source).write) {data : List (Bytes × BridgeFieldValue D)}
    (haccepted : Accepts parser.databaseId (ParseContext.root source) (.map data)) :
    ∃ mask, (do UserDataParser.objectValue (← parser.parseMap (ParseContext.root source) data) : ParseM D _) {} =
        .ok (documentWithoutSentinels data, ⟨mask, transformsOf source data⟩) ∧
      IsSet FieldPath.compareTo FieldPath.key mask ∧
      ∀ path, path ∈ mask ↔ path ∈ (parts (ParseContext.root source) (.map data)).filterMap maskPath := by
  obtain ⟨mask, hmask, hset, hmem⟩ := insertAll_plain (isPlain_maskPaths (isPlain_root hwrite) haccepted)
  exact ⟨mask, ((parses_document parser source data).ok_iff _ _).mpr ⟨haccepted, mask, hmask, rfl⟩, hset, hmem⟩

/-! ### The entries of an update -/

/-- The context of the value of an entry -/
def entryContext (path : FieldPath) : ParseContext := (ParseContext.root .update).below path

/-- A delete is accepted at any path. -/
def EntryAccepted (databaseId : DatabaseId) (entry : FieldPath × BridgeFieldValue D) : Prop :=
  entry.2 ≠ .sentinelDelete →
    (∀ name ∈ entry.1, (entryContext entry.1).Allows name) ∧ Accepts databaseId (entryContext entry.1) entry.2

/-- The paths of an entry that go to the field mask: those of the parts of its value, and its own unless the value
is a transform -/
def entryPaths : FieldPath × BridgeFieldValue D → List FieldPath
  | (path, .sentinelDelete) => [path]
  | (path, value) => (parts (entryContext path) value).filterMap maskPath ++ if value.isSentinel then [] else [path]

def entryTransforms (entry : FieldPath × BridgeFieldValue D) : List (FieldTransform D) :=
  (parts (entryContext entry.1) entry.2).filterMap partTransform

/-- The value of an entry is set at its path, without the sentinels. -/
def setEntry (object : ObjectValue D) (entry : FieldPath × BridgeFieldValue D) : ObjectValue D :=
  match withoutSentinels entry.2 with
  | some parsed => ⟨ObjectValue.setAt entry.1 parsed object.fields⟩
  | none => object

/-- The path of a delete -/
def deletedPath (entry : FieldPath × BridgeFieldValue D) : Option FieldPath :=
  match entry.2 with
  | .sentinelDelete => some entry.1
  | _ => none

section Entries

variable {path : FieldPath} {value : BridgeFieldValue D} {entry : FieldPath × BridgeFieldValue D}
  {entries : List (FieldPath × BridgeFieldValue D)} {databaseId : DatabaseId}

theorem entryPaths_of_ne (h : value ≠ .sentinelDelete) : entryPaths (path, value) =
    (parts (entryContext path) value).filterMap maskPath ++ if value.isSentinel then [] else [path] := by
  cases value with
  | sentinelDelete => exact absurd rfl h
  | _ => rfl

theorem deletedPath_of_ne (h : entry.2 ≠ .sentinelDelete) : deletedPath entry = none := by
  obtain ⟨path, value⟩ := entry
  cases value with
  | sentinelDelete => exact absurd rfl h
  | _ => rfl

theorem parses_validatePath (context : ParseContext) (path : FieldPath) :
    Parses (path.forM context.validatePathSegment : ParseM D PUnit) (∀ name ∈ path, context.Allows name) [] [] () := by
  induction path with
  | nil => exact (Parses.pure ()).congr (iff_of_true trivial fun _ h => absurd h List.not_mem_nil) rfl rfl
  | cons name path ih =>
      exact ((parses_validatePathSegment context name).bind ih).congr List.forall_mem_cons.symm rfl rfl

theorem parses_childPath (path : FieldPath) :
    Parses ((ParseContext.root .update).childPath path : ParseM D ParseContext)
      (∀ name ∈ path, (entryContext path).Allows name) [] [] (entryContext path) := by
  have hvalid : Parses ((entryContext path).validatePath : ParseM D Unit)
      (∀ name ∈ path, (entryContext path).Allows name) [] [] () := parses_validatePath (entryContext path) path
  exact (hvalid.bind (Parses.pure (entryContext path))).congr (and_true _).to_iff rfl rfl

theorem parseUpdates_of_ne (h : value ≠ .sentinelDelete) (object : ObjectValue D) :
    parser.parseUpdates ((path, value) :: entries) object = (do
      match ← parser.parseData (← (ParseContext.root .update).childPath path) value with
      | some parsed =>
          addToFieldMask path
          match object.set path parsed with
          | some object => parser.parseUpdates entries object
          | none => throw .hardAssert
      | none => parser.parseUpdates entries object) := by
  cases value with
  | sentinelDelete => exact absurd rfl h
  | _ => rfl

/-- An entry that is no delete, and the rest -/
theorem parses_entry (h : value ≠ .sentinelDelete) (hpath : path ≠ []) (object : ObjectValue D) {accepted : Prop}
    {paths : List FieldPath} {transforms : List (FieldTransform D)} {result : ObjectValue D}
    (hrest : Parses (parser.parseUpdates entries (setEntry object (path, value))) accepted paths transforms result) :
    Parses (parser.parseUpdates ((path, value) :: entries) object)
      (EntryAccepted parser.databaseId (path, value) ∧ accepted) (entryPaths (path, value) ++ paths)
      (entryTransforms (path, value) ++ transforms) result := by
  have hvalue := parsesData parser (entryContext path) value
  have hsentinel := isSome_withoutSentinels value
  have haccepted : EntryAccepted parser.databaseId (path, value) ↔
      (∀ name ∈ path, (entryContext path).Allows name) ∧ Accepts parser.databaseId (entryContext path) value :=
    forall_prop_of_true h
  rw [parseUpdates_of_ne h, entryPaths_of_ne h, haccepted]
  rw [setEntry] at hrest
  dsimp only at hrest
  rw [ParsesData] at hvalue
  cases hparsed : withoutSentinels value with
  | none =>
      rw [hparsed] at hvalue hsentinel hrest
      have hsentinel : value.isSentinel = true := by simpa using hsentinel
      rw [if_pos hsentinel, List.append_nil]
      exact Parses.congr (Parses.bind (parses_childPath path) (Parses.bind hvalue hrest)) and_assoc.symm rfl rfl
  | some parsed =>
      rw [hparsed] at hvalue hsentinel hrest
      have hset : object.set path parsed = some ⟨ObjectValue.setAt path parsed object.fields⟩ := if_neg hpath
      have hthen : Parses (do
            addToFieldMask path
            match object.set path parsed with
            | some object => parser.parseUpdates entries object
            | none => throw .hardAssert) (True ∧ accepted) ([path] ++ paths) ([] ++ transforms) result := by
        rw [hset]
        exact Parses.bind (Parses.addToFieldMask path) hrest
      have hsentinel : ¬value.isSentinel = true := by simpa using hsentinel
      rw [if_neg hsentinel]
      refine Parses.congr (Parses.bind (parses_childPath path) (Parses.bind hvalue hthen)) ?_ ?_ rfl
      · rw [true_and, and_assoc]
        exact Iff.rfl
      · rw [List.nil_append, List.append_assoc]

theorem parses_parseUpdates (hpaths : ∀ entry ∈ entries, entry.1 ≠ []) (object : ObjectValue D) :
    Parses (parser.parseUpdates entries object) (∀ entry ∈ entries, EntryAccepted parser.databaseId entry)
      (entries.flatMap entryPaths) (entries.flatMap entryTransforms) (entries.foldl setEntry object) := by
  induction entries generalizing object with
  | nil => exact (Parses.pure object).congr (iff_of_true trivial fun _ h => absurd h List.not_mem_nil) rfl rfl
  | cons entry entries ih =>
      obtain ⟨path, value⟩ := entry
      obtain ⟨hpath, hrest⟩ := List.forall_mem_cons.mp hpaths
      rw [List.foldl_cons, List.flatMap_cons, List.flatMap_cons]
      by_cases hdelete : value = .sentinelDelete
      · subst hdelete
        refine Parses.congr (Parses.bind (Parses.addToFieldMask path) (ih hrest object)) ?_ rfl ?_
        · rw [List.forall_mem_cons, true_and]
          exact (and_iff_right fun hne => absurd rfl hne).symm
        · rw [entryTransforms]
          rfl
      · rw [List.forall_mem_cons]
        exact parses_entry hdelete hpath object (ih hrest _)

/-! ### The field mask of an update -/

theorem isPlain_of_allows (h : ∀ name ∈ path, (entryContext path).Allows name) : path.IsPlain :=
  fun name hname hreserved => (h name hname).2 ⟨rfl, hreserved⟩

theorem isPlain_entryContext (h : path.IsPlain) : (entryContext path).IsPlain := by
  intro other hother
  cases hother
  exact ⟨rfl, h⟩

/-- The paths of an accepted entry that is no delete are plain. -/
theorem isPlain_entryPaths (h : entry.2 ≠ .sentinelDelete) (haccepted : EntryAccepted databaseId entry) :
    ∀ other ∈ entryPaths entry, other.IsPlain := by
  obtain ⟨path, value⟩ := entry
  obtain ⟨hnames, hvalue⟩ := haccepted h
  have hpath := isPlain_of_allows hnames
  rw [entryPaths_of_ne h, List.forall_mem_append]
  refine ⟨isPlain_maskPaths (isPlain_entryContext hpath) hvalue, fun other hother => ?_⟩
  split_ifs at hother
  · cases hother
  · rw [List.mem_singleton.mp hother]
    exact hpath

theorem comparable_of_plain {other : FieldPath} (h : path.IsPlain ∨ other.IsPlain) : other.compareTo path ≠ none := by
  rcases h with h | h
  · exact fun hnone => FieldPath.compareTo_ne_none h other (FieldPath.comparison.none_symm hnone)
  · exact FieldPath.compareTo_ne_none h path

theorem mem_entryPaths_of_deletedPath (h : deletedPath entry = some path) : path ∈ entryPaths entry := by
  obtain ⟨own, value⟩ := entry
  by_cases hdelete : value = .sentinelDelete
  · subst hdelete
    cases h
    exact List.mem_singleton_self own
  · rw [deletedPath_of_ne hdelete] at h
    cases h

theorem deleted_or_plain (haccepted : EntryAccepted databaseId entry) (h : path ∈ entryPaths entry) :
    deletedPath entry = some path ∨ path.IsPlain := by
  obtain ⟨own, value⟩ := entry
  by_cases hdelete : value = .sentinelDelete
  · subst hdelete
    rw [List.mem_singleton.mp h]
    exact .inl rfl
  · exact .inr (isPlain_entryPaths hdelete haccepted path h)

/-- The paths of deletes are the only ones that may be impossible to compare. -/
theorem pairwise_entryPaths_iff (haccepted : ∀ entry ∈ entries, EntryAccepted databaseId entry) :
    (entries.flatMap entryPaths).Pairwise (fun path other => other.compareTo path ≠ none) ↔
      (entries.filterMap deletedPath).Pairwise fun path other => other.compareTo path ≠ none := by
  induction entries with
  | nil => exact Iff.rfl
  | cons entry entries ih =>
      obtain ⟨hentry, hentries⟩ := List.forall_mem_cons.mp haccepted
      rw [List.flatMap_cons, List.pairwise_append, ih hentries]
      by_cases hdelete : entry.2 = .sentinelDelete
      · obtain ⟨path, value⟩ := entry
        subst hdelete
        have hdeleted : deletedPath (path, (.sentinelDelete : BridgeFieldValue D)) = some path := rfl
        have hown : entryPaths (path, (.sentinelDelete : BridgeFieldValue D)) = [path] := rfl
        rw [List.filterMap_cons_some hdeleted, List.pairwise_cons, hown, List.forall_mem_singleton]
        refine ⟨fun h => ⟨fun other hother => ?_, h.2.1⟩, fun h => ⟨List.pairwise_singleton _ _, h.2, fun other hother => ?_⟩⟩
        · obtain ⟨entry, hmem, hother⟩ := List.mem_filterMap.mp hother
          exact h.2.2 other (List.mem_flatMap.mpr ⟨entry, hmem, mem_entryPaths_of_deletedPath hother⟩)
        · obtain ⟨entry, hmem, hother⟩ := List.mem_flatMap.mp hother
          rcases deleted_or_plain (hentries entry hmem) hother with hdeleted | hplain
          · exact h.1 other (List.mem_filterMap.mpr ⟨entry, hmem, hdeleted⟩)
          · exact comparable_of_plain (.inr hplain)
      · have hplain := isPlain_entryPaths hdelete hentry
        rw [List.filterMap_cons_none (deletedPath_of_ne hdelete)]
        refine ⟨fun h => h.2.1, fun h => ⟨?_, h, fun path hpath other _ => comparable_of_plain (.inl (hplain path hpath))⟩⟩
        exact List.pairwise_of_forall_mem_list fun path hpath _ _ => comparable_of_plain (.inl (hplain path hpath))

variable {object : ObjectValue D}

theorem fieldsFilled_setEntry (h : FieldsFilled object.fields) (entry : FieldPath × BridgeFieldValue D) :
    FieldsFilled (setEntry object entry).fields := by
  rw [setEntry]
  split
  · rename_i hparsed
    exact ObjectValue.fieldsFilled_setAt (isFilled_withoutSentinels entry.2 hparsed) h
  · exact h

theorem fieldsFilled_foldl (h : FieldsFilled object.fields) (entries : List (FieldPath × BridgeFieldValue D)) :
    FieldsFilled (entries.foldl setEntry object).fields := by
  induction entries generalizing object with
  | nil => exact h
  | cons entry entries ih => exact ih (fieldsFilled_setEntry h entry)

end Entries

/-! ### The calls -/

/-- Every array that was made for a document and its transforms is filled. -/
structure Filled (object : ObjectValue D) (transforms : List (FieldTransform D)) : Prop where
  fields : FieldsFilled object.fields
  transforms : ∀ transform ∈ transforms, transform.transformation.IsFilled

variable {data : List (Bytes × BridgeFieldValue D)} {parsed : ParsedSetData D}

theorem parseSetData_eq_ok_iff :
    parser.parseSetData data = .ok parsed ↔ Accepts parser.databaseId (ParseContext.root .set) (.map data) ∧
      parsed = { data := documentWithoutSentinels data, fieldTransforms := transformsOf .set data, patch := false } := by
  rw [UserDataParser.parseSetData]
  dsimp only
  rw [bind_eq_ok]
  constructor
  · rintro ⟨output, hrun, hparsed⟩
    obtain ⟨haccepted, mask, hmask, rfl⟩ := ((parses_document parser .set data).ok_iff {} output).mp hrun
    exact ⟨haccepted, (Except.ok.inj hparsed).symm⟩
  · rintro ⟨haccepted, rfl⟩
    obtain ⟨mask, hrun, -⟩ := run_document rfl haccepted
    exact ⟨_, hrun, rfl⟩

theorem parseMergeData_eq_ok_iff :
    parser.parseMergeData data none = .ok parsed ↔ Accepts parser.databaseId (ParseContext.root .mergeSet) (.map data) ∧
      ∃ mask, IsSet FieldPath.compareTo FieldPath.key mask ∧
        (∀ path, path ∈ mask ↔ path ∈ (parts (ParseContext.root .mergeSet) (.map data)).filterMap maskPath) ∧
        parsed = { data := documentWithoutSentinels data, fieldMask := mask,
                   fieldTransforms := transformsOf .mergeSet data, patch := true } := by
  rw [UserDataParser.parseMergeData]
  dsimp only
  rw [bind_eq_ok]
  constructor
  · rintro ⟨output, hrun, hparsed⟩
    have haccepted := (((parses_document parser .mergeSet data).ok_iff {} output).mp hrun).1
    obtain ⟨mask, hmask, hset, hmem⟩ := @run_document D parser .mergeSet rfl data haccepted
    have hsame := Except.ok.inj (hrun.symm.trans hmask)
    subst hsame
    exact ⟨haccepted, mask, hset, hmem, (Except.ok.inj hparsed).symm⟩
  · rintro ⟨haccepted, mask, hset, hmem, rfl⟩
    obtain ⟨mask', hrun, hset', hmem'⟩ := @run_document D parser .mergeSet rfl data haccepted
    have hsame : mask' = mask := hset'.ext hset fun path => (hmem' path).trans (hmem path).symm
    subst hsame
    exact ⟨_, hrun, rfl⟩

theorem parseUpdateData_eq_ok_iff {entries : List (FieldPath × BridgeFieldValue D)}
    (hpaths : ∀ entry ∈ entries, entry.1 ≠ []) {parsed : ParsedUpdateData D} :
    parser.parseUpdateData entries = .ok parsed ↔ (∀ entry ∈ entries, EntryAccepted parser.databaseId entry) ∧
      ∃ mask, insertAll FieldPath.compareTo [] (entries.flatMap entryPaths) = some mask ∧
        parsed = { data := entries.foldl setEntry {}, fieldMask := mask,
                   fieldTransforms := entries.flatMap entryTransforms } := by
  rw [UserDataParser.parseUpdateData, bind_eq_ok]
  have hparses := @parses_parseUpdates D parser entries hpaths {}
  constructor
  · rintro ⟨output, hrun, hparsed⟩
    obtain ⟨haccepted, mask, hmask, rfl⟩ := (hparses.ok_iff {} output).mp hrun
    exact ⟨haccepted, mask, hmask, (Except.ok.inj hparsed).symm⟩
  · rintro ⟨haccepted, mask, hmask, rfl⟩
    exact ⟨_, (hparses.ok_iff {} _).mpr ⟨haccepted, mask, hmask, rfl⟩, rfl⟩

theorem parseUpdateData_succeeds_iff {entries : List (FieldPath × BridgeFieldValue D)}
    (hpaths : ∀ entry ∈ entries, entry.1 ≠ []) : (∃ parsed, parser.parseUpdateData entries = .ok parsed) ↔
      (∀ entry ∈ entries, EntryAccepted parser.databaseId entry) ∧
        (entries.filterMap deletedPath).Pairwise fun path other => other.compareTo path ≠ none := by
  constructor
  · rintro ⟨parsed, hparsed⟩
    obtain ⟨haccepted, mask, hmask, -⟩ := (parseUpdateData_eq_ok_iff hpaths).mp hparsed
    have hcomparable := (FieldPath.comparison.insertAll_ne_none_iff _ isSet_nil).mp
      (Option.ne_none_iff_exists'.mpr ⟨mask, hmask⟩)
    exact ⟨haccepted, (pairwise_entryPaths_iff haccepted).mp hcomparable.1⟩
  · rintro ⟨haccepted, hcomparable⟩
    have hinserted := (FieldPath.comparison.insertAll_ne_none_iff (entries.flatMap entryPaths) isSet_nil).mpr
      ⟨(pairwise_entryPaths_iff haccepted).mpr hcomparable, fun _ _ _ hnil => absurd hnil List.not_mem_nil⟩
    obtain ⟨mask, hmask⟩ := Option.ne_none_iff_exists'.mp hinserted
    exact ⟨_, (parseUpdateData_eq_ok_iff hpaths).mpr ⟨haccepted, mask, hmask, rfl⟩⟩

theorem ne_nil_of_mem_bridgeEntries {entries : List (PublicFieldPath × BridgeFieldValue D)} :
    ∀ entry ∈ bridgeEntries entries, entry.1 ≠ [] := by
  intro entry hentry
  obtain ⟨publicEntry, -, rfl⟩ := List.mem_map.mp hentry
  exact publicEntry.1.cppSegments_ne_nil

/-- Parsing succeeds exactly under a condition, and then has a result of this kind. -/
def Yields {α : Type} (result : Except ParseFailure α) (accepted : Prop) (kind : α → Prop) : Prop :=
  ((∃ parsed, result = .ok parsed) ↔ accepted) ∧ ∀ parsed, result = .ok parsed → kind parsed

/-- An overwrite, a merge and an update fail exactly where a part of the data is refused, or where the paths of two
deletes of an update cannot be compared. Otherwise the result is the data without its sentinels, with one transform
for each transform sentinel, and for a merge the paths of its parts. -/
theorem UserDataParser.parses_writes (parser : UserDataParser) :
    (∀ data : List (Bytes × BridgeFieldValue D),
      Yields (parser.parseSetData data) (Accepts parser.databaseId (ParseContext.root .set) (.map data)) fun parsed =>
        parsed.data = documentWithoutSentinels data ∧ parsed.fieldTransforms = transformsOf .set data ∧
        Filled parsed.data parsed.fieldTransforms) ∧
    (∀ data : List (Bytes × BridgeFieldValue D),
      Yields (parser.parseMergeData data none) (Accepts parser.databaseId (ParseContext.root .mergeSet) (.map data))
        fun parsed => parsed.data = documentWithoutSentinels data ∧ parsed.fieldTransforms = transformsOf .mergeSet data ∧
          Filled parsed.data parsed.fieldTransforms ∧ parsed.fieldMask.Nodup ∧
          ∀ path, path ∈ parsed.fieldMask ↔
            path ∈ (parts (ParseContext.root .mergeSet) (.map data)).filterMap maskPath) ∧
    ∀ entries : List (PublicFieldPath × BridgeFieldValue D),
      Yields (parser.parseUpdateData (bridgeEntries entries))
        ((∀ entry ∈ bridgeEntries entries, EntryAccepted parser.databaseId entry) ∧
          ((bridgeEntries entries).filterMap deletedPath).Pairwise fun path other => other.compareTo path ≠ none)
        fun parsed => parsed.data = (bridgeEntries entries).foldl setEntry {} ∧
          parsed.fieldTransforms = (bridgeEntries entries).flatMap entryTransforms ∧
          Filled parsed.data parsed.fieldTransforms := by
  have hdocument : ∀ source (data : List (Bytes × BridgeFieldValue D)),
      Filled (documentWithoutSentinels data) (transformsOf source data) := by
    intro source data
    refine ⟨fieldsFilled_document data, fun transform htransform => ?_⟩
    obtain ⟨part, -, hpart⟩ := List.mem_filterMap.mp htransform
    exact isFilled_partTransform hpart
  refine ⟨fun data => ⟨?_, ?_⟩, fun data => ⟨?_, ?_⟩, fun entries => ⟨?_, ?_⟩⟩
  · simp only [parseSetData_eq_ok_iff, exists_and_left, exists_eq, and_true]
  · intro parsed hparsed
    obtain ⟨-, rfl⟩ := parseSetData_eq_ok_iff.mp hparsed
    exact ⟨rfl, rfl, hdocument .set data⟩
  · constructor
    · rintro ⟨parsed, hparsed⟩
      exact (parseMergeData_eq_ok_iff.mp hparsed).1
    · intro haccepted
      obtain ⟨mask, -, hset, hmem⟩ := @run_document D parser .mergeSet rfl data haccepted
      exact ⟨_, parseMergeData_eq_ok_iff.mpr ⟨haccepted, mask, hset, hmem, rfl⟩⟩
  · intro parsed hparsed
    obtain ⟨-, mask, hset, hmem, rfl⟩ := parseMergeData_eq_ok_iff.mp hparsed
    exact ⟨rfl, rfl, hdocument .mergeSet data, hset.nodup, hmem⟩
  · exact parseUpdateData_succeeds_iff ne_nil_of_mem_bridgeEntries
  · intro parsed hparsed
    obtain ⟨-, mask, -, rfl⟩ := (parseUpdateData_eq_ok_iff ne_nil_of_mem_bridgeEntries).mp hparsed
    have hempty : FieldsFilled ({} : ObjectValue D).fields := trivial
    refine ⟨rfl, rfl, fieldsFilled_foldl hempty _, fun transform htransform => ?_⟩
    obtain ⟨entry, -, htransform⟩ := List.mem_flatMap.mp htransform
    obtain ⟨part, -, hpart⟩ := List.mem_filterMap.mp htransform
    exact isFilled_partTransform hpart

/-- A delete at a reserved name, and a union with a map with one -/
def reservedNames : List (PublicFieldPath × BridgeFieldValue Unit) :=
  [(⟨["__x__".toList], by decide, by decide⟩, .sentinelDelete),
    (⟨["tags".toList], by decide, by decide⟩, .sentinelArrayUnion [.map [(ascii "__x__", .null)]])]

/-- Reserved names are not refused everywhere. -/
theorem UserDataParser.reserved_names_accepted :
    ¬∀ (parser : UserDataParser) (entries : List (PublicFieldPath × BridgeFieldValue Unit)),
      (∃ entry ∈ bridgeEntries entries, (∃ name ∈ entry.1, isReserved name) ∨
        ∃ part ∈ parts (entryContext entry.1) entry.2, ∃ fields, part.2 = .map fields ∧
          ∃ field ∈ fields, isReserved field.1) →
      ¬∃ parsed, parser.parseUpdateData (bridgeEntries entries) = .ok parsed := by
  intro hrefused
  exact hrefused ⟨⟨[], []⟩⟩ reservedNames ⟨_, List.mem_cons_self, .inl ⟨_, List.mem_cons_self, rfl⟩⟩ ⟨_, rfl⟩

end FirebaseSwift.Firestore
