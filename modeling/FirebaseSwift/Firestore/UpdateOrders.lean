import FirebaseSwift.Firestore.ReorderedData
import FirebaseSwift.Library.CommutingFolds

/-! The order of the entries of an update, which comes from a dictionary that has none. What is refused does not depend
on it, and the transforms don't. The values do where a path is in front of another and they don't fit, and the field
mask does where two deletes are at paths that compare as equal. -/

namespace FirebaseSwift.Firestore

open CommutingFolds ComparedSets UnicodeStrings

variable {D : Type}

/-! ### Setting values in any order -/

/-- An entry with its value as it is set -/
def settingOf (entry : FieldPath × BridgeFieldValue D) : FieldPath × Option (Value D) := (entry.1, sortedValue entry.2)

def applySetting (source : Value D) (setting : FieldPath × Option (Value D)) : Value D :=
  match setting.2 with
  | some value => replaceAt value setting.1 (some source)
  | none => source

/-- Where one path is in front of the other, its value holds the other value there. -/
def SettingsFit (first second : FieldPath × Option (Value D)) : Prop :=
  ∀ value ∈ first.2, ∀ value' ∈ second.2,
    (∀ rest, second.1 = first.1 ++ rest → getAt rest value = some value') ∧
      ∀ rest, first.1 = second.1 ++ rest → getAt rest value' = some value

section Settings

variable {first second : FieldPath × Option (Value D)} {source : Value D} {object : ObjectValue D}
  {entry : FieldPath × BridgeFieldValue D} {entries : List (FieldPath × BridgeFieldValue D)}

theorem SettingsFit.symm (h : SettingsFit first second) : SettingsFit second first :=
  fun value hvalue value' hvalue' => (h value' hvalue' value hvalue).symm

theorem ordered_applySetting (h : source.Ordered) (hsetting : OrderedSource first.2) : (applySetting source first).Ordered := by
  obtain ⟨path, value⟩ := first
  cases value with
  | none => exact h
  | some value => exact ordered_replaceAt (hsetting value rfl) fun _ heq => Option.some.inj heq ▸ h

/-- Settings that fit commute. -/
theorem applySetting_comm (h : SettingsFit first second) (hfirst : OrderedSource first.2) (hsecond : OrderedSource second.2)
    (hsource : source.Ordered) :
    applySetting (applySetting source first) second = applySetting (applySetting source second) first := by
  obtain ⟨path, value⟩ := first
  obtain ⟨path', value'⟩ := second
  cases value with
  | none => rfl
  | some value =>
      cases value' with
      | none => rfl
      | some value' =>
          obtain ⟨hbelow, habove⟩ := h value rfl value' rfl
          rw [applySetting, applySetting, applySetting, applySetting]
          dsimp only at hbelow habove ⊢
          by_cases hpath : path <+: path'
          · obtain ⟨rest, rfl⟩ := hpath
            rw [replaceAt_above (hfirst value rfl) (hbelow rest rfl), replaceAt_below]
          · by_cases hpath' : path' <+: path
            · obtain ⟨rest, rfl⟩ := hpath'
              rw [replaceAt_below, replaceAt_above (hsecond value' rfl) (habove rest rfl)]
            · exact replaceAt_aside (fun _ heq => Option.some.inj heq ▸ hsource) hpath' hpath value' value

/-- Settings that commute in one state fit. -/
theorem settingsFit_of_comm
    (h : applySetting (applySetting source first) second = applySetting (applySetting source second) first) :
    SettingsFit first second := by
  have hbelow : ∀ {first second : FieldPath × Option (Value D)},
      applySetting (applySetting source first) second = applySetting (applySetting source second) first →
      ∀ value ∈ first.2, ∀ value' ∈ second.2, ∀ rest, second.1 = first.1 ++ rest → getAt rest value = some value' := by
    rintro ⟨path, value⟩ ⟨path', value'⟩ h value rfl value' rfl rest hpath
    obtain rfl : path' = path ++ rest := hpath
    have hget := congrArg (getAt (path ++ rest)) h
    rw [applySetting, applySetting, applySetting, applySetting] at hget
    dsimp only at hget
    rw [getAt_replaceAt, getAt_append, getAt_replaceAt] at hget
    exact hget.symm
  exact fun value hvalue value' hvalue' =>
    ⟨hbelow h value hvalue value' hvalue', hbelow h.symm value' hvalue' value hvalue⟩

theorem map_setEntry (hpath : entry.1 ≠ []) (h : (Value.map object.fields).Ordered) :
    .map (setEntry object entry).fields = applySetting (.map object.fields) (settingOf entry) := by
  rw [setEntry, settingOf, applySetting, sortedValue]
  cases withoutSentinels entry.2 with
  | none => rfl
  | some parsed => exact map_setAt hpath h parsed

theorem map_foldl_setEntry (hpaths : ∀ entry ∈ entries, entry.1 ≠ [])
    (hordered : ∀ setting ∈ entries.map settingOf, OrderedSource setting.2) (h : (Value.map object.fields).Ordered) :
    .map (entries.foldl setEntry object).fields = (entries.map settingOf).foldl applySetting (.map object.fields) := by
  induction entries generalizing object with
  | nil => rfl
  | cons entry entries ih =>
      rw [List.map_cons, List.forall_mem_cons] at hordered
      obtain ⟨hpath, hrest⟩ := List.forall_mem_cons.mp hpaths
      have hentry := map_setEntry hpath h
      have hnext : (Value.map (setEntry object entry).fields).Ordered := by
        rw [hentry]
        exact ordered_applySetting h hordered.1
      rw [List.foldl_cons, List.map_cons, List.foldl_cons, ih hrest hordered.2 hnext, hentry]

/-- Settings that fit in pairs give the same in every order. -/
theorem foldl_applySetting_perm {settings settings' : List (FieldPath × Option (Value D))} (hperm : settings.Perm settings')
    (hfits : settings.Pairwise SettingsFit) (hordered : ∀ setting ∈ settings, OrderedSource setting.2)
    (hsource : source.Ordered) : settings.foldl applySetting source = settings'.foldl applySetting source := by
  have hrelated : settings.Pairwise fun first second =>
      SettingsFit first second ∧ OrderedSource first.2 ∧ OrderedSource second.2 :=
    hfits.imp_of_mem fun hfirst hsecond hfit => ⟨hfit, hordered _ hfirst, hordered _ hsecond⟩
  refine foldl_perm (fun h => ⟨h.1.symm, h.2.2, h.2.1⟩) (fun h hstate => applySetting_comm h.1 h.2.1 h.2.2 hstate) hperm
    hrelated (fun state hstate setting hsetting => ?_) hsource
  exact ordered_applySetting hstate (hordered setting hsetting)

end Settings

/-! ### Entries in another order -/

/-- The parser makes the same of two entries. -/
structure AlikeEntry (entry entry' : FieldPath × BridgeFieldValue D) : Prop where
  path : entry.1 = entry'.1
  value : Alike entry.2 entry'.2

/-- The entries of one list are those of the other in another order. -/
def AlikeUpdates (entries entries' : List (FieldPath × BridgeFieldValue D)) : Prop :=
  ∃ middle, List.Forall₂ AlikeEntry entries middle ∧ middle.Perm entries'

section Updates

variable {entry entry' : FieldPath × BridgeFieldValue D} {entries entries' : List (FieldPath × BridgeFieldValue D)}

theorem AlikeEntry.accepted (h : AlikeEntry entry entry') (databaseId : DatabaseId) :
    EntryAccepted databaseId entry ↔ EntryAccepted databaseId entry' := by
  rw [EntryAccepted, EntryAccepted, Ne, h.value.isDelete, h.path, Accepts,
    (h.value.parts (entryContext entry'.1)).accepts databaseId]
  exact Iff.rfl

theorem AlikeEntry.deletedPath (h : AlikeEntry entry entry') : deletedPath entry = deletedPath entry' := by
  by_cases hdelete : entry.2 = .sentinelDelete
  · rw [Firestore.deletedPath, Firestore.deletedPath, hdelete, h.value.isDelete.mp hdelete, h.path]
  · rw [deletedPath_of_ne hdelete, deletedPath_of_ne fun hdelete' => hdelete (h.value.isDelete.mpr hdelete')]

theorem AlikeEntry.settingOf (h : AlikeEntry entry entry') : settingOf entry = settingOf entry' := by
  rw [Firestore.settingOf, Firestore.settingOf, h.path, h.value.sorted]

theorem Alike.isSentinel {value value' : BridgeFieldValue D} (h : Alike value value') :
    value.isSentinel = value'.isSentinel := by
  have hsome := congrArg Option.isSome h.sorted
  rw [sortedValue, sortedValue, Option.isSome_map, Option.isSome_map, isSome_withoutSentinels,
    isSome_withoutSentinels] at hsome
  exact Bool.not_inj hsome

theorem AlikeEntry.paths (h : AlikeEntry entry entry') : (entryPaths entry).Perm (entryPaths entry') := by
  obtain ⟨path, value⟩ := entry
  obtain ⟨path', value'⟩ := entry'
  obtain ⟨rfl, halike⟩ := h
  dsimp only at halike ⊢
  by_cases hdelete : value = .sentinelDelete
  · rw [hdelete, halike.isDelete.mp hdelete]
  · rw [entryPaths_of_ne hdelete, entryPaths_of_ne fun hdelete' => hdelete (halike.isDelete.mpr hdelete'),
      halike.isSentinel]
    exact (halike.parts (entryContext path)).paths.append_right _

theorem AlikeEntry.transforms (h : AlikeEntry entry entry') :
    ((entryTransforms entry).map FieldTransform.sorted).Perm ((entryTransforms entry').map FieldTransform.sorted) := by
  rw [entryTransforms, entryTransforms, h.path]
  exact (h.value.parts (entryContext entry'.1)).transforms

namespace AlikeUpdates

theorem forall_iff (h : AlikeUpdates entries entries') {p : FieldPath × BridgeFieldValue D → Prop}
    (hp : ∀ {entry entry'}, AlikeEntry entry entry' → (p entry ↔ p entry')) :
    (∀ entry ∈ entries, p entry) ↔ ∀ entry ∈ entries', p entry := by
  obtain ⟨middle, halike, hperm⟩ := h
  have hmiddle : (∀ entry ∈ entries, p entry) ↔ ∀ entry ∈ middle, p entry := by
    clear hperm
    induction halike with
    | nil => exact Iff.rfl
    | cons hentry _ ih => rw [List.forall_mem_cons, List.forall_mem_cons, hp hentry, ih]
  rw [hmiddle]
  exact forall_congr' fun entry => by rw [hperm.mem_iff]

theorem filterMap_perm {β : Type} (h : AlikeUpdates entries entries') {f : FieldPath × BridgeFieldValue D → Option β}
    (hf : ∀ {entry entry'}, AlikeEntry entry entry' → f entry = f entry') :
    (entries.filterMap f).Perm (entries'.filterMap f) := by
  obtain ⟨middle, halike, hperm⟩ := h
  have hmiddle : entries.filterMap f = middle.filterMap f := by
    clear hperm
    induction halike with
    | nil => rfl
    | cons hentry _ ih => rw [List.filterMap_cons, List.filterMap_cons, hf hentry, ih]
  rw [hmiddle]
  exact hperm.filterMap f

theorem flatMap_perm {β : Type} (h : AlikeUpdates entries entries') {f : FieldPath × BridgeFieldValue D → List β}
    (hf : ∀ {entry entry'}, AlikeEntry entry entry' → (f entry).Perm (f entry')) :
    (entries.flatMap f).Perm (entries'.flatMap f) := by
  obtain ⟨middle, halike, hperm⟩ := h
  have hmiddle : (entries.flatMap f).Perm (middle.flatMap f) := by
    clear hperm
    induction halike with
    | nil => exact List.Perm.refl _
    | cons hentry _ ih =>
        rw [List.flatMap_cons, List.flatMap_cons]
        exact (hf hentry).append ih
  exact hmiddle.trans (hperm.flatMap_right f)

end AlikeUpdates

/-! ### Entries that fit -/

/-- The entry and the other are set in any order: where one path is in front of the other, its value holds the other
value there. -/
def Fits (entry other : FieldPath × BridgeFieldValue D) : Prop := SettingsFit (settingOf entry) (settingOf other)

/-- No entry is refused, and the paths of deletes can be compared. -/
def UpdateAccepted (databaseId : DatabaseId) (entries : List (FieldPath × BridgeFieldValue D)) : Prop :=
  (∀ entry ∈ entries, EntryAccepted databaseId entry) ∧
    (entries.filterMap deletedPath).Pairwise fun path other => other.compareTo path ≠ none

/-- Deletes at paths that compare as equal are at one path. -/
def DeletesApart (entries : List (FieldPath × BridgeFieldValue D)) : Prop :=
  ∀ path ∈ entries.filterMap deletedPath, ∀ other ∈ entries.filterMap deletedPath,
    path.compareTo other = some .eq → path = other

/-- The same data, field mask and transforms, but for the order of the fields in transforms -/
structure SameParsed (first second : ParsedUpdateData D) : Prop where
  data : first.data = second.data
  fieldMask : first.fieldMask = second.fieldMask
  fieldTransforms : ∀ transform, transform ∈ first.fieldTransforms.map FieldTransform.sorted ↔
    transform ∈ second.fieldTransforms.map FieldTransform.sorted

theorem AlikeUpdates.accepted (h : AlikeUpdates entries entries') (databaseId : DatabaseId) :
    UpdateAccepted databaseId entries ↔ UpdateAccepted databaseId entries' := by
  refine and_congr (h.forall_iff fun halike => halike.accepted databaseId) ?_
  exact (h.filterMap_perm fun halike => halike.deletedPath).pairwise_iff fun hcomparable hnone =>
    hcomparable (FieldPath.comparison.none_symm hnone)

theorem AlikeUpdates.data (h : AlikeUpdates entries entries') (hpaths : ∀ entry ∈ entries, entry.1 ≠ [])
    (hdistinct : ∀ entry ∈ entries, entry.2.Distinct) (hfits : entries.Pairwise Fits) :
    entries.foldl setEntry {} = entries'.foldl setEntry {} := by
  have hsettings : (entries.map settingOf).Perm (entries'.map settingOf) := by
    rw [← List.filterMap_eq_map]
    exact h.filterMap_perm fun halike => congrArg some halike.settingOf
  have hordered : ∀ setting ∈ entries.map settingOf, OrderedSource setting.2 := by
    intro setting hsetting
    obtain ⟨entry, hentry, rfl⟩ := List.mem_map.mp hsetting
    exact ordered_sortedValue (hdistinct entry hentry)
  have hordered' : ∀ setting ∈ entries'.map settingOf, OrderedSource setting.2 := fun setting hsetting =>
    hordered setting (hsettings.mem_iff.mpr hsetting)
  have hpaths' : ∀ entry ∈ entries', entry.1 ≠ [] := (h.forall_iff fun halike => by rw [halike.path]).mp hpaths
  have hempty : (Value.map ({} : ObjectValue D).fields).Ordered := ⟨List.Pairwise.nil, trivial⟩
  have hfields : Value.map (entries.foldl setEntry {}).fields = .map (entries'.foldl setEntry {}).fields := by
    rw [map_foldl_setEntry hpaths hordered hempty, map_foldl_setEntry hpaths' hordered' hempty]
    exact foldl_applySetting_perm hsettings (List.pairwise_map.mpr hfits) hordered hempty
  exact congrArg ObjectValue.mk (Value.map.inj hfields)

variable {databaseId : DatabaseId} {parser : UserDataParser} {parsed : ParsedUpdateData D}

/-- Paths that go to the mask and compare as equal are equal. -/
theorem eq_of_key_eq (haccepted : ∀ entry ∈ entries, EntryAccepted databaseId entry)
    (hcomparable : (entries.flatMap entryPaths).Pairwise fun path other => other.compareTo path ≠ none)
    (hapart : DeletesApart entries) {path other : FieldPath} (hpath : path ∈ entries.flatMap entryPaths)
    (hother : other ∈ entries.flatMap entryPaths) (hkey : path.key = other.key) : path = other := by
  by_contra hne
  obtain ⟨entry, hentry, hmem⟩ := List.mem_flatMap.mp hpath
  obtain ⟨entry', hentry', hmem'⟩ := List.mem_flatMap.mp hother
  rcases deleted_or_plain (haccepted entry hentry) hmem with hdeleted | hplain
  · rcases deleted_or_plain (haccepted entry' hentry') hmem' with hdeleted' | hplain'
    · have hsymm : Std.Symm fun path other : FieldPath => other.compareTo path ≠ none :=
        ⟨fun _ _ hsome hnone => hsome (FieldPath.comparison.none_symm hnone)⟩
      have hsome := hcomparable.forall hother hpath (Ne.symm hne)
      refine hne (hapart path (List.mem_filterMap.mpr ⟨entry, hentry, hdeleted⟩) other
        (List.mem_filterMap.mpr ⟨entry', hentry', hdeleted'⟩) ?_)
      rw [FieldPath.comparison.compare_of_ne_none hsome, hkey, compareKeys_self]
    · exact hne (FieldPath.key_inj hplain' hkey.symm).symm
  · exact hne (FieldPath.key_inj hplain hkey)

theorem AlikeUpdates.fieldMask (h : AlikeUpdates entries entries')
    (haccepted : UpdateAccepted databaseId entries) (hapart : DeletesApart entries) {mask mask' : FieldMask}
    (hmask : insertAll FieldPath.compareTo [] (entries.flatMap entryPaths) = some mask)
    (hmask' : insertAll FieldPath.compareTo [] (entries'.flatMap entryPaths) = some mask') : mask = mask' := by
  have hpaths := h.flatMap_perm fun halike => halike.paths
  have hcomparable := (pairwise_entryPaths_iff haccepted.1).mpr haccepted.2
  have hinj : ∀ path other, (path ∈ ([] : List FieldPath) ∨ path ∈ entries.flatMap entryPaths) →
      (other ∈ ([] : List FieldPath) ∨ other ∈ entries.flatMap entryPaths) → path.key = other.key → path = other :=
    fun path other hpath hother => eq_of_key_eq haccepted.1 hcomparable hapart
      (hpath.resolve_left List.not_mem_nil) (hother.resolve_left List.not_mem_nil)
  have hset := (FieldPath.comparison.insertAll_cases isSet_nil hmask).1
  have hset' := (FieldPath.comparison.insertAll_cases isSet_nil hmask').1
  refine hset.ext hset' fun path => ?_
  rw [FieldPath.comparison.mem_insertAll_iff isSet_nil hmask hinj,
    FieldPath.comparison.mem_insertAll_iff isSet_nil hmask', hpaths.mem_iff]
  intro path other hpath hother
  rw [← hpaths.mem_iff] at hpath hother
  exact hinj path other hpath hother

/-- Entries that fit and deletes that are apart give the same in every order, and what is refused is refused in every
order. -/
theorem AlikeUpdates.agree (h : AlikeUpdates entries entries') (hpaths : ∀ entry ∈ entries, entry.1 ≠ [])
    (hdistinct : ∀ entry ∈ entries, entry.2.Distinct)
    (hfits : UpdateAccepted parser.databaseId entries → entries.Pairwise Fits ∧ DeletesApart entries) :
    Option.Rel SameParsed (parser.parseUpdateData entries).toOption (parser.parseUpdateData entries').toOption := by
  have hpaths' : ∀ entry ∈ entries', entry.1 ≠ [] := (h.forall_iff fun halike => by rw [halike.path]).mp hpaths
  by_cases haccepted : UpdateAccepted parser.databaseId entries
  · obtain ⟨parsed, hparsed⟩ := (parseUpdateData_succeeds_iff hpaths).mpr haccepted
    obtain ⟨parsed', hparsed'⟩ := (parseUpdateData_succeeds_iff hpaths').mpr ((h.accepted _).mp haccepted)
    obtain ⟨-, mask, hmask, rfl⟩ := (parseUpdateData_eq_ok_iff hpaths).mp hparsed
    obtain ⟨-, mask', hmask', rfl⟩ := (parseUpdateData_eq_ok_iff hpaths').mp hparsed'
    obtain ⟨hfits, hapart⟩ := hfits haccepted
    rw [hparsed, hparsed']
    refine Option.Rel.some ⟨h.data hpaths hdistinct hfits, h.fieldMask haccepted hapart hmask hmask', fun transform => ?_⟩
    rw [List.map_flatMap, List.map_flatMap]
    exact (h.flatMap_perm fun halike => halike.transforms).mem_iff
  · have hfails : ∀ entries : List (FieldPath × BridgeFieldValue D), (∀ entry ∈ entries, entry.1 ≠ []) →
        ¬UpdateAccepted parser.databaseId entries → (parser.parseUpdateData entries).toOption = none := by
      intro entries hpaths hnot
      refine Option.eq_none_iff_forall_ne_some.mpr fun parsed hparsed => hnot ?_
      exact (parseUpdateData_succeeds_iff hpaths).mp ⟨parsed, ExceptLoops.toOption_eq_some.mp hparsed⟩
    rw [hfails entries hpaths haccepted, hfails entries' hpaths' fun h' => haccepted ((h.accepted _).mpr h')]
    exact Option.Rel.none

/-- The data of an update with two entries last -/
theorem data_of_last {entries : List (FieldPath × BridgeFieldValue D)}
    {first second : FieldPath × BridgeFieldValue D} (hpaths : ∀ entry ∈ entries ++ [first, second], entry.1 ≠ [])
    (hordered : ∀ entry ∈ entries ++ [first, second], OrderedSource (sortedValue entry.2))
    (hparsed : parser.parseUpdateData (entries ++ [first, second]) = .ok parsed) :
    .map parsed.data.fields = applySetting (applySetting ((entries.map settingOf).foldl applySetting (.map []))
      (settingOf first)) (settingOf second) := by
  obtain ⟨-, mask, -, rfl⟩ := (parseUpdateData_eq_ok_iff hpaths).mp hparsed
  have hempty : (Value.map ({} : ObjectValue D).fields).Ordered := ⟨List.Pairwise.nil, trivial⟩
  have hsettings : ∀ setting ∈ (entries ++ [first, second]).map settingOf, OrderedSource setting.2 := by
    intro setting hsetting
    obtain ⟨entry, hentry, rfl⟩ := List.mem_map.mp hsetting
    exact hordered entry hentry
  refine (map_foldl_setEntry hpaths hsettings hempty).trans ?_
  rw [List.map_append, List.foldl_append]
  rfl

/-- The path of a delete that comes first goes to the field mask. -/
theorem mem_fieldMask_of_first {entries : List (FieldPath × BridgeFieldValue D)}
    {entry : FieldPath × BridgeFieldValue D} {path : FieldPath} (hdeleted : deletedPath entry = some path)
    (hpaths : ∀ other ∈ entry :: entries, other.1 ≠ [])
    (hparsed : parser.parseUpdateData (entry :: entries) = .ok parsed) :
    path ∈ parsed.fieldMask ∧ IsSet FieldPath.compareTo FieldPath.key parsed.fieldMask := by
  obtain ⟨-, mask, hmask, rfl⟩ := (parseUpdateData_eq_ok_iff hpaths).mp hparsed
  have hset := (FieldPath.comparison.insertAll_cases isSet_nil hmask).1
  have hentry : entryPaths entry = [path] := by
    obtain ⟨own, value⟩ := entry
    by_cases hdelete : value = .sentinelDelete
    · subst hdelete
      cases hdeleted
      rfl
    · rw [deletedPath_of_ne hdelete] at hdeleted
      cases hdeleted
  rw [List.flatMap_cons, hentry, insertAll, List.singleton_append, List.foldlM_cons] at hmask
  have hfirst : ComparedSets.insert FieldPath.compareTo path [] = some [path] := rfl
  rw [hfirst] at hmask
  have hsingle : IsSet FieldPath.compareTo FieldPath.key [path] := List.pairwise_singleton _ _
  exact ⟨(FieldPath.comparison.insertAll_cases hsingle hmask).2.1 path (List.mem_singleton_self path), hset⟩

theorem SameParsed.symm {first second : ParsedUpdateData D} (h : SameParsed first second) : SameParsed second first :=
  ⟨h.data.symm, h.fieldMask.symm, fun transform => (h.fieldTransforms transform).symm⟩

theorem SameParsed.trans {first second third : ParsedUpdateData D} (h : SameParsed first second)
    (h' : SameParsed second third) : SameParsed first third :=
  ⟨h.data.trans h'.data, h.fieldMask.trans h'.fieldMask,
    fun transform => (h.fieldTransforms transform).trans (h'.fieldTransforms transform)⟩

/-- What agrees with one result agrees. -/
theorem rel_sameParsed {first second third : Option (ParsedUpdateData D)} (h : Option.Rel SameParsed first second)
    (h' : Option.Rel SameParsed first third) : Option.Rel SameParsed second third := by
  cases h with
  | none =>
      cases h'
      exact Option.Rel.none
  | some h =>
      cases h' with
      | some h' => exact Option.Rel.some (h.symm.trans h')

end Updates

/-! ### The call -/

section Calls

variable {fields fields' : List (PublicFieldPath.Key × BridgeFieldValue D)}
  {field field' : PublicFieldPath.Key × BridgeFieldValue D}

/-- The same dictionary in another order, and so every map in it -/
def SameUpdate (fields fields' : List (PublicFieldPath.Key × BridgeFieldValue D)) : Prop :=
  ∃ middle, List.Forall₂ (fun field field' => field.1 = field'.1 ∧ SameData field.2 field'.2) fields middle ∧
    middle.Perm fields'

theorem SameUpdate.of_perm (h : fields.Perm fields') : SameUpdate fields fields' :=
  ⟨fields, List.forall₂_same.mpr fun field _ => ⟨rfl, sameData_refl field.2⟩, h⟩

variable [UnicodeVersion]

/-- An entry with the path that its key is read as -/
def bridgeField (field : PublicFieldPath.Key × BridgeFieldValue D) : Option (FieldPath × BridgeFieldValue D) :=
  (PublicFieldPath.ofKey field.1).map fun path => (path.cppSegments, field.2)

/-- The data of an `updateData` call: its keys are read, and then it is parsed. Either may fail. -/
def parsedUpdate (parser : UserDataParser) (fields : List (PublicFieldPath.Key × BridgeFieldValue D)) :
    Option (ParsedUpdateData D) :=
  (toBridgeUpdateData fields).bind fun entries => (parser.parseUpdateData (bridgeEntries entries)).toOption

theorem toBridgeUpdateData_cons (field : PublicFieldPath.Key × BridgeFieldValue D)
    (fields : List (PublicFieldPath.Key × BridgeFieldValue D)) : toBridgeUpdateData (field :: fields) =
      (PublicFieldPath.ofKey field.1).bind fun path => (toBridgeUpdateData fields).map ((path, field.2) :: ·) := by
  rw [toBridgeUpdateData, List.mapM_cons]
  cases PublicFieldPath.ofKey field.1 with
  | none => rfl
  | some path =>
      rw [toBridgeUpdateData]
      cases fields.mapM fun field => (do return (← PublicFieldPath.ofKey field.1, field.2) : Option _) <;> rfl

/-- Where every key can be read, the entries are those of the fields. -/
theorem map_toBridgeUpdateData (h : ∀ field ∈ fields, (bridgeField field).isSome = true) :
    (toBridgeUpdateData fields).map bridgeEntries = some (fields.filterMap bridgeField) := by
  induction fields with
  | nil => rfl
  | cons field fields ih =>
      obtain ⟨hfield, hrest⟩ := List.forall_mem_cons.mp h
      rw [bridgeField, Option.isSome_map] at hfield
      obtain ⟨path, hpath⟩ := Option.isSome_iff_exists.mp hfield
      have hbridge : bridgeField field = some (path.cppSegments, field.2) := by
        rw [bridgeField, hpath]
        rfl
      obtain ⟨entries, hentries, hfields⟩ := Option.map_eq_some_iff.mp (ih hrest)
      rw [toBridgeUpdateData_cons, hpath, Option.bind_some, hentries, List.filterMap_cons_some hbridge, ← hfields]
      rfl

theorem toBridgeUpdateData_eq_none (h : ¬∀ field ∈ fields, (bridgeField field).isSome = true) :
    toBridgeUpdateData fields = none := by
  induction fields with
  | nil => exact absurd (fun _ hmem => absurd hmem List.not_mem_nil) h
  | cons field fields ih =>
      rw [toBridgeUpdateData_cons]
      cases hpath : PublicFieldPath.ofKey field.1 with
      | none => rfl
      | some path =>
          have hfield : (bridgeField field).isSome = true := by
            rw [bridgeField, hpath]
            rfl
          rw [Option.bind_some, ih fun hrest => h (List.forall_mem_cons.mpr ⟨hfield, hrest⟩)]
          rfl

variable {parser : UserDataParser}

theorem parsedUpdate_of_readable (h : ∀ field ∈ fields, (bridgeField field).isSome = true) :
    parsedUpdate parser fields = (parser.parseUpdateData (fields.filterMap bridgeField)).toOption := by
  obtain ⟨entries, hentries, hfields⟩ := Option.map_eq_some_iff.mp (map_toBridgeUpdateData h)
  rw [parsedUpdate, hentries, Option.bind_some, hfields]

theorem parsedUpdate_of_not (h : ¬∀ field ∈ fields, (bridgeField field).isSome = true) :
    parsedUpdate parser fields = none := by
  rw [parsedUpdate, toBridgeUpdateData_eq_none h]
  rfl

theorem isSome_bridgeField_congr (h : field.1 = field'.1) : (bridgeField field).isSome = (bridgeField field').isSome := by
  rw [bridgeField, bridgeField, Option.isSome_map, Option.isSome_map, h]

theorem bridgeField_congr (h : field.1 = field'.1) (hvalue : Alike field.2 field'.2) :
    Option.Rel AlikeEntry (bridgeField field) (bridgeField field') := by
  rw [bridgeField, bridgeField, h]
  cases PublicFieldPath.ofKey field'.1 with
  | none => exact Option.Rel.none
  | some path => exact Option.Rel.some ⟨rfl, hvalue⟩

theorem SameUpdate.readable_iff (h : SameUpdate fields fields') :
    (∀ field ∈ fields, (bridgeField field).isSome = true) ↔ ∀ field ∈ fields', (bridgeField field).isSome = true := by
  obtain ⟨middle, hsame, hperm⟩ := h
  have hmiddle : (∀ field ∈ fields, (bridgeField field).isSome = true) ↔
      ∀ field ∈ middle, (bridgeField field).isSome = true := by
    clear hperm
    induction hsame with
    | nil => exact Iff.rfl
    | cons hfield _ ih => rw [List.forall_mem_cons, List.forall_mem_cons, isSome_bridgeField_congr hfield.1, ih]
  rw [hmiddle]
  exact forall_congr' fun field => by rw [hperm.mem_iff]

theorem SameUpdate.alike (h : SameUpdate fields fields') (hdistinct : ∀ field ∈ fields, field.2.Distinct) :
    AlikeUpdates (fields.filterMap bridgeField) (fields'.filterMap bridgeField) := by
  obtain ⟨middle, hsame, hperm⟩ := h
  refine ⟨middle.filterMap bridgeField, ?_, hperm.filterMap bridgeField⟩
  clear hperm
  induction hsame with
  | nil => exact List.Forall₂.nil
  | @cons field field' _ _ hfield _ ih =>
      obtain ⟨hvalue, hrest⟩ := List.forall_mem_cons.mp hdistinct
      have hbridge := bridgeField_congr hfield.1 (alike_of_same hfield.2 hvalue)
      rw [List.filterMap_cons, List.filterMap_cons]
      generalize bridgeField field = entry at hbridge ⊢
      generalize bridgeField field' = entry' at hbridge ⊢
      cases hbridge with
      | none => exact ih hrest
      | some hentry => exact List.Forall₂.cons hentry (ih hrest)

theorem mem_filterMap_bridgeField {entry : FieldPath × BridgeFieldValue D} (h : entry ∈ fields.filterMap bridgeField) :
    entry.1 ≠ [] ∧ ∃ field ∈ fields, bridgeField field = some entry ∧ entry.2 = field.2 := by
  obtain ⟨field, hfield, hbridge⟩ := List.mem_filterMap.mp h
  obtain ⟨path, -, rfl⟩ := Option.map_eq_some_iff.mp hbridge
  exact ⟨path.cppSegments_ne_nil, field, hfield, hbridge, rfl⟩

/-- Accepted entries in another order are parsed. -/
theorem exists_parsedUpdate (h : fields.Perm fields')
    (hreadable : ∀ field ∈ fields, (bridgeField field).isSome = true)
    (haccepted : UpdateAccepted parser.databaseId (fields.filterMap bridgeField)) :
    ∃ parsed, parsedUpdate parser fields' = some parsed ∧
      parser.parseUpdateData (fields'.filterMap bridgeField) = .ok parsed := by
  have hreadable' : ∀ field ∈ fields', (bridgeField field).isSome = true := fun field hfield =>
    hreadable field (h.mem_iff.mpr hfield)
  have hsame : AlikeUpdates (fields.filterMap bridgeField) (fields'.filterMap bridgeField) :=
    ⟨_, List.forall₂_same.mpr fun entry _ => ⟨rfl, Alike.refl entry.2⟩, h.filterMap bridgeField⟩
  obtain ⟨parsed, hparsed⟩ := (parseUpdateData_succeeds_iff fun entry hentry => (mem_filterMap_bridgeField hentry).1).mpr
    ((hsame.accepted parser.databaseId).mp haccepted)
  refine ⟨parsed, ?_, hparsed⟩
  rw [parsedUpdate_of_readable hreadable', hparsed]
  rfl

/-- Two entries that may come last in any order fit. -/
theorem fits_of_agree (hdistinct : ∀ field ∈ fields, field.2.Distinct)
    (hreadable : ∀ field ∈ fields, (bridgeField field).isSome = true)
    (haccepted : UpdateAccepted parser.databaseId (fields.filterMap bridgeField))
    (hagree : ∀ first second, SameUpdate fields first → SameUpdate fields second →
      Option.Rel SameParsed (parsedUpdate parser first) (parsedUpdate parser second)) :
    (fields.filterMap bridgeField).Pairwise Fits := by
  rw [List.pairwise_filterMap, List.pairwise_iff_forall_sublist]
  intro field field' hsublist entry hentry entry' hentry'
  obtain ⟨rest, hperm⟩ := hsublist.exists_perm_append
  have hfirst : fields.Perm (rest ++ [field, field']) := hperm.trans List.perm_append_comm
  have hsecond : fields.Perm (rest ++ [field', field]) := hfirst.trans ((List.Perm.swap field' field []).append_left rest)
  obtain ⟨parsed, hparsed, hrun⟩ := exists_parsedUpdate hfirst hreadable haccepted
  obtain ⟨parsed', hparsed', hrun'⟩ := exists_parsedUpdate hsecond hreadable haccepted
  have hrel := hagree _ _ (SameUpdate.of_perm hfirst) (SameUpdate.of_perm hsecond)
  rw [hparsed, hparsed'] at hrel
  have hlast : ∀ {field field' entry entry'}, bridgeField field = some entry → bridgeField field' = some entry' →
      (rest ++ [field, field']).filterMap bridgeField = rest.filterMap bridgeField ++ [entry, entry'] := by
    intro field field' entry entry' hentry hentry'
    rw [List.filterMap_append, List.filterMap_cons_some hentry, List.filterMap_cons_some hentry', List.filterMap_nil]
  have hfacts : ∀ {list}, fields.Perm list → ∀ entry ∈ list.filterMap bridgeField,
      entry.1 ≠ [] ∧ OrderedSource (sortedValue entry.2) := by
    intro list hlist entry hmem
    obtain ⟨hpath, field, hfield, -, hvalue⟩ := mem_filterMap_bridgeField hmem
    rw [hvalue]
    exact ⟨hpath, ordered_sortedValue (hdistinct field (hlist.mem_iff.mpr hfield))⟩
  have hentries := hfacts hfirst
  have hentries' := hfacts hsecond
  rw [hlast hentry hentry'] at hrun hentries
  rw [hlast hentry' hentry] at hrun' hentries'
  have hdata := data_of_last (fun entry h => (hentries entry h).1) (fun entry h => (hentries entry h).2) hrun
  have hdata' := data_of_last (fun entry h => (hentries' entry h).1) (fun entry h => (hentries' entry h).2) hrun'
  cases hrel with
  | some hsame =>
      rw [hsame.data, hdata'] at hdata
      exact settingsFit_of_comm hdata.symm

/-- Deletes that may come first in any order are at one path, or don't compare as equal. -/
theorem deletesApart_of_agree (hreadable : ∀ field ∈ fields, (bridgeField field).isSome = true)
    (haccepted : UpdateAccepted parser.databaseId (fields.filterMap bridgeField))
    (hagree : ∀ first second, SameUpdate fields first → SameUpdate fields second →
      Option.Rel SameParsed (parsedUpdate parser first) (parsedUpdate parser second)) :
    DeletesApart (fields.filterMap bridgeField) := by
  have hfirst : ∀ path ∈ (fields.filterMap bridgeField).filterMap deletedPath, ∃ list parsed, fields.Perm list ∧
      parsedUpdate parser list = some parsed ∧ path ∈ parsed.fieldMask ∧
      IsSet FieldPath.compareTo FieldPath.key parsed.fieldMask := by
    intro path hpath
    obtain ⟨entry, hentry, hdeleted⟩ := List.mem_filterMap.mp hpath
    obtain ⟨field, hfield, hbridge⟩ := List.mem_filterMap.mp hentry
    obtain ⟨before, after, rfl⟩ := List.append_of_mem hfield
    have hperm : (before ++ field :: after).Perm (field :: (before ++ after)) := List.perm_middle
    obtain ⟨parsed, hparsed, hrun⟩ := exists_parsedUpdate hperm hreadable haccepted
    rw [List.filterMap_cons_some hbridge] at hrun
    have hpaths : ∀ other ∈ entry :: (before ++ after).filterMap bridgeField, other.1 ≠ [] := by
      rw [← List.filterMap_cons_some hbridge]
      exact fun other hother => (mem_filterMap_bridgeField hother).1
    exact ⟨_, parsed, hperm, hparsed, mem_fieldMask_of_first hdeleted hpaths hrun⟩
  intro path hpath other hother hcompare
  obtain ⟨list, parsed, hperm, hparsed, hmem, hset⟩ := hfirst path hpath
  obtain ⟨list', parsed', hperm', hparsed', hmem', -⟩ := hfirst other hother
  have hrel := hagree _ _ (SameUpdate.of_perm hperm) (SameUpdate.of_perm hperm')
  rw [hparsed, hparsed'] at hrel
  cases hrel with
  | some hsame =>
      rw [← hsame.fieldMask] at hmem'
      exact hset.key_inj hmem hmem' ((cmp_eq_eq_iff _ _).mp (FieldPath.compareTo_eq hcompare).symm)

/-- Any two orders of an update fail both or give the same exactly if, where the update is accepted, the value of an
entry whose path is in front of another's holds the other's value there, and deletes at different paths don't compare as
equal. -/
theorem parsedUpdate_agrees_iff (parser : UserDataParser) (hdistinct : ∀ field ∈ fields, field.2.Distinct) :
    (∀ first second, SameUpdate fields first → SameUpdate fields second →
        Option.Rel SameParsed (parsedUpdate parser first) (parsedUpdate parser second)) ↔
      ∀ entries, toBridgeUpdateData fields = some entries → UpdateAccepted parser.databaseId (bridgeEntries entries) →
        (bridgeEntries entries).Pairwise Fits ∧ DeletesApart (bridgeEntries entries) := by
  by_cases hreadable : ∀ field ∈ fields, (bridgeField field).isSome = true
  · obtain ⟨entries, hentries, hbridge⟩ := Option.map_eq_some_iff.mp (map_toBridgeUpdateData hreadable)
    constructor
    · intro hagree entries' hentries' haccepted
      rw [hentries] at hentries'
      cases hentries'
      rw [hbridge] at haccepted ⊢
      exact ⟨fits_of_agree hdistinct hreadable haccepted hagree, deletesApart_of_agree hreadable haccepted hagree⟩
    · intro hfits first second hfirst hsecond
      have hagree : ∀ list, SameUpdate fields list →
          Option.Rel SameParsed (parsedUpdate parser fields) (parsedUpdate parser list) := by
        intro list hlist
        rw [parsedUpdate_of_readable hreadable, parsedUpdate_of_readable (hlist.readable_iff.mp hreadable)]
        refine (hlist.alike hdistinct).agree (fun entry hentry => (mem_filterMap_bridgeField hentry).1)
          (fun entry hentry => ?_) fun haccepted => ?_
        · obtain ⟨-, field, hfield, -, hvalue⟩ := mem_filterMap_bridgeField hentry
          exact hvalue ▸ hdistinct field hfield
        · rw [← hbridge] at haccepted ⊢
          exact hfits entries hentries haccepted
      exact rel_sameParsed (hagree first hfirst) (hagree second hsecond)
  · refine iff_of_true (fun first second hfirst hsecond => ?_) fun entries hentries => ?_
    · rw [parsedUpdate_of_not fun h => hreadable (hfirst.readable_iff.mpr h),
        parsedUpdate_of_not fun h => hreadable (hsecond.readable_iff.mpr h)]
      exact Option.Rel.none
    · rw [toBridgeUpdateData_eq_none hreadable] at hentries
      cases hentries

end Calls

/-- A field and another that is deleted -/
def setAndDelete : List (PublicFieldPath.Key × BridgeFieldValue Unit) :=
  [(.path ⟨["a".toList], by decide, by decide⟩, .map [(ascii "x", .null), (ascii "y", .null)]),
    (.path ⟨["b".toList], by decide, by decide⟩, .sentinelDelete)]

theorem parsedUpdate_agrees_iff_setAndDelete :
    (∀ field ∈ setAndDelete, field.2.Distinct) ∧ ∀ first second, SameUpdate setAndDelete first →
      SameUpdate setAndDelete second → Option.Rel SameParsed (@parsedUpdate Unit marksOnly ⟨⟨[], []⟩⟩ first)
        (@parsedUpdate Unit marksOnly ⟨⟨[], []⟩⟩ second) := by
  have hdistinct : ∀ field ∈ setAndDelete, field.2.Distinct := by
    refine List.forall_mem_cons.mpr ⟨⟨?_, trivial, trivial, trivial⟩, List.forall_mem_singleton.mpr trivial⟩
    exact List.nodup_cons.mpr ⟨by decide, List.nodup_singleton _⟩
  refine ⟨hdistinct, (@parsedUpdate_agrees_iff Unit setAndDelete marksOnly ⟨⟨[], []⟩⟩ hdistinct).mpr ?_⟩
  intro entries hentries _
  have hbridge : (@toBridgeUpdateData Unit marksOnly setAndDelete).map bridgeEntries =
      some [([ascii "a"], .map [(ascii "x", .null), (ascii "y", .null)]), ([ascii "b"], .sentinelDelete)] := rfl
  rw [hentries] at hbridge
  rw [Option.some.inj hbridge]
  refine ⟨List.pairwise_pair.mpr fun _ _ value' hnone => ?_, fun path hpath other hother _ => ?_⟩
  · cases hnone
  · rw [List.mem_singleton.mp hpath, List.mem_singleton.mp hother]

/-- A field, and one below it -/
def overlappingFields : List (PublicFieldPath.Key × BridgeFieldValue Unit) :=
  [(.path ⟨["a".toList], by decide, by decide⟩, .null), (.path ⟨["a".toList, "b".toList], by decide, by decide⟩, .null)]

/-- Of a field and one below it the last counts. -/
theorem overlapping_order_counts :
    ¬∀ (fields first second : List (PublicFieldPath.Key × BridgeFieldValue Unit)), (∀ field ∈ fields, field.2.Distinct) →
      SameUpdate fields first → SameUpdate fields second →
      Option.Rel SameParsed (@parsedUpdate Unit marksOnly ⟨⟨[], []⟩⟩ first)
        (@parsedUpdate Unit marksOnly ⟨⟨[], []⟩⟩ second) := by
  intro hall
  have hdistinct : ∀ field ∈ overlappingFields, field.2.Distinct :=
    List.forall_mem_cons.mpr ⟨trivial, List.forall_mem_singleton.mpr trivial⟩
  have hrel := hall overlappingFields overlappingFields overlappingFields.reverse hdistinct
    (SameUpdate.of_perm (List.Perm.refl _)) (SameUpdate.of_perm (List.reverse_perm _).symm)
  generalize hfirst : @parsedUpdate Unit marksOnly ⟨⟨[], []⟩⟩ overlappingFields = first at hrel
  generalize hsecond : @parsedUpdate Unit marksOnly ⟨⟨[], []⟩⟩ overlappingFields.reverse = second at hrel
  cases hrel with
  | none => cases hfirst
  | some hsame =>
      cases hfirst
      cases hsecond
      cases hsame.data

end FirebaseSwift.Firestore
