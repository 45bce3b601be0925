import FirebaseSwift.Library.MergePatches
import Mathlib.Algebra.Group.Int.Defs
import Mathlib.Data.List.Basic

/-! Updating metadata. What is sent is what differs from the dictionary that the metadata was made from: `null` for
what is gone, and of a dictionary only what differs in it. Merged into that dictionary this gives the metadata as
they are now. Strings stand for their canonical compositions, by which they are compared. -/

namespace FirebaseSwift.Storage

/-- What a dictionary of metadata holds, as it is parsed from JSON. Arrays, Booleans and fractions are `other`. -/
inductive MetadataValue (O : Type) where
  | string (value : String)
  | number (value : Int)
  | null
  | other (value : O)
  | dictionary (entries : List (String × MetadataValue O))

/-- What is neither `null` nor a dictionary -/
inductive MetadataScalar (O : Type) where
  | string (value : String)
  | number (value : Int)
  | other (value : O)

/-- The entries of a Swift dictionary, in some order -/
abbrev MetadataEntries (O : Type) := List (String × MetadataValue O)

variable {O : Type}

namespace MetadataEntries

def set (entries : MetadataEntries O) (key : String) (value : MetadataValue O) : MetadataEntries O :=
  (key, value) :: entries.filter fun entry => entry.1 ≠ key

def erase (entries : MetadataEntries O) (key : String) : MetadataEntries O :=
  entries.filter fun entry => entry.1 ≠ key

end MetadataEntries

namespace StorageMetadata

open MetadataEntries

mutual

/-- `remove(matchingMetadata:oldMetadata:)`, the loop over the old entries -/
def remove (newMetadata : MetadataEntries O) : MetadataEntries O → MetadataEntries O
  | [] => newMetadata
  | (key, oldValue) :: oldMetadata => remove (removeEntry newMetadata key oldValue) oldMetadata

/-- What the loop does for one entry -/
def removeEntry (newMetadata : MetadataEntries O) (key : String) : MetadataValue O → MetadataEntries O
  | .string oldString =>
      match newMetadata.lookup key with
      | none => set newMetadata key .null
      | some (.string newString) => if oldString = newString then erase newMetadata key else newMetadata
      | some _ => newMetadata
  | .dictionary oldDictionary =>
      match newMetadata.lookup key with
      | none => set newMetadata key .null
      | some (.dictionary newDictionary) =>
          if (remove newDictionary oldDictionary).isEmpty then erase newMetadata key
          else set newMetadata key (.dictionary (remove newDictionary oldDictionary))
      | some _ => newMetadata
  | _ =>
      match newMetadata.lookup key with
      | none => set newMetadata key .null
      | some _ => newMetadata

end

end StorageMetadata

/-! ### Values as JSON -/

namespace MetadataValue

mutual

def json : MetadataValue O → Json String (MetadataScalar O)
  | .string value => .plain (.string value)
  | .number value => .plain (.number value)
  | .null => .null
  | .other value => .plain (.other value)
  | .dictionary entries => .object (jsonEntries entries)

def jsonEntries : MetadataEntries O → String → Json String (MetadataScalar O)
  | [], _ => .absent
  | (key', value) :: entries, key => if key = key' then value.json else jsonEntries entries key

end

mutual

/-- Each key of a dictionary is there once. -/
def Distinct : MetadataValue O → Prop
  | .dictionary entries => DistinctEntries entries
  | _ => True

def DistinctEntries : MetadataEntries O → Prop
  | [] => True
  | (key, value) :: entries => List.lookup key entries = none ∧ value.Distinct ∧ DistinctEntries entries

end

mutual

/-- Only strings, and dictionaries of such -/
def OnlyTexts : MetadataValue O → Prop
  | .string _ => True
  | .dictionary entries => OnlyTextEntries entries
  | _ => False

def OnlyTextEntries : MetadataEntries O → Prop
  | [] => True
  | (_, value) :: entries => value.OnlyTexts ∧ OnlyTextEntries entries

end

end MetadataValue

namespace MetadataEntries

variable {entries : MetadataEntries O} {key key' : String} {value : MetadataValue O}

theorem lookup_erase : (entries.erase key).lookup key' = if key' = key then none else entries.lookup key' := by
  induction entries with
  | nil => exact (ite_self none).symm
  | cons entry entries ih =>
      rw [erase] at ih ⊢
      by_cases hsame : entry.1 = key
      · rw [List.filter_cons_of_neg (by rw [decide_eq_true_eq, not_not]; exact hsame), ih]
        by_cases hkey : key' = key
        · rw [if_pos hkey, if_pos hkey]
        · have hne : (key' == entry.1) = false := beq_false_of_ne fun heq => hkey (heq.trans hsame)
          rw [if_neg hkey, if_neg hkey, List.lookup_cons, hne]
      · have hkeep : (entry :: entries).filter (fun entry => entry.1 ≠ key) =
            entry :: entries.filter fun entry => entry.1 ≠ key := List.filter_cons_of_pos (decide_eq_true hsame)
        rw [hkeep, List.lookup_cons, List.lookup_cons]
        cases hkey : key' == entry.1 with
        | true =>
            have heq : key' = entry.1 := eq_of_beq hkey
            rw [if_neg fun hsame' => hsame (heq.symm.trans hsame')]
        | false => exact ih

theorem lookup_set : (entries.set key value).lookup key' = if key' = key then some value else entries.lookup key' := by
  have herase : (entries.filter fun entry => entry.1 ≠ key).lookup key' =
      if key' = key then none else entries.lookup key' := lookup_erase
  rw [set, List.lookup_cons]
  by_cases hkey : key' = key
  · rw [if_pos hkey, hkey, beq_self_eq_true]
  · rw [if_neg hkey] at herase ⊢
    rw [beq_false_of_ne hkey]
    exact herase

end MetadataEntries

open MetadataEntries MetadataValue

theorem jsonEntries_eq (entries : MetadataEntries O) (key : String) :
    jsonEntries entries key = ((entries.lookup key).map MetadataValue.json).getD .absent := by
  induction entries with
  | nil => rw [jsonEntries, List.lookup_nil, Option.map_none, Option.getD_none]
  | cons entry entries ih =>
      rw [jsonEntries, List.lookup_cons]
      by_cases hkey : key = entry.1
      · rw [if_pos hkey, hkey, beq_self_eq_true]
        rfl
      · rw [if_neg hkey, beq_false_of_ne hkey]
        exact ih

namespace StorageMetadata

/-- What is sent for an entry that was there before -/
def sent (oldValue : MetadataValue O) (newValue : Option (MetadataValue O)) : Option (MetadataValue O) :=
  match newValue with
  | none => some .null
  | some newValue =>
      match oldValue, newValue with
      | .string oldString, .string newString => if oldString = newString then none else some (.string newString)
      | .dictionary oldDictionary, .dictionary newDictionary =>
          if (remove newDictionary oldDictionary).isEmpty then none
          else some (.dictionary (remove newDictionary oldDictionary))
      | _, newValue => some newValue

theorem lookup_removeEntry (newMetadata : MetadataEntries O) (key key' : String) (oldValue : MetadataValue O) :
    (removeEntry newMetadata key oldValue).lookup key' =
      if key' = key then sent oldValue (newMetadata.lookup key) else newMetadata.lookup key' := by
  have hset : newMetadata.lookup key = none → (newMetadata.set key .null).lookup key' =
      if key' = key then sent oldValue (newMetadata.lookup key) else newMetadata.lookup key' := by
    intro hnone
    rw [lookup_set, hnone]
    rfl
  have hkept : ∀ newValue, newMetadata.lookup key = some newValue → sent oldValue (some newValue) = some newValue →
      newMetadata.lookup key' =
        if key' = key then sent oldValue (newMetadata.lookup key) else newMetadata.lookup key' := by
    intro newValue hlookup hsent
    rw [hlookup, hsent]
    split
    · rename_i hkey
      rw [hkey, hlookup]
    · rfl
  cases hlookup : newMetadata.lookup key with
  | none =>
      rw [hlookup] at hset
      cases oldValue <;> simp only [removeEntry, hlookup] <;> exact hset rfl
  | some newValue =>
      rw [hlookup] at hkept
      cases oldValue with
      | string oldString =>
          rw [removeEntry, hlookup]
          cases newValue with
          | string newString =>
              dsimp only [sent]
              split
              · exact lookup_erase
              · rename_i hne
                exact (hkept _ rfl (if_neg hne)).trans (by dsimp only [sent]; rw [if_neg hne])
          | number | null | other | dictionary => exact hkept _ rfl rfl
      | dictionary oldDictionary =>
          rw [removeEntry, hlookup]
          cases newValue with
          | dictionary newDictionary =>
              dsimp only [sent]
              split
              · exact lookup_erase
              · exact lookup_set
          | string | number | null | other => exact hkept _ rfl rfl
      | number | null | other =>
          simp only [removeEntry, hlookup]
          exact hkept _ rfl (by cases newValue <;> rfl)

/-- What is sent: what is new, and what an old entry needs. -/
theorem lookup_remove {newMetadata oldMetadata : MetadataEntries O} (hdistinct : DistinctEntries oldMetadata)
    (key : String) : (remove newMetadata oldMetadata).lookup key =
      match oldMetadata.lookup key with
      | none => newMetadata.lookup key
      | some oldValue => sent oldValue (newMetadata.lookup key) := by
  induction oldMetadata generalizing newMetadata with
  | nil => rw [remove, List.lookup_nil]
  | cons entry oldMetadata ih =>
      obtain ⟨key', oldValue⟩ := entry
      obtain ⟨hfresh, -, hrest⟩ := hdistinct
      rw [remove, ih hrest, lookup_removeEntry, List.lookup_cons]
      by_cases hkey : key = key'
      · rw [hkey, hfresh, beq_self_eq_true, if_pos rfl]
      · rw [beq_false_of_ne hkey, if_neg hkey]

/-! ### Merging what is sent -/

theorem json_ne_absent (value : MetadataValue O) : value.json ≠ .absent := by
  cases value <;> exact nofun

theorem mem_of_lookup {entries : MetadataEntries O} {key : String} {value : MetadataValue O}
    (h : entries.lookup key = some value) : (key, value) ∈ entries := by
  induction entries with
  | nil => cases h
  | cons entry entries ih =>
      rw [List.lookup_cons] at h
      cases hkey : key == entry.1 with
      | true =>
          rw [hkey] at h
          rw [eq_of_beq hkey, ← Option.some.inj h]
          exact List.mem_cons_self
      | false =>
          rw [hkey] at h
          exact List.mem_cons_of_mem _ (ih h)

/-- What is sent for an old value and any new one, as JSON -/
def sentJson (oldValue : MetadataValue O) (newValue : Option (MetadataValue O)) : Json String (MetadataScalar O) :=
  ((sent oldValue newValue).map MetadataValue.json).getD .absent

/-- What is sent for this value turns it into any other one. -/
def Patches (oldValue : MetadataValue O) : Prop :=
  ∀ newValue : MetadataValue O, newValue.json.NullFree →
    oldValue.json.mergePatch (sentJson oldValue (some newValue)) = newValue.json

theorem patches_of_get {oldValue : MetadataValue O} (hget : ∀ key, oldValue.json.get key = .absent)
    {newValue : MetadataValue O} (hnull : newValue.json.NullFree)
    (hsent : sent oldValue (some newValue) = some newValue) :
    oldValue.json.mergePatch (sentJson oldValue (some newValue)) = newValue.json := by
  rw [sentJson, hsent]
  exact Json.mergePatch_of_get hget hnull (json_ne_absent newValue)

theorem merge_entries {newMetadata oldMetadata : MetadataEntries O} (hdistinct : DistinctEntries oldMetadata)
    (hpatches : ∀ entry ∈ oldMetadata, Patches entry.2) (hnull : ∀ key, (jsonEntries newMetadata key).NullFree)
    (key : String) : (jsonEntries oldMetadata key).mergePatch (jsonEntries (remove newMetadata oldMetadata) key) =
      jsonEntries newMetadata key := by
  have hnew := hnull key
  rw [jsonEntries_eq newMetadata] at hnew ⊢
  rw [jsonEntries_eq, jsonEntries_eq, lookup_remove hdistinct]
  cases hold : oldMetadata.lookup key with
  | none => exact Json.absent_mergePatch hnew
  | some oldValue =>
      cases hlookup : newMetadata.lookup key with
      | none => exact Json.mergePatch_null _
      | some newValue =>
          rw [hlookup] at hnew
          exact hpatches _ (mem_of_lookup hold) newValue hnew

theorem patches_dictionary {oldDictionary : MetadataEntries O} (hdistinct : DistinctEntries oldDictionary)
    (hpatches : ∀ entry ∈ oldDictionary, Patches entry.2) : Patches (.dictionary oldDictionary) := by
  intro newValue hnull
  cases newValue with
  | string value => exact Json.mergePatch_plain _ _
  | number value => exact Json.mergePatch_plain _ _
  | other value => exact Json.mergePatch_plain _ _
  | null => exact absurd hnull id
  | dictionary newDictionary =>
      have hmerge := merge_entries hdistinct hpatches hnull
      rw [sentJson, sent]
      split
      · rename_i hempty
        rw [List.isEmpty_iff.mp hempty] at hmerge
        rw [Option.map_none, Option.getD_none, Json.mergePatch_absent, json, json]
        congr 1
        funext key
        have hkey := hmerge key
        rw [jsonEntries.eq_def [], Json.mergePatch_absent] at hkey
        exact hkey
      · rw [Option.map_some, Option.getD_some, json, json, json, Json.mergePatch_object]
        congr 1
        funext key
        exact hmerge key

mutual

theorem patches : (oldValue : MetadataValue O) → oldValue.Distinct → Patches oldValue
  | .string oldString, _ => by
      intro newValue hnull
      cases newValue with
      | string newString =>
          rw [sentJson, sent]
          split
          · rename_i hsame
            rw [hsame]
            exact Json.mergePatch_absent _
          · exact Json.mergePatch_plain _ _
      | number | null | other | dictionary => exact patches_of_get (fun _ => rfl) hnull rfl
  | .number _, _ => by
      intro newValue hnull
      exact patches_of_get (fun _ => rfl) hnull (by cases newValue <;> rfl)
  | .null, _ => by
      intro newValue hnull
      exact patches_of_get (fun _ => rfl) hnull (by cases newValue <;> rfl)
  | .other _, _ => by
      intro newValue hnull
      exact patches_of_get (fun _ => rfl) hnull (by cases newValue <;> rfl)
  | .dictionary oldDictionary, hdistinct => patches_dictionary hdistinct (patches_entries oldDictionary hdistinct)

theorem patches_entries : (entries : MetadataEntries O) → DistinctEntries entries → ∀ entry ∈ entries, Patches entry.2
  | [], _ => nofun
  | (_, value) :: entries, hdistinct =>
      List.forall_mem_cons.mpr ⟨patches value hdistinct.2.1, patches_entries entries hdistinct.2.2⟩

end

/-! ### What is not sent -/

/-- Nothing is sent for a new value that has only strings in it and equals this one. -/
def Drops (oldValue : MetadataValue O) : Prop :=
  ∀ newValue : MetadataValue O, newValue.OnlyTexts → oldValue.json = newValue.json → sent oldValue (some newValue) = none

theorem onlyTexts_of_mem {entries : MetadataEntries O} (h : OnlyTextEntries entries) : ∀ entry ∈ entries, entry.2.OnlyTexts := by
  induction entries with
  | nil => exact nofun
  | cons entry entries ih => exact List.forall_mem_cons.mpr ⟨h.1, ih h.2⟩

theorem distinct_of_mem {entries : MetadataEntries O} (h : DistinctEntries entries) : ∀ entry ∈ entries, entry.2.Distinct := by
  induction entries with
  | nil => exact nofun
  | cons entry entries ih => exact List.forall_mem_cons.mpr ⟨h.2.1, ih h.2.2⟩

theorem eq_nil_of_lookup {entries : MetadataEntries O} (h : ∀ key, entries.lookup key = none) : entries = [] := by
  cases entries with
  | nil => rfl
  | cons entry entries =>
      have hhead := h entry.1
      rw [List.lookup_cons, beq_self_eq_true] at hhead
      cases hhead

theorem remove_eq_nil {newMetadata oldMetadata : MetadataEntries O} (hdistinct : DistinctEntries oldMetadata)
    (hdrops : ∀ entry ∈ oldMetadata, Drops entry.2) (htexts : OnlyTextEntries newMetadata)
    (hsame : jsonEntries oldMetadata = jsonEntries newMetadata) : remove newMetadata oldMetadata = [] := by
  apply eq_nil_of_lookup
  intro key
  have hkey := congrFun hsame key
  rw [jsonEntries_eq, jsonEntries_eq] at hkey
  rw [lookup_remove hdistinct]
  cases hold : oldMetadata.lookup key with
  | none =>
      cases hnew : newMetadata.lookup key with
      | none => rfl
      | some newValue =>
          rw [hold, hnew] at hkey
          exact absurd hkey.symm (json_ne_absent newValue)
  | some oldValue =>
      cases hnew : newMetadata.lookup key with
      | none =>
          rw [hold, hnew] at hkey
          exact absurd hkey (json_ne_absent oldValue)
      | some newValue =>
          rw [hold, hnew] at hkey
          exact hdrops _ (mem_of_lookup hold) newValue (onlyTexts_of_mem htexts _ (mem_of_lookup hnew)) hkey

mutual

theorem drops : (oldValue : MetadataValue O) → oldValue.Distinct → Drops oldValue
  | .string oldString, _ => by
      intro newValue htexts hsame
      cases newValue with
      | string newString =>
          cases hsame
          exact if_pos rfl
      | number | null | other | dictionary => cases hsame
  | .number _, _ => by
      intro newValue htexts hsame
      cases newValue with
      | number => exact absurd htexts id
      | string | null | other | dictionary => cases hsame
  | .null, _ => by
      intro newValue htexts hsame
      cases newValue with
      | null => exact absurd htexts id
      | string | number | other | dictionary => cases hsame
  | .other _, _ => by
      intro newValue htexts hsame
      cases newValue with
      | other => exact absurd htexts id
      | string | number | null | dictionary => cases hsame
  | .dictionary oldDictionary, hdistinct => by
      intro newValue htexts hsame
      have hdrops := drops_entries oldDictionary hdistinct
      cases newValue with
      | dictionary newDictionary =>
          have hnil := remove_eq_nil hdistinct hdrops htexts (Json.object.inj hsame)
          dsimp only [sent]
          rw [hnil]
          rfl
      | string | number | null | other => cases hsame

theorem drops_entries : (entries : MetadataEntries O) → DistinctEntries entries → ∀ entry ∈ entries, Drops entry.2
  | [], _ => nofun
  | (_, value) :: entries, hdistinct =>
      List.forall_mem_cons.mpr ⟨drops value hdistinct.2.1, drops_entries entries hdistinct.2.2⟩

end

/-- A string or an object -/
def IsText : Json String (MetadataScalar O) → Prop
  | .plain (.string _) => True
  | .object _ => True
  | _ => False

/-- What metadata are made of: numbers, strings, and dictionaries of strings -/
def IsSendable (value : MetadataValue O) : Prop := value.OnlyTexts ∨ ∃ n, value = .number n

theorem not_isText_absent_valueAt (path : List String) :
    ¬IsText ((Json.absent : Json String (MetadataScalar O)).valueAt path) := by
  rw [Json.absent_valueAt]
  exact id

/-- Where a string or an object is at the same path on both sides, and they are equal, nothing is sent there. -/
theorem valueAt_remove {newMetadata oldMetadata : MetadataEntries O} (hdistinct : DistinctEntries oldMetadata)
    (hsendable : ∀ entry ∈ newMetadata, IsSendable entry.2) {path : List String} (hpath : path ≠ [])
    (htext : IsText ((Json.object (jsonEntries oldMetadata)).valueAt path))
    (hsame : (Json.object (jsonEntries oldMetadata)).valueAt path =
      (Json.object (jsonEntries newMetadata)).valueAt path) :
    (Json.object (jsonEntries (remove newMetadata oldMetadata))).valueAt path = .absent := by
  induction path generalizing newMetadata oldMetadata with
  | nil => exact absurd rfl hpath
  | cons key path ih =>
      rw [Json.valueAt, Json.get, jsonEntries_eq] at htext hsame ⊢
      rw [Json.valueAt, Json.get, jsonEntries_eq] at hsame
      rw [lookup_remove hdistinct]
      cases hold : oldMetadata.lookup key with
      | none =>
          rw [hold] at htext
          exact absurd htext (not_isText_absent_valueAt path)
      | some oldValue =>
          rw [hold, Option.map_some, Option.getD_some] at htext hsame
          cases hnew : newMetadata.lookup key with
          | none =>
              rw [hnew] at hsame
              rw [hsame] at htext
              exact absurd htext (not_isText_absent_valueAt path)
          | some newValue =>
              rw [hnew, Option.map_some, Option.getD_some] at hsame
              have hold := distinct_of_mem hdistinct _ (mem_of_lookup hold)
              have hnew := hsendable _ (mem_of_lookup hnew)
              dsimp only
              cases path with
              | nil =>
                  rcases hnew with htexts | ⟨n, rfl⟩
                  · rw [drops oldValue hold newValue htexts hsame]
                    rfl
                  · rw [hsame] at htext
                    exact absurd htext id
              | cons key' path =>
                  have hnone : ∀ value : MetadataValue O, (∀ key, value.json.get key = .absent) →
                      ¬IsText (value.json.valueAt (key' :: path)) := by
                    intro value hget
                    rw [Json.valueAt, hget]
                    exact not_isText_absent_valueAt path
                  cases oldValue with
                  | string | number | null | other => exact absurd htext (hnone _ fun _ => rfl)
                  | dictionary oldDictionary =>
                      cases newValue with
                      | string | number | null | other =>
                          rw [hsame] at htext
                          exact absurd htext (hnone _ fun _ => rfl)
                      | dictionary newDictionary =>
                          rcases hnew with htexts | ⟨n, hn⟩
                          · rw [sent]
                            split
                            · exact Json.absent_valueAt _
                            · have hmem := onlyTexts_of_mem htexts
                              exact ih hold (fun entry hentry => .inl (hmem entry hentry)) (List.cons_ne_nil _ _) htext hsame
                          · cases hn

end StorageMetadata

/-! ### Metadata -/

/-- Reading and writing dates in the format of RFC 3339 -/
structure DateFormatter (D : Type) where
  date : String → Option D
  string : D → String

structure StorageMetadata (O D : Type) where
  bucket : String
  cacheControl : Option String
  contentDisposition : Option String
  contentEncoding : Option String
  contentLanguage : Option String
  contentType : Option String
  md5Hash : Option String
  generation : Int
  customMetadata : Option (List (String × String))
  metageneration : Int
  path : Option String
  size : Int
  timeCreated : Option D
  updated : Option D
  initialMetadata : MetadataEntries O

/-- A dictionary from which metadata are made. In it and in those inside it each key is there once. -/
structure MetadataDictionary (O : Type) where
  entries : MetadataEntries O
  distinct : DistinctEntries entries

namespace StorageMetadata

variable {D : Type}

section Reading

/-- The cast to `String` -/
def asString : MetadataValue O → Option String
  | .string value => some value
  | _ => none

/-- The cast to a dictionary of strings, which fails if one value is no string -/
def asStrings : MetadataValue O → Option (List (String × String))
  | .dictionary entries => entries.mapM fun entry => (asString entry.2).map fun value => (entry.1, value)
  | _ => none

/-- `Int64` of a text: a sign and decimal digits -/
def int64 (text : String) : Option Int :=
  let digits := if text.toList.head? = some '-' ∨ text.toList.head? = some '+' then text.toList.tail else text.toList
  let magnitude : Int := (digits.foldl (fun n c => 10 * n + (c.toNat - 48)) 0 : Nat)
  let value := if text.toList.head? = some '-' then -magnitude else magnitude
  if digits = [] ∨ ¬digits.all Char.isDigit ∨ value < -2 ^ 63 ∨ 2 ^ 63 ≤ value then none else some value

def intFromDictionaryValue : Option (MetadataValue O) → Int
  | some (.number value) => value
  | some (.string value) => (int64 value).getD 0
  | _ => 0

def dateFromRFC3339String (formatter : DateFormatter D) : Option (MetadataValue O) → Option D
  | some (.string value) => formatter.date value
  | _ => none

/-- `init(dictionary:)` -/
def make (formatter : DateFormatter D) (dictionary : MetadataEntries O) : StorageMetadata O D where
  bucket := ((dictionary.lookup "bucket").bind asString).getD ""
  cacheControl := (dictionary.lookup "cacheControl").bind asString
  contentDisposition := (dictionary.lookup "contentDisposition").bind asString
  contentEncoding := (dictionary.lookup "contentEncoding").bind asString
  contentLanguage := (dictionary.lookup "contentLanguage").bind asString
  contentType := (dictionary.lookup "contentType").bind asString
  customMetadata := (dictionary.lookup "metadata").bind asStrings
  size := intFromDictionaryValue (dictionary.lookup "size")
  generation := intFromDictionaryValue (dictionary.lookup "generation")
  metageneration := intFromDictionaryValue (dictionary.lookup "metageneration")
  timeCreated := dateFromRFC3339String formatter (dictionary.lookup "timeCreated")
  updated := dateFromRFC3339String formatter (dictionary.lookup "updated")
  md5Hash := (dictionary.lookup "md5Hash").bind asString
  path := (dictionary.lookup "name").bind asString
  initialMetadata := dictionary

end Reading

section Writing

variable (formatter : DateFormatter D) (metadata : StorageMetadata O D)

/-- A number that is zero was not given. -/
def numberText (n : Int) : Option (MetadataValue O) := if n ≠ 0 then some (.string (toString n)) else none

def dictionaryOf (strings : List (String × String)) : MetadataValue O :=
  .dictionary (strings.map fun entry => (entry.1, .string entry.2))

/-- The entries of `dictionaryRepresentation`, some of which have no value -/
def representedEntries : List (String × Option (MetadataValue O)) :=
  [("bucket", some (.string metadata.bucket)),
   ("cacheControl", metadata.cacheControl.map .string),
   ("contentDisposition", metadata.contentDisposition.map .string),
   ("contentEncoding", metadata.contentEncoding.map .string),
   ("contentLanguage", metadata.contentLanguage.map .string),
   ("contentType", metadata.contentType.map .string),
   ("md5Hash", metadata.md5Hash.map .string),
   ("size", if metadata.size ≠ 0 then some (.number metadata.size) else none),
   ("generation", numberText metadata.generation),
   ("metageneration", numberText metadata.metageneration),
   ("timeCreated", metadata.timeCreated.map fun date => .string (formatter.string date)),
   ("updated", metadata.updated.map fun date => .string (formatter.string date)),
   ("name", metadata.path.map .string),
   ("metadata", metadata.customMetadata.map dictionaryOf)]

def dictionaryRepresentation : MetadataEntries O :=
  (metadata.representedEntries formatter).filterMap fun entry => entry.2.map fun value => (entry.1, value)

def updatedMetadata : MetadataEntries O := remove (metadata.dictionaryRepresentation formatter) metadata.initialMetadata

end Writing

/-- What can be set of metadata -/
inductive Change where
  | cacheControl (value : Option String)
  | contentDisposition (value : Option String)
  | contentEncoding (value : Option String)
  | contentLanguage (value : Option String)
  | contentType (value : Option String)
  | customMetadata (value : Option (List (String × String)))
  | path (value : Option String)

def apply (metadata : StorageMetadata O D) : Change → StorageMetadata O D
  | .cacheControl value => { metadata with cacheControl := value }
  | .contentDisposition value => { metadata with contentDisposition := value }
  | .contentEncoding value => { metadata with contentEncoding := value }
  | .contentLanguage value => { metadata with contentLanguage := value }
  | .contentType value => { metadata with contentType := value }
  | .customMetadata value => { metadata with customMetadata := value }
  | .path value => { metadata with path := value }

theorem initialMetadata_apply (metadata : StorageMetadata O D) (change : Change) :
    (metadata.apply change).initialMetadata = metadata.initialMetadata := by
  cases change <;> rfl

/-- The dictionary that metadata were made from stays. -/
theorem initialMetadata_changes (metadata : StorageMetadata O D) (changes : List Change) :
    (changes.foldl apply metadata).initialMetadata = metadata.initialMetadata := by
  induction changes generalizing metadata with
  | nil => rfl
  | cons change changes ih => rw [List.foldl_cons, ih, initialMetadata_apply]

theorem isSendable_string (value : String) : IsSendable (O := O) (.string value) := .inl trivial

theorem isSendable_dictionaryOf (strings : List (String × String)) : IsSendable (O := O) (dictionaryOf strings) := by
  refine .inl ?_
  show OnlyTextEntries (strings.map fun entry => (entry.1, .string entry.2))
  induction strings with
  | nil => exact trivial
  | cons entry strings ih => exact ⟨trivial, ih⟩

theorem isSendable_numberText {n : Int} {value : MetadataValue O} (h : value ∈ numberText n) : IsSendable value := by
  rw [numberText] at h
  split at h
  · exact Option.some.inj h ▸ isSendable_string _
  · cases h

theorem isSendable_map {α : Type} {f : α → MetadataValue O} (hf : ∀ a, IsSendable (f a)) {given : Option α}
    {value : MetadataValue O} (h : value ∈ given.map f) : IsSendable value := by
  obtain ⟨a, -, rfl⟩ := Option.map_eq_some_iff.mp h
  exact hf a

theorem isSendable_dictionaryRepresentation (formatter : DateFormatter D) (metadata : StorageMetadata O D) :
    ∀ entry ∈ metadata.dictionaryRepresentation formatter, IsSendable entry.2 := by
  have hsendable : ∀ entry ∈ metadata.representedEntries formatter, ∀ value ∈ entry.2, IsSendable value := by
    rw [representedEntries]
    simp only [List.forall_mem_cons]
    have hstring : ∀ value : String, IsSendable (MetadataValue.string (O := O) value) := isSendable_string
    refine ⟨fun _ h => Option.some.inj h ▸ hstring _, fun _ => isSendable_map hstring, fun _ => isSendable_map hstring,
      fun _ => isSendable_map hstring, fun _ => isSendable_map hstring, fun _ => isSendable_map hstring,
      fun _ => isSendable_map hstring, ?_, fun _ => isSendable_numberText, fun _ => isSendable_numberText,
      fun _ => isSendable_map fun _ => hstring _, fun _ => isSendable_map fun _ => hstring _,
      fun _ => isSendable_map hstring, fun _ => isSendable_map isSendable_dictionaryOf, nofun⟩
    intro value h
    split at h
    · exact Option.some.inj h ▸ .inr ⟨_, rfl⟩
    · cases h
  intro entry hentry
  obtain ⟨represented, hmem, hmap⟩ := List.mem_filterMap.mp hentry
  obtain ⟨value, hvalue, rfl⟩ := Option.map_eq_some_iff.mp hmap
  exact hsendable represented hmem value hvalue

mutual

theorem nullFree_of_onlyTexts : (value : MetadataValue O) → value.OnlyTexts → value.json.NullFree
  | .string _, _ => trivial
  | .dictionary entries, h => nullFree_entries entries h
  | .number _, h => absurd h id
  | .null, h => absurd h id
  | .other _, h => absurd h id

theorem nullFree_entries : (entries : MetadataEntries O) → OnlyTextEntries entries →
    ∀ key, (jsonEntries entries key).NullFree
  | [], _, _ => trivial
  | (key', value) :: entries, h, key => by
      rw [jsonEntries]
      split
      · exact nullFree_of_onlyTexts value h.1
      · exact nullFree_entries entries h.2 key

end

theorem nullFree_of_isSendable {entries : MetadataEntries O} (h : ∀ entry ∈ entries, IsSendable entry.2) (key : String) :
    (jsonEntries entries key).NullFree := by
  rw [jsonEntries_eq]
  cases hlookup : entries.lookup key with
  | none => exact trivial
  | some value =>
      rcases h _ (mem_of_lookup hlookup) with htexts | ⟨n, rfl⟩
      · exact nullFree_of_onlyTexts value htexts
      · exact trivial

/-- However metadata are changed, merging what is sent into the dictionary they were made from gives their
representation, and no string or dictionary is sent where it was. -/
theorem updatedMetadata_patches (formatter : DateFormatter D) (initial : MetadataDictionary O) (changes : List Change) :
    let metadata := changes.foldl apply (make formatter initial.entries)
    let old : Json String (MetadataScalar O) := .object (jsonEntries initial.entries)
    let new := Json.object (jsonEntries (metadata.dictionaryRepresentation formatter))
    let sent := Json.object (jsonEntries (metadata.updatedMetadata formatter))
    old.mergePatch sent = new ∧
      ∀ path ≠ [], IsText (old.valueAt path) → old.valueAt path = new.valueAt path → sent.valueAt path = .absent := by
  intro metadata old new sent
  have hinitial : metadata.initialMetadata = initial.entries := initialMetadata_changes _ changes
  have hsendable := isSendable_dictionaryRepresentation formatter metadata
  have hsent : sent = .object (jsonEntries (remove (metadata.dictionaryRepresentation formatter) initial.entries)) := by
    show Json.object (jsonEntries (remove _ metadata.initialMetadata)) = _
    rw [hinitial]
  rw [hsent]
  constructor
  · rw [Json.mergePatch_object]
    congr 1
    funext key
    exact merge_entries initial.distinct (patches_entries initial.entries initial.distinct)
      (nullFree_of_isSendable hsendable) key
  · intro path hpath htext hsame
    exact valueAt_remove initial.distinct hsendable hpath htext hsame

end StorageMetadata

end FirebaseSwift.Storage
