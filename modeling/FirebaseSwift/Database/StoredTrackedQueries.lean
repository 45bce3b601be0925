import FirebaseSwift.Database.StoredQueries
import FirebaseSwift.Library.RecordStores

/-! The tracked queries in the cache database. A run of the storage returns the last query that was stored for
each id and not removed, with equal parameters. -/

namespace FirebaseSwift.Database

open UnicodeStrings SortedDictionary FSnapshotUtilities ExceptLoops RecordStores

variable {K D Data : Type} [StringKey K]

/-! ### Dictionaries that were stored -/

/-- A field after it was stored. -/
def StoredField [DoubleType D] : WriteField K D → WriteField K D → Prop
  | .value plain, .value plain' => StoredValue plain plain'
  | .dictionary entries, .dictionary entries' =>
      ∀ key, Option.Rel StoredValue (get key entries) (get key entries')
  | _, _ => False

/-- What is serialized is read with the same entries. -/
def JSONSerialization.KeepsQueries [DoubleType D] [UnicodeVersion] (json : JSONSerialization K D Data) : Prop :=
  ∀ (query : TrackedQueryRecord K D) queryJSON data, query.trackedQueryJSON = .ok queryJSON →
    json.data queryJSON = some data → ∃ queryJSON', json.jsonObject data = .ok (some queryJSON') ∧
      ∀ key, Option.Rel StoredField (get key queryJSON) (get key queryJSON')

variable [TimeIntervalType D]

/-! ### Reading a query -/

/-- The queries are the same up to the equality of their parameters. -/
structure TrackedQueryRecord.Same (query query' : TrackedQueryRecord K D) : Prop where
  queryId : query.queryId = query'.queryId
  path : query.path = query'.path
  params : query.params.IsEqual query'.params
  lastUse : query.lastUse = query'.lastUse
  isActive : query.isActive = query'.isActive
  isComplete : query.isComplete = query'.isComplete

variable {field : Option (WriteField K D)}

theorem exists_stored {plain : PlainValue K D} (h : Option.Rel StoredField (some (.value plain)) field) :
    ∃ plain', field = some (.value plain') ∧ StoredValue plain plain' := by
  cases h with
  | @some _ field hfield =>
      cases field with
      | value plain' => exact ⟨plain', rfl, hfield⟩
      | dictionary entries => exact hfield.elim

theorem asInt_stored {number : Int64} (h : Option.Rel StoredField (some (.value (.number (.int64 number)))) field) :
    field.bind WriteField.asInt = some number := by
  obtain ⟨plain', rfl, hplain⟩ := exists_stored h
  cases hplain
  rfl

theorem asString_stored {s : List Char} (h : Option.Rel StoredField (some (.value (.string s))) field) :
    field.bind WriteField.asString = some s := by
  obtain ⟨plain', rfl, hplain⟩ := exists_stored h
  cases hplain
  rfl

theorem asBool_stored {flag : Bool} (h : Option.Rel StoredField (some (.value (.bool flag))) field) :
    field.bind WriteField.asBool = some flag := by
  obtain ⟨plain', rfl, hplain⟩ := exists_stored h
  cases hplain
  rfl

theorem asTimeInterval_stored {value : D}
    (h : Option.Rel StoredField (some (.value (.number (.double value)))) field) :
    field.bind WriteField.asTimeInterval = some value := by
  obtain ⟨plain', rfl, hplain⟩ := exists_stored h
  cases hplain with
  | refl => exact TimeIntervalType.ofNumber_double value
  | integer hexactly => exact TimeIntervalType.ofNumber_int64 value _ hexactly

theorem asDictionary_stored {entries : List (List Char × PlainValue K D)}
    (h : Option.Rel StoredField (some (.dictionary entries)) field) :
    ∃ entries', field.bind WriteField.asDictionary = some entries' ∧
      ∀ key, Option.Rel StoredValue (get key entries) (get key entries') := by
  cases h with
  | @some _ field hfield =>
      cases field with
      | value plain => exact hfield.elim
      | dictionary entries' => exact ⟨entries', rfl, hfield⟩

theorem trackedQueryKey_injective : Function.Injective trackedQueryKey := fun _ _ h =>
  writeRecordKey_injective (List.append_cancel_left h)

section Runs

variable [UnicodeVersion] {query : TrackedQueryRecord K D} {queryJSON queryJSON' : WriteJSON K D}

/-- The dictionary of a query is read as the query after it was stored. -/
theorem TrackedQueryRecord.exists_trackedQueryFrom (hpath : query.path.IsSplit) (hc : query.params.Consistent)
    (hr : query.params.Restorable) (hjson : query.trackedQueryJSON = .ok queryJSON)
    (hstored : ∀ key, Option.Rel StoredField (get key queryJSON) (get key queryJSON')) :
    ∃ query', trackedQueryFrom queryJSON' = some query' ∧ query'.Same query := by
  obtain ⟨startValue, endValue, hstart, hend, hwire⟩ := hr.exists_wireProtocolParams
  obtain ⟨params, hparams, hjson⟩ := bind_eq_ok.mp hjson
  rw [hwire] at hparams
  cases hparams
  cases hjson
  have hid := asInt_stored (hstored kFTrackedQueryId)
  have hpathString := asString_stored (hstored kFTrackedQueryPath)
  obtain ⟨queryObject, hobject, hentries⟩ := asDictionary_stored (hstored kFTrackedQueryParams)
  have hcomplete := asBool_stored (hstored kFTrackedQueryIsComplete)
  have hactive := asBool_stored (hstored kFTrackedQueryIsActive)
  have hlastUse := asTimeInterval_stored (hstored kFTrackedQueryLastUse)
  have hfields : QueryParams.HasFields (query.params.wireFields startValue endValue) queryObject := by
    intro field hfield
    have hentry := hentries field.1
    rwa [QueryParams.get_presentEntries (QueryParams.nodup_wireFields _ _ _) field hfield] at hentry
  obtain ⟨params', hread, hequal⟩ := QueryParams.exists_fromQueryObject hc hr hstart hend hfields
  refine ⟨⟨query.queryId, query.path, params', query.lastUse, query.isActive, query.isComplete⟩, ?_,
    rfl, rfl, hequal, rfl, rfl, rfl⟩
  rw [trackedQueryFrom, hid, hpathString, hobject, hcomplete, hactive, hlastUse]
  simp only [Option.bind_eq_bind, Option.bind_some, hread, FPath.ofString_toStringWithTrailingSlash hpath]

/-! ### Runs -/

/-- What the query is stored as reads as the query. -/
def TrackedQueryRecord.ReadFrom (json : JSONSerialization K D Data) (data : Data)
    (query : TrackedQueryRecord K D) : Prop :=
  ∃ queryJSON query', json.jsonObject data = .ok (some queryJSON) ∧ trackedQueryFrom queryJSON = some query' ∧
    query'.Same query

/-- The parameters of a stored query were built and can be read back, and the query is serialized. -/
def TrackedQueryEvent.Storable (json : JSONSerialization K D Data) : TrackedQueryEvent K D → Prop
  | .saveTrackedQuery query => query.path.IsSplit ∧ (∃ builders, query.params = .built builders) ∧
      query.params.Restorable ∧ ∀ queryJSON, query.trackedQueryJSON = .ok queryJSON → json.data queryJSON ≠ none
  | .removeTrackedQuery _ => True

/-- The queries after the event -/
def TrackedQueryEvent.apply (records : Int64 → Option (TrackedQueryRecord K D)) :
    TrackedQueryEvent K D → Int64 → Option (TrackedQueryRecord K D)
  | .saveTrackedQuery query => Function.update records query.queryId (some query)
  | .removeTrackedQuery queryId => Function.update records queryId none

/-- The last query that was stored for each id and not removed -/
def latestQueries (events : List (TrackedQueryEvent K D)) : Int64 → Option (TrackedQueryRecord K D) :=
  events.foldl TrackedQueryEvent.apply fun _ => none

namespace TrackedQueriesDB

variable {json : JSONSerialization K D Data} {serverCacheDB : TrackedQueriesDB Data}
  {records : Int64 → Option (TrackedQueryRecord K D)}

abbrev HoldsQueries (json : JSONSerialization K D Data) (serverCacheDB : TrackedQueriesDB Data)
    (records : Int64 → Option (TrackedQueryRecord K D)) : Prop :=
  Holds (· < ·) trackedQueryKey (TrackedQueryRecord.ReadFrom json) serverCacheDB records

def run (json : JSONSerialization K D Data) (events : List (TrackedQueryEvent K D)) :
    Except Trap (TrackedQueriesDB Data) :=
  events.foldlM (perform json) []

theorem exists_perform (hkeeps : json.KeepsQueries) (h : HoldsQueries json serverCacheDB records)
    {event : TrackedQueryEvent K D} (hevent : event.Storable json) :
    ∃ serverCacheDB', serverCacheDB.perform json event = .ok serverCacheDB' ∧
      HoldsQueries json serverCacheDB' (event.apply records) := by
  cases event with
  | saveTrackedQuery query =>
      obtain ⟨hpath, ⟨builders, hbuilt⟩, hr, hdata⟩ := hevent
      have hc : query.params.Consistent := hbuilt ▸ QueryParams.built_consistent builders
      obtain ⟨startValue, endValue, -, -, hwire⟩ := hr.exists_wireProtocolParams
      have hjson : query.trackedQueryJSON = .ok _ := bind_eq_ok.mpr ⟨_, hwire, rfl⟩
      obtain ⟨data, hdata⟩ := Option.ne_none_iff_exists'.mp (hdata _ hjson)
      obtain ⟨queryJSON', hobject, hstored⟩ := hkeeps query _ data hjson hdata
      obtain ⟨query', hread, hsame⟩ := query.exists_trackedQueryFrom hpath hc hr hjson hstored
      refine ⟨set (· < ·) (trackedQueryKey query.queryId) data serverCacheDB, bind_eq_ok.mpr ⟨_, hjson, ?_⟩,
        h.set trackedQueryKey_injective ⟨queryJSON', query', hobject, hread, hsame⟩⟩
      rw [hdata]
  | removeTrackedQuery queryId => exact ⟨_, rfl, h.remove trackedQueryKey_injective queryId⟩

theorem exists_run (hkeeps : json.KeepsQueries) {events : List (TrackedQueryEvent K D)}
    (hevents : ∀ event ∈ events, event.Storable json) : ∃ serverCacheDB, run json events = .ok serverCacheDB ∧
      HoldsQueries json serverCacheDB (latestQueries events) := by
  have hloop : ∀ (events : List (TrackedQueryEvent K D)) (serverCacheDB : TrackedQueriesDB Data) records,
      (∀ event ∈ events, event.Storable json) → HoldsQueries json serverCacheDB records →
        ∃ serverCacheDB', events.foldlM (perform json) serverCacheDB = .ok serverCacheDB' ∧
          HoldsQueries json serverCacheDB' (events.foldl TrackedQueryEvent.apply records) := by
    intro events
    induction events with
    | nil => exact fun serverCacheDB records _ h => ⟨serverCacheDB, rfl, h⟩
    | cons event rest ih =>
        intro serverCacheDB records hevents h
        obtain ⟨hevent, hrest⟩ := List.forall_mem_cons.mp hevents
        obtain ⟨next, hnext, hholds⟩ := exists_perform hkeeps h hevent
        obtain ⟨serverCacheDB', hrun, hend⟩ := ih next _ hrest hholds
        refine ⟨serverCacheDB', ?_, hend⟩
        rw [List.foldlM_cons, hnext]
        exact hrun
  exact hloop events [] _ hevents (.empty _ _ _)

omit [UnicodeVersion] in
/-- The loop returns what each record is read as. -/
theorem exists_foldlM_readTrackedQuery {entries : List (List Char × Data)}
    {found : List (Int64 × TrackedQueryRecord K D)}
    (h : List.Forall₂ (fun entry item => TrackedQueryRecord.ReadFrom json entry.2 item.2) entries found)
    (before : List (TrackedQueryRecord K D)) (serverCacheDB : TrackedQueriesDB Data) :
    ∃ queries, entries.foldlM (readTrackedQuery json) (before, serverCacheDB) =
        some (before ++ queries, serverCacheDB) ∧
      List.Forall₂ (fun query item => query.Same item.2) queries found := by
  induction h generalizing before with
  | nil => exact ⟨[], congrArg (fun queries => some (queries, serverCacheDB)) (List.append_nil before).symm, .nil⟩
  | @cons entry item entries found hread _ ih =>
      obtain ⟨queryJSON, query, hobject, hquery, hsame⟩ := hread
      have hrecord : readTrackedQuery json (before, serverCacheDB) entry = some (before ++ [query], serverCacheDB) := by
        rw [readTrackedQuery, hobject]
        simp only [hquery, Option.bind_eq_bind, Option.bind_some]
      obtain ⟨queries, hqueries, hrest⟩ := ih (before ++ [query])
      refine ⟨query :: queries, ?_, .cons hsame hrest⟩
      rw [List.foldlM_cons, hrecord]
      refine hqueries.trans ?_
      rw [List.append_assoc, List.singleton_append]

/-- After the events the queries are loaded as the last ones that were stored. -/
def ReloadsLatest (json : JSONSerialization K D Data) (events : List (TrackedQueryEvent K D)) : Prop :=
  ∃ serverCacheDB, run json events = .ok serverCacheDB ∧ ∃ queries found,
    serverCacheDB.loadTrackedQueries json = some (queries, serverCacheDB) ∧
      List.Forall₂ (fun query item => query.Same item.2) queries found ∧ (found.map Prod.fst).Nodup ∧
        ∀ queryId query, (queryId, query) ∈ found ↔ latestQueries events queryId = some query

/-- What the builders lead to is read back as equal parameters exactly if it can be read back, and what is
stored is loaded. -/
theorem readsBack_iff_and_reloadsLatest (json : JSONSerialization K D Data) (hkeeps : json.KeepsQueries) :
    (∀ builders : List (ParamsBuilder K D),
      (QueryParams.built builders).ReadsBack ↔ (QueryParams.built builders).Restorable) ∧
    (∀ builders : List (ParamsBuilder K D), (∀ builder ∈ builders, builder.IsMade) →
      (QueryParams.built builders).ReadsBack) ∧
    ∀ events : List (TrackedQueryEvent K D), (∀ event ∈ events, event.Storable json) →
      ReloadsLatest json events := by
  refine ⟨fun builders => QueryParams.readsBack_iff (QueryParams.built_consistent builders),
    fun builders hmade => ?_, fun events hevents => ?_⟩
  · exact (QueryParams.readsBack_iff (QueryParams.built_consistent builders)).mpr
      (QueryParams.built_restorable hmade)
  · obtain ⟨serverCacheDB, hrun, hholds⟩ := exists_run hkeeps hevents
    obtain ⟨found, hfound, hnodup, hmem⟩ := hholds.exists_forall₂ trackedQueryKey_injective
    obtain ⟨queries, hqueries, hsame⟩ := exists_foldlM_readTrackedQuery hfound [] serverCacheDB
    exact ⟨serverCacheDB, hrun, queries, found, hqueries, hsame, hnodup, hmem⟩

end TrackedQueriesDB

end Runs

/-! ### A serialization that keeps the dictionary -/

section Examples

attribute [local instance] marksOnly

/-- Times as rational numbers -/
@[reducible] def rationalDoubles : TimeIntervalType ℚ where
  toDoubleType := rationalDoubleType
  ofNumber
    | .double value => some value
    | .int64 value => if Doubles.round value.toInt = value.toInt then some value.toInt else none
    | .uint64 value => if Doubles.round value.toNat = value.toNat then some value.toNat else none
  ofNumber_double _ := rfl
  ofNumber_int64 := by
    intro value number h
    simp only [DoubleType.exactly] at h
    split_ifs at h with hexact
    obtain ⟨hround, hden, hlow, hhigh⟩ := hexact
    cases h
    have hnumber : (Int64.ofInt value.num).toInt = value.num := Int64.toInt_ofInt_of_le hlow hhigh
    have hvalue : ((value.num : ℤ) : ℚ) = value := Rat.coe_int_num_of_den_eq_one hden
    dsimp only
    rw [hnumber, hvalue, if_pos hround]

attribute [local instance] rationalDoubles

def keptQueries : JSONSerialization String ℚ (WriteJSON String ℚ) := ⟨some, fun query => .ok (some query)⟩

theorem keptQueries_keepsQueries : keptQueries.KeepsQueries := by
  intro query queryJSON data _ hdata
  cases hdata
  refine ⟨queryJSON, rfl, fun key => ?_⟩
  cases get key queryJSON with
  | none => exact .none
  | some field =>
      refine .some ?_
      cases field with
      | value plain => exact .refl plain
      | dictionary entries =>
          intro key
          cases get key entries with
          | none => exact .none
          | some plain => exact .some (.refl plain)

/-- The 10 first children from a score of 5 and a key on. -/
def fromScore : List (ParamsBuilder String ℚ) :=
  [.orderBy (.path ["score"]), .startAt ⟨.leaf (.number (.int64 5)) .empty, rfl⟩ (some "a"), .limitToFirst 10]

theorem fromScore_restorable : (QueryParams.built fromScore).Restorable := by
  refine ⟨fun value hvalue => ?_, nofun, ?_⟩
  · cases hvalue
    exact ⟨Nat.zero_le _, trivial, fun _ => trivial⟩
  · have hsplit : FPath.IsSplit ["score"] := by
      simp only [FPath.IsSplit]
      decide
    exact ⟨hsplit, by decide⟩

/-- A query that is stored twice, and one that is removed -/
theorem TrackedQueriesDB.readsBack_iff_and_reloadsLatest_fromScore :
    (QueryParams.built fromScore).ReadsBack ∧ TrackedQueriesDB.ReloadsLatest keptQueries
      [.saveTrackedQuery ⟨1, ["a", "b"], .built fromScore, 0, true, false⟩,
        .saveTrackedQuery ⟨2, [], .built [], 1, true, false⟩, .removeTrackedQuery 2,
        .saveTrackedQuery ⟨1, ["a", "b"], .built fromScore, 2, false, true⟩] := by
  have hsplit : FPath.IsSplit ["a", "b"] ∧ FPath.IsSplit ([] : FPath String) := by
    simp only [FPath.IsSplit]
    decide
  obtain ⟨hiff, -, hreloads⟩ := readsBack_iff_and_reloadsLatest keptQueries keptQueries_keepsQueries
  refine ⟨(hiff fromScore).mpr fromScore_restorable, hreloads _ ?_⟩
  have hkept : ∀ queryJSON : WriteJSON String ℚ, keptQueries.data queryJSON ≠ none := fun _ => Option.some_ne_none _
  have hempty : (QueryParams.built [] : QueryParams String ℚ).Restorable := by
    refine ⟨fun value hvalue => ?_, fun value hvalue => ?_, trivial⟩
    · cases hvalue
    · cases hvalue
  simp only [List.forall_mem_cons]
  exact ⟨⟨hsplit.1, ⟨_, rfl⟩, fromScore_restorable, fun queryJSON _ => hkept queryJSON⟩,
    ⟨hsplit.2, ⟨_, rfl⟩, hempty, fun queryJSON _ => hkept queryJSON⟩, trivial,
    ⟨hsplit.1, ⟨_, rfl⟩, fromScore_restorable, fun queryJSON _ => hkept queryJSON⟩,
    fun _ h => absurd h List.not_mem_nil⟩

/-- The child path of the one key `.key` is read as the index of keys. -/
theorem QueryParams.key_path_not_readsBack :
    ¬(built [.orderBy (.path [".key"])] : QueryParams String ℚ).ReadsBack := by
  intro h
  have hindex := ((readsBack_iff (built_consistent _)).mp h).index
  exact hindex.2 ".key".toList List.mem_cons_self rfl

end Examples

end FirebaseSwift.Database
