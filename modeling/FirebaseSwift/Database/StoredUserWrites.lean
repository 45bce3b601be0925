import FirebaseSwift.Database.PlainRoundTrips
import FirebaseSwift.Database.UserWriteStorage
import FirebaseSwift.Library.ExceptLoops

/-! Runs of the storage of pending writes. If what is saved can be read back, then the database has for each id
that was not removed the last write that was saved for it, and reading returns these writes, sorted. -/

namespace FirebaseSwift.Database

open UnicodeStrings SortedDictionary FSnapshotUtilities FImmutableTree ExceptLoops

variable {K D : Type} [StringKey K]

/-! ### Paths as strings -/

namespace FPath

/-- The pieces are not empty, and have no slashes. -/
def IsSplit (path : FPath K) : Prop := ∀ piece ∈ path, text piece ≠ [] ∧ '/' ∉ text piece

theorem ofString_intercalate {pieces : List (List Char)} (hpieces : ∀ piece ∈ pieces, '/' ∉ piece)
    (hne : pieces ≠ []) : (ofString (['/'].intercalate pieces) : FPath K) =
      (pieces.filter fun piece => !piece.isEmpty).filterMap ofText := by
  rw [ofString, List.splitOn_intercalate '/' hpieces hne]

variable {path : FPath K}

theorem filterMap_ofText (hpath : path.IsSplit) :
    ((path.map text).filter fun piece => !piece.isEmpty).filterMap ofText = path := by
  induction path with
  | nil => rfl
  | cons piece rest ih =>
      obtain ⟨⟨hne, -⟩, hrest⟩ := List.forall_mem_cons.mp hpath
      have htext : ofText (text piece) = some piece := (StringKey.ofText_eq_some_iff _ _).mpr rfl
      rw [List.map_cons, List.filter_cons_of_pos (by simpa using hne), List.filterMap_cons_some htext, ih hrest]

theorem ofString_wireFormat (hpath : path.IsSplit) : ofString path.wireFormat = path := by
  cases path with
  | nil => rfl
  | cons piece rest =>
      have hpieces : ∀ text' ∈ (piece :: rest).map text, '/' ∉ text' :=
        List.forall_mem_map.mpr fun piece hpiece => (hpath piece hpiece).2
      calc ofString (wireFormat (piece :: rest))
          = ofString (['/'].intercalate ((piece :: rest).map text)) := rfl
        _ = (((piece :: rest).map text).filter fun piece => !piece.isEmpty).filterMap ofText :=
            ofString_intercalate hpieces (List.cons_ne_nil _ _)
        _ = piece :: rest := filterMap_ofText hpath

theorem toStringWithTrailingSlash_eq (path : FPath K) :
    path.toStringWithTrailingSlash = ['/'].intercalate ([] :: (path.map text ++ [[]])) := by
  have hpieces : ∀ first : List Char, ['/'].intercalate (first :: (path.map text ++ [[]])) =
      first ++ (path.flatMap fun piece => '/' :: text piece) ++ ['/'] := by
    induction path with
    | nil =>
        intro first
        rw [List.map_nil, List.nil_append, List.intercalate_cons_cons, List.intercalate_singleton,
          List.flatMap_nil, List.append_nil, List.append_nil]
    | cons piece rest ih =>
        intro first
        rw [List.map_cons, List.cons_append, List.intercalate_cons_cons, ih, List.flatMap_cons]
        simp only [List.append_assoc, List.cons_append, List.nil_append]
  rw [hpieces, toStringWithTrailingSlash]
  cases path with
  | nil => rfl
  | cons piece rest => rfl

theorem ofString_toStringWithTrailingSlash (hpath : path.IsSplit) :
    ofString path.toStringWithTrailingSlash = path := by
  have hpieces : ∀ piece ∈ [] :: (path.map text ++ [[]]), '/' ∉ piece := by
    refine List.forall_mem_cons.mpr ⟨List.not_mem_nil, List.forall_mem_append.mpr ⟨?_, ?_⟩⟩
    · exact List.forall_mem_map.mpr fun piece hpiece => (hpath piece hpiece).2
    · exact List.forall_mem_singleton.mpr List.not_mem_nil
  have hfilter : (([] :: (path.map text ++ [[]])).filter fun piece => !piece.isEmpty) =
      (path.map text).filter fun piece => !piece.isEmpty := by
    rw [List.filter_cons_of_neg (by simp), List.filter_append, List.filter_cons_of_neg (by simp), List.filter_nil,
      List.append_nil]
  rw [toStringWithTrailingSlash_eq, ofString_intercalate hpieces (List.cons_ne_nil _ _), hfilter,
    filterMap_ofText hpath]

end FPath

/-! ### Dictionaries that were stored -/

def SameField : WriteField K D → WriteField K D → Prop
  | .value plain, .value plain' => SameValue plain plain'
  | .dictionary entries, .dictionary entries' => SameEntries entries entries'
  | _, _ => False

/-- The dictionaries of writes differ at most in the order of entries. -/
def SameJSON (json json' : WriteJSON K D) : Prop := ∀ key, Option.Rel SameField (get key json) (get key json')

namespace SameJSON

variable {json json' : WriteJSON K D} {key : List Char}

theorem get_eq_none (h : SameJSON json json') (hget : get key json = none) : get key json' = none := by
  have hkey := h key
  rw [hget] at hkey
  cases hkey' : get key json' with
  | none => rfl
  | some field =>
      rw [hkey'] at hkey
      cases hkey

theorem get_value (h : SameJSON json json') {plain : PlainValue K D} (hget : get key json = some (.value plain)) :
    ∃ plain', get key json' = some (.value plain') ∧ SameValue plain plain' := by
  have hkey := h key
  rw [hget] at hkey
  cases hkey' : get key json' with
  | none =>
      rw [hkey'] at hkey
      cases hkey
  | some field =>
      rw [hkey'] at hkey
      cases hkey with
      | some hfield =>
          cases field with
          | value plain' => exact ⟨plain', rfl, hfield⟩
          | dictionary entries => exact hfield.elim

theorem get_dictionary (h : SameJSON json json') {entries : List (List Char × PlainValue K D)}
    (hget : get key json = some (.dictionary entries)) :
    ∃ entries', get key json' = some (.dictionary entries') ∧ SameEntries entries entries' := by
  have hkey := h key
  rw [hget] at hkey
  cases hkey' : get key json' with
  | none =>
      rw [hkey'] at hkey
      cases hkey
  | some field =>
      rw [hkey'] at hkey
      cases hkey with
      | some hfield =>
          cases field with
          | value plain => exact hfield.elim
          | dictionary entries' => exact ⟨entries', rfl, hfield⟩

theorem get_number (h : SameJSON json json') {number : PlainNumber D}
    (hget : get key json = some (.value (.number number))) : get key json' = some (.value (.number number)) := by
  obtain ⟨plain', hget', hsame⟩ := h.get_value hget
  cases hsame
  exact hget'

theorem get_string (h : SameJSON json json') {s : List Char} (hget : get key json = some (.value (.string s))) :
    get key json' = some (.value (.string s)) := by
  obtain ⟨plain', hget', hsame⟩ := h.get_value hget
  cases hsame
  exact hget'

end SameJSON

/-! ### Reading a stored write -/

section Export

variable [UnicodeVersion]

/-- The dictionary of a merge has the values of the writes under their paths. -/
theorem mem_valForExport {merge : FCompoundWrite K (LeafValue D)} {dictionary : List (List Char × PlainValue K D)}
    (h : merge.valForExport true = .ok dictionary) : Sorted (· < ·) dictionary ∧
      (∀ entry ∈ dictionary, ∃ write ∈ merge.enumerateWrites,
        write.1.wireFormat = entry.1 ∧ write.2.val true = .ok entry.2) ∧
      ∀ write ∈ merge.enumerateWrites, write.1.wireFormat ∈ dictionary.map Prod.fst := by
  have hloop := foldlM_invariant
    (fun rest dictionary => Sorted (· < ·) dictionary ∧
      (∃ before, merge.enumerateWrites = before ++ rest ∧
        ∀ write ∈ before, write.1.wireFormat ∈ dictionary.map Prod.fst) ∧
      ∀ entry ∈ dictionary, ∃ write ∈ merge.enumerateWrites,
        write.1.wireFormat = entry.1 ∧ write.2.val true = .ok entry.2)
    (fun write rest dictionary dictionary' hinv hstep => by
      obtain ⟨hsorted, ⟨before, hwrites, hbefore⟩, hentries⟩ := hinv
      obtain ⟨value, hvalue, hset⟩ := bind_eq_ok.mp hstep
      cases hset
      refine ⟨hsorted.set _ _ _, ⟨before ++ [write], by simpa using hwrites, ?_⟩, fun entry hentry => ?_⟩
      · refine List.forall_mem_append.mpr ⟨fun other hother => ?_, List.forall_mem_singleton.mpr ?_⟩
        · exact (mem_keys_set _).mpr (Or.inr (hbefore other hother))
        · exact (mem_keys_set _).mpr (Or.inl rfl)
      · rcases mem_set _ hentry with rfl | hentry
        · refine ⟨write, ?_, rfl, hvalue⟩
          rw [hwrites]
          exact List.mem_append_right _ List.mem_cons_self
        · exact hentries entry hentry)
    ⟨sorted_nil _, ⟨[], rfl, nofun⟩, nofun⟩ h
  obtain ⟨hsorted, ⟨before, hwrites, hbefore⟩, hentries⟩ := hloop
  rw [List.append_nil] at hwrites
  exact ⟨hsorted, hentries, hwrites ▸ hbefore⟩

end Export

variable [DoubleType D]

/-- Entries that are read as the writes of a merge give its tree. -/
theorem compoundWriteTree_eq {merge : FCompoundWrite K (LeafValue D)} {entries : List (List Char × PlainValue K D)}
    (hentries : ∀ entry ∈ entries, ∃ node, merge.valueAt (FPath.ofString entry.1) = some node ∧
      nodeFrom 0 entry.2 = some node)
    (hall : ∀ path node, merge.valueAt path = some node → ∃ entry ∈ entries, FPath.ofString entry.1 = path) :
    compoundWriteTree entries = some merge.writeTree := by
  have hloop : ∀ (entries : List (List Char × PlainValue K D)) (tree : FImmutableTree K (FNode K (LeafValue D))),
      (∀ entry ∈ entries, ∃ node, merge.valueAt (FPath.ofString entry.1) = some node ∧
        nodeFrom 0 entry.2 = some node) →
      IsWriteTree tree → (∀ path node, valueAt path tree = some node → merge.valueAt path = some node) →
        ∃ result, entries.foldlM (fun writeTree entry => do
          let node ← nodeFrom 0 entry.2
          some (setTree (.ofValue (some node)) (FPath.ofString entry.1) writeTree)) tree = some result ∧
          IsWriteTree result ∧ ∀ path node, valueAt path result = some node ↔ merge.valueAt path = some node ∧
            (valueAt path tree = some node ∨ ∃ entry ∈ entries, FPath.ofString entry.1 = path) := by
    intro entries
    induction entries with
    | nil =>
        intro tree _ htree hvalues
        refine ⟨tree, rfl, htree, fun path node => ⟨fun h => ⟨hvalues path node h, Or.inl h⟩, ?_⟩⟩
        rintro ⟨-, h | ⟨_, h, -⟩⟩
        · exact h
        · cases h
    | cons entry rest ih =>
        intro tree hentries htree hvalues
        obtain ⟨⟨node, hnode, hread⟩, hrest⟩ := List.forall_mem_cons.mp hentries
        have habove : ∀ above, above <+: FPath.ofString entry.1 → above ≠ FPath.ofString entry.1 →
            valueAt above tree = none := by
          intro above hpre hne
          by_contra hsome
          obtain ⟨other, hother⟩ := Option.ne_none_iff_exists'.mp hsome
          exact hne (merge.eq_of_prefixed (hvalues above other hother) hnode hpre)
        have hset : ∀ path other, valueAt path (setTree (.ofValue (some node)) (FPath.ofString entry.1) tree) =
            some other ↔ (path = FPath.ofString entry.1 ∧ other = node) ∨
              (¬FPath.ofString entry.1 <+: path ∧ valueAt path tree = some other) := by
          intro path other
          rw [valueAt_setTree]
          by_cases hpre : FPath.ofString entry.1 <+: path
          · obtain ⟨below, rfl⟩ := hpre
            rw [if_pos (List.prefix_append _ _), List.drop_left]
            cases below with
            | nil => simp [ofValue, eq_comm]
            | cons front below =>
                rw [valueAt_cons]
                simp [ofValue]
          · rw [if_neg hpre]
            have hne : path ≠ FPath.ofString entry.1 := fun heq => hpre (heq ▸ List.prefix_rfl)
            simp [hpre, hne]
        obtain ⟨result, hresult, htreeResult, hiff⟩ := ih _ hrest (htree.setTree (.ofValue (some node)) _ habove)
          fun path other hother => by
            rcases (hset path other).mp hother with ⟨rfl, rfl⟩ | ⟨-, hother⟩
            · exact hnode
            · exact hvalues path other hother
        refine ⟨result, ?_, htreeResult, fun path other => ?_⟩
        · rw [List.foldlM_cons, hread]
          exact hresult
        · rw [hiff, hset]
          refine and_congr_right fun hother => ?_
          constructor
          · rintro ((⟨rfl, -⟩ | ⟨-, hold⟩) | ⟨found, hfound, rfl⟩)
            · exact Or.inr ⟨entry, List.mem_cons_self, rfl⟩
            · exact Or.inl hold
            · exact Or.inr ⟨found, List.mem_cons_of_mem _ hfound, rfl⟩
          · rintro (hold | ⟨found, hfound, rfl⟩)
            · by_cases hpre : FPath.ofString entry.1 <+: path
              · have hpath := merge.eq_of_prefixed hnode hother hpre
                subst hpath
                exact Or.inl (Or.inl ⟨rfl, Option.some.inj (hother.symm.trans hnode)⟩)
              · exact Or.inl (Or.inr ⟨hpre, hold⟩)
            · rcases List.mem_cons.mp hfound with rfl | hfound
              · exact Or.inl (Or.inl ⟨rfl, Option.some.inj (hother.symm.trans hnode)⟩)
              · exact Or.inr ⟨found, hfound, rfl⟩
  obtain ⟨result, hresult, htree, hiff⟩ := hloop entries .empty hentries .empty fun path node h => by
    rw [valueAt_empty] at h
    cases h
  have hsame : (⟨result, htree⟩ : FCompoundWrite K (LeafValue D)) = merge := by
    refine FCompoundWrite.ext fun path => Option.ext fun node => (hiff path node).trans (and_iff_left_of_imp ?_)
    exact fun hnode => Or.inr (hall path node hnode)
  calc compoundWriteTree entries = some result := hresult
    _ = some merge.writeTree := by rw [← hsame]

section Reading

variable [UnicodeVersion]

variable {json json' : WriteJSON K D} {path : FPath K} {writeId : Int64}

theorem userWriteFrom_overwrite {node : FNode K (LeafValue D)} (hjson : overwriteJSON node path writeId = .ok json)
    (hsame : SameJSON json json') (hpath : path.IsSplit) (hnode : ReadsBack true node) :
    userWriteFrom json' = some (some ⟨.overwrite node, writeId, path, true⟩) := by
  obtain ⟨value, hvalue, hread⟩ := hnode
  obtain ⟨_, hvalue', hjson⟩ := bind_eq_ok.mp hjson
  cases hvalue.symm.trans hvalue'
  cases hjson
  have hid := hsame.get_number (show get kFUserWriteId _ = _ from rfl)
  have hstring := hsame.get_string (show get kFUserWritePath _ = _ from rfl)
  have hmerge := hsame.get_eq_none (show get kFUserWriteMerge _ = _ from rfl)
  obtain ⟨overwrite, hget, hoverwrite⟩ := hsame.get_value (show get kFUserWriteOverwrite _ = _ from rfl)
  rw [userWriteFrom, hid, hstring, hmerge, hget]
  simp only [Option.bind_some, Option.bind_none, WriteField.asInt, WriteField.asString, WriteField.asValue,
    Option.bind_eq_bind, hread overwrite hoverwrite, FPath.ofString_toStringWithTrailingSlash hpath]

theorem userWriteFrom_merge {merge : FCompoundWrite K (LeafValue D)} (hjson : mergeJSON merge path writeId = .ok json)
    (hsame : SameJSON json json') (hpath : path.IsSplit)
    (hwrites : ∀ write ∈ merge.enumerateWrites, write.1.IsSplit ∧ ReadsBack true write.2) :
    userWriteFrom json' = some (some ⟨.merge merge.writeTree, writeId, path, true⟩) := by
  obtain ⟨dictionary, hdictionary, hjson⟩ := bind_eq_ok.mp hjson
  cases hjson
  obtain ⟨-, hentries, hall⟩ := mem_valForExport hdictionary
  have hid := hsame.get_number (show get kFUserWriteId _ = _ from rfl)
  have hstring := hsame.get_string (show get kFUserWritePath _ = _ from rfl)
  obtain ⟨entries', hget, hsameEntries⟩ := hsame.get_dictionary (show get kFUserWriteMerge _ = _ from rfl)
  have htree : compoundWriteTree entries' = some merge.writeTree := by
    refine compoundWriteTree_eq (fun entry hentry => ?_) fun path node hnode => ?_
    · have hget' := get_of_mem_of_nodup hsameEntries.nodup' hentry
      rcases hsameEntries.get_cases entry.1 with ⟨-, hnone⟩ | ⟨value, value', hvalue, hvalue', hsameValue⟩
      · cases hget'.symm.trans hnone
      · cases hget'.symm.trans hvalue'
        obtain ⟨write, hwrite, hkey, hval⟩ := hentries _ (mem_of_get hvalue)
        obtain ⟨hsplit, plain, hplain, hread⟩ := hwrites write hwrite
        cases hplain.symm.trans hval
        refine ⟨write.2, ?_, hread _ hsameValue⟩
        rw [← hkey, FPath.ofString_wireFormat hsplit]
        exact FCompoundWrite.mem_enumerateWrites.mp hwrite
    · have hwrite := FCompoundWrite.mem_enumerateWrites.mpr hnode
      have hkey := (hsameEntries.keys _).mp (hall _ hwrite)
      obtain ⟨entry, hentry, heq⟩ := List.mem_map.mp hkey
      refine ⟨entry, hentry, ?_⟩
      rw [heq, FPath.ofString_wireFormat (hwrites _ hwrite).1]
  rw [userWriteFrom, hid, hstring, hget]
  simp only [Option.bind_some, WriteField.asInt, WriteField.asString, WriteField.asDictionary,
    Option.bind_eq_bind, htree, FPath.ofString_toStringWithTrailingSlash hpath]

end Reading

/-! ### The records of the database -/

variable {Data : Type}

theorem writeRecordKey_injective : Function.Injective writeRecordKey := by
  have hdigits : ∀ i j, Nat.toDigits 10 i = Nat.toDigits 10 j → i = j := by
    intro i j h
    calc i = Nat.ofDigitChars 10 (Nat.toDigits 10 i) 0 := Nat.ofDigitChars_ten_toDigits.symm
      _ = Nat.ofDigitChars 10 (Nat.toDigits 10 j) 0 := by rw [h]
      _ = j := Nat.ofDigitChars_ten_toDigits
  have hminus : ∀ i j, '-' :: Nat.toDigits 10 i ≠ Nat.toDigits 10 j := by
    intro i j h
    have hmem : '-' ∈ Nat.toDigits 10 j := h ▸ List.mem_cons_self
    exact absurd (Nat.isDigit_of_mem_toDigits (by decide) (by decide) hmem) (by decide)
  intro writeId writeId' h
  rw [writeRecordKey, writeRecordKey] at h
  apply Int64.toInt_inj.mp
  split_ifs at h with hneg hneg' hneg'
  · have habs := hdigits _ _ (List.cons.inj h).2
    omega
  · exact absurd h (hminus _ _)
  · exact absurd h.symm (hminus _ _)
  · have habs := hdigits _ _ h
    omega

namespace WritesDB

variable {json : JSONSerialization K D Data} {writesDB : WritesDB Data}
  {records : Int64 → Option (StoredWrite K D)} {writeId : Int64}

def Reads (json : JSONSerialization K D Data) (data : Data) (write : StoredWrite K D) : Prop :=
  ∃ writeJSON, json.jsonObject data = .ok (some writeJSON) ∧ userWriteFrom writeJSON = some (some write)

/-- The database has these records, and no others. -/
structure Holds (json : JSONSerialization K D Data) (writesDB : WritesDB Data)
    (records : Int64 → Option (StoredWrite K D)) : Prop where
  sorted : Sorted (· < ·) writesDB
  record : ∀ writeId write, records writeId = some write → write.writeId = writeId ∧
    ∃ data, get (writeRecordKey writeId) writesDB = some data ∧ Reads json data write
  entry : ∀ key ∈ writesDB.map Prod.fst, ∃ writeId write, writeRecordKey writeId = key ∧
    records writeId = some write

namespace Holds

theorem empty (json : JSONSerialization K D Data) : Holds json [] fun _ => none :=
  ⟨sorted_nil _, nofun, nofun⟩

theorem save (h : Holds json writesDB records) {writeJSON : WriteJSON K D} {data : Data}
    (hdata : json.data writeJSON = some data) {write : StoredWrite K D} (hread : Reads json data write)
    (hid : write.writeId = writeId) :
    Holds json (writesDB.save json writeJSON writeId) (Function.update records writeId (some write)) := by
  rw [WritesDB.save, hdata]
  refine ⟨h.sorted.set _ _ _, fun other write' hwrite' => ?_, fun key hkey => ?_⟩
  · by_cases heq : other = writeId
    · subst heq
      rw [Function.update_self] at hwrite'
      cases hwrite'
      exact ⟨hid, data, get_set_self _ _ _ _, hread⟩
    · rw [Function.update_of_ne heq] at hwrite'
      obtain ⟨hother, data', hget, hread'⟩ := h.record other write' hwrite'
      refine ⟨hother, data', ?_, hread'⟩
      rw [get_set_of_ne _ fun hkeys => heq (writeRecordKey_injective hkeys)]
      exact hget
  · rcases (mem_keys_set _).mp hkey with rfl | hkey
    · exact ⟨writeId, write, rfl, Function.update_self _ _ _⟩
    · obtain ⟨other, write', rfl, hwrite'⟩ := h.entry key hkey
      by_cases heq : other = writeId
      · subst heq
        exact ⟨other, write, rfl, Function.update_self _ _ _⟩
      · exact ⟨other, write', rfl, (Function.update_of_ne heq _ _).trans hwrite'⟩

theorem removeUserWrite (h : Holds json writesDB records) (writeId : Int64) :
    Holds json (writesDB.removeUserWrite writeId) (Function.update records writeId none) := by
  refine ⟨h.sorted.remove _, fun other write hwrite => ?_, fun key hkey => ?_⟩
  · by_cases heq : other = writeId
    · subst heq
      rw [Function.update_self] at hwrite
      cases hwrite
    · rw [Function.update_of_ne heq] at hwrite
      obtain ⟨hother, data, hget, hread⟩ := h.record other write hwrite
      refine ⟨hother, data, ?_, hread⟩
      rw [WritesDB.removeUserWrite, get_remove_of_ne fun hkeys => heq (writeRecordKey_injective hkeys)]
      exact hget
  · obtain ⟨entry, hentry, rfl⟩ := List.mem_map.mp hkey
    obtain ⟨hmem, hne⟩ := mem_remove.mp hentry
    obtain ⟨other, write, hother, hwrite⟩ := h.entry entry.1 (List.mem_map_of_mem hmem)
    refine ⟨other, write, hother, (Function.update_of_ne ?_ _ _).trans hwrite⟩
    rintro rfl
    exact hne hother.symm

end Holds

/-! ### Reading the writes -/

/-- The loop returns what each record is read as. -/
theorem foldlM_readRecord {entries : List (List Char × Data)} {writes : List (StoredWrite K D)}
    (h : List.Forall₂ (fun entry write => Reads json entry.2 write) entries writes)
    (before : List (StoredWrite K D)) (writesDB : WritesDB Data) :
    entries.foldlM (readRecord json) (before, writesDB) = some (before ++ writes, writesDB) := by
  induction h generalizing before with
  | nil => exact congrArg (fun writes => some (writes, writesDB)) (List.append_nil before).symm
  | @cons entry write entries writes hread _ ih =>
      obtain ⟨writeJSON, hobject, hwrite⟩ := hread
      have hrecord : readRecord json (before, writesDB) entry = some (before ++ [write], writesDB) := by
        rw [readRecord, hobject]
        simp only [hwrite, Option.bind_eq_bind, Option.bind_some]
      rw [List.foldlM_cons, hrecord]
      refine (ih (before ++ [write])).trans ?_
      rw [List.append_assoc, List.singleton_append]

/-- The database is read as its records, sorted by their ids. -/
theorem Holds.userWrites (h : Holds json writesDB records) :
    ∃ writes, writesDB.userWrites json = some (writes, writesDB) ∧
      writes.Pairwise (fun write write' => write.writeId < write'.writeId) ∧
      ∀ write, write ∈ writes ↔ records write.writeId = some write := by
  have hentries : ∀ entries : List (List Char × Data), (∀ entry ∈ entries, entry ∈ writesDB) →
      ∃ writes : List (StoredWrite K D), List.Forall₂ (fun entry write => entry.1 = writeRecordKey write.writeId ∧
        records write.writeId = some write ∧ Reads json entry.2 write) entries writes := by
    intro entries
    induction entries with
    | nil => exact fun _ => ⟨[], .nil⟩
    | cons entry rest ih =>
        intro hentries
        obtain ⟨hentry, hrest⟩ := List.forall_mem_cons.mp hentries
        obtain ⟨writes, hwrites⟩ := ih hrest
        obtain ⟨writeId, write, hkey, hwrite⟩ := h.entry entry.1 (List.mem_map_of_mem hentry)
        obtain ⟨rfl, data, hget, hread⟩ := h.record writeId write hwrite
        rw [hkey, h.sorted.get_of_mem hentry] at hget
        cases hget
        exact ⟨write :: writes, .cons ⟨hkey.symm, hwrite, hread⟩ hwrites⟩
  obtain ⟨writes, hwrites⟩ := hentries writesDB fun _ => id
  have hkeys : writesDB.map Prod.fst = writes.map fun write => writeRecordKey write.writeId := by
    clear h hentries
    induction hwrites with
    | nil => rfl
    | cons hentry _ ih => rw [List.map_cons, List.map_cons, ih, hentry.1]
  have hloop := foldlM_readRecord (hwrites.imp fun _ _ hentry => hentry.2.2) [] writesDB
  refine ⟨writes.mergeSort fun write write' => decide (write.writeId ≤ write'.writeId), ?_, ?_, fun write => ?_⟩
  · rw [WritesDB.userWrites, hloop]
    rfl
  · have hnodup : (writes.map fun write => writeRecordKey write.writeId).Nodup := hkeys ▸ h.sorted.nodup_keys
    have hne : writes.Pairwise fun write write' => write.writeId ≠ write'.writeId :=
      (List.pairwise_map.mp hnodup).imp fun hkey hid => hkey (congrArg writeRecordKey hid)
    have htrans : ∀ write write' write'' : StoredWrite K D, decide (write.writeId ≤ write'.writeId) = true →
        decide (write'.writeId ≤ write''.writeId) = true → decide (write.writeId ≤ write''.writeId) = true :=
      fun _ _ _ h h' => decide_eq_true (Int64.le_trans (of_decide_eq_true h) (of_decide_eq_true h'))
    have htotal : ∀ write write' : StoredWrite K D,
        (decide (write.writeId ≤ write'.writeId) || decide (write'.writeId ≤ write.writeId)) = true :=
      fun write write' => by simpa using Int64.le_total write.writeId write'.writeId
    have hsorted := List.pairwise_mergeSort htrans htotal writes
    have hperm := List.mergeSort_perm writes fun write write' => decide (write.writeId ≤ write'.writeId)
    have hneSorted := hperm.symm.pairwise hne fun h => h.symm
    refine (hsorted.and hneSorted).imp fun h => ?_
    exact Int64.lt_of_le_of_ne (of_decide_eq_true h.1) h.2
  · rw [List.mem_mergeSort]
    constructor
    · intro hmem
      obtain ⟨i, hi, rfl⟩ := List.mem_iff_getElem.mp hmem
      exact ((List.forall₂_iff_get.mp hwrites).2 i (by rw [hwrites.length_eq]; exact hi) hi).2.1
    · intro hwrite
      obtain ⟨-, data, hget, -⟩ := h.record _ write hwrite
      have hkey : writeRecordKey write.writeId ∈ writesDB.map Prod.fst := mem_keys_iff.mpr (by rw [hget]; nofun)
      rw [hkeys] at hkey
      obtain ⟨other, hother, heq⟩ := List.mem_map.mp hkey
      obtain ⟨i, hi, rfl⟩ := List.mem_iff_getElem.mp hother
      have hsame := ((List.forall₂_iff_get.mp hwrites).2 i (by rw [hwrites.length_eq]; exact hi) hi).2.1
      simp only [List.get_eq_getElem] at hsame
      rw [writeRecordKey_injective heq, hwrite] at hsame
      cases hsame
      exact hother

end WritesDB

/-! ### Runs -/

section Runs

variable [UnicodeVersion]

/-- What saving a write serializes. -/
def IsWrite (write : WriteJSON K D) : Prop :=
  (∃ node path writeId, overwriteJSON node path writeId = .ok write) ∨
    ∃ merge path writeId, mergeJSON merge path writeId = .ok write

/-- Writes are serialized, and read with the same entries. -/
def JSONSerialization.Faithful (json : JSONSerialization K D Data) : Prop :=
  ∀ write, IsWrite write → ∃ data write', json.data write = some data ∧
    json.jsonObject data = .ok (some write') ∧ SameJSON write write'

/-- What is saved can be read back. -/
def UserWriteEvent.Storable : UserWriteEvent K D → Prop
  | .saveUserOverwrite newData path _ => path.IsSplit ∧ Database.Storable true 0 newData.data
  | .saveUserMerge merge path _ => path.IsSplit ∧
      ∀ write ∈ merge.enumerateWrites, write.1.IsSplit ∧ Database.Storable true 0 write.2.data
  | .removeUserWrite _ => True

/-- The records after the event -/
def UserWriteEvent.apply (records : Int64 → Option (StoredWrite K D)) :
    UserWriteEvent K D → Int64 → Option (StoredWrite K D)
  | .saveUserOverwrite newData path writeId =>
      Function.update records writeId (some ⟨.overwrite newData, writeId, path, true⟩)
  | .saveUserMerge merge path writeId =>
      Function.update records writeId (some ⟨.merge merge.writeTree, writeId, path, true⟩)
  | .removeUserWrite writeId => Function.update records writeId none

/-- The last write that was saved for each id and not removed -/
def latestWrites (events : List (UserWriteEvent K D)) : Int64 → Option (StoredWrite K D) :=
  events.foldl UserWriteEvent.apply fun _ => none

namespace WritesDB

variable {json : JSONSerialization K D Data} {writesDB : WritesDB Data}
  {records : Int64 → Option (StoredWrite K D)}

theorem Holds.saveUserOverwrite (hfaithful : json.Faithful) (h : Holds json writesDB records)
    {node : FNode K (LeafValue D)} {path : FPath K} (hpath : path.IsSplit) (hnode : ReadsBack true node)
    (writeId : Int64) : ∃ writesDB', writesDB.saveUserOverwrite json node path writeId = .ok writesDB' ∧
      Holds json writesDB' (Function.update records writeId (some ⟨.overwrite node, writeId, path, true⟩)) := by
  obtain ⟨value, hvalue, hread⟩ := hnode
  have hjson : overwriteJSON node path writeId = .ok _ := bind_eq_ok.mpr ⟨value, hvalue, rfl⟩
  obtain ⟨data, write', hdata, hobject, hsame⟩ := hfaithful _ (Or.inl ⟨node, path, writeId, hjson⟩)
  have hwrite := userWriteFrom_overwrite hjson hsame hpath ⟨value, hvalue, hread⟩
  exact ⟨_, bind_eq_ok.mpr ⟨_, hjson, rfl⟩, h.save hdata ⟨write', hobject, hwrite⟩ rfl⟩

variable {merge : FCompoundWrite K (LeafValue D)}

theorem exists_valForExport (hwrites : ∀ write ∈ merge.enumerateWrites, ReadsBack true write.2) :
    ∃ dictionary, merge.valForExport true = .ok dictionary := by
  have hloop : ∀ (writes : List (FPath K × FNode K (LeafValue D))) dictionary,
      (∀ write ∈ writes, ReadsBack true write.2) →
        ∃ result, writes.foldlM (fun (dictionary : List (List Char × PlainValue K D)) write => do
          let value ← write.2.val true
          Except.ok (set (· < ·) write.1.wireFormat value dictionary)) dictionary = Except.ok result := by
    intro writes
    induction writes with
    | nil => exact fun dictionary _ => ⟨dictionary, rfl⟩
    | cons write rest ih =>
        intro dictionary hwrites
        obtain ⟨⟨value, hvalue, -⟩, hrest⟩ := List.forall_mem_cons.mp hwrites
        obtain ⟨result, hresult⟩ := ih (set (· < ·) write.1.wireFormat value dictionary) hrest
        refine ⟨result, ?_⟩
        rw [List.foldlM_cons, hvalue]
        exact hresult
  exact hloop merge.enumerateWrites [] hwrites

theorem Holds.saveUserMerge (hfaithful : json.Faithful) (h : Holds json writesDB records) {path : FPath K}
    (hpath : path.IsSplit)
    (hwrites : ∀ write ∈ merge.enumerateWrites, write.1.IsSplit ∧ ReadsBack true write.2) (writeId : Int64) :
    ∃ writesDB', writesDB.saveUserMerge json merge path writeId = .ok writesDB' ∧
      Holds json writesDB' (Function.update records writeId (some ⟨.merge merge.writeTree, writeId, path, true⟩)) := by
  obtain ⟨dictionary, hdictionary⟩ := exists_valForExport fun write hwrite => (hwrites write hwrite).2
  have hjson : mergeJSON merge path writeId = .ok _ := bind_eq_ok.mpr ⟨dictionary, hdictionary, rfl⟩
  obtain ⟨data, write', hdata, hobject, hsame⟩ := hfaithful _ (Or.inr ⟨merge, path, writeId, hjson⟩)
  have hwrite := userWriteFrom_merge hjson hsame hpath hwrites
  exact ⟨_, bind_eq_ok.mpr ⟨_, hjson, rfl⟩, h.save hdata ⟨write', hobject, hwrite⟩ rfl⟩

/-- One step -/
theorem Holds.perform (hfaithful : json.Faithful) (h : Holds json writesDB records) {event : UserWriteEvent K D}
    (hevent : event.Storable) :
    ∃ writesDB', writesDB.perform json event = .ok writesDB' ∧ Holds json writesDB' (event.apply records) := by
  have hreads : ∀ node : FNode K (LeafValue D), Storable true 0 node.data → ReadsBack true node := fun node hnode =>
    readsBack_iff.mpr ((roundTrips_iff node (Or.inl rfl)).mpr hnode)
  cases event with
  | saveUserOverwrite node path writeId =>
      exact h.saveUserOverwrite hfaithful hevent.1 (hreads node hevent.2) writeId
  | saveUserMerge merge path writeId =>
      refine h.saveUserMerge hfaithful hevent.1 (fun write hwrite => ?_) writeId
      obtain ⟨hsplit, hnode⟩ := hevent.2 write hwrite
      exact ⟨hsplit, hreads write.2 hnode⟩
  | removeUserWrite writeId => exact ⟨_, rfl, h.removeUserWrite writeId⟩

theorem Holds.run (hfaithful : json.Faithful) {events : List (UserWriteEvent K D)}
    (hevents : ∀ event ∈ events, event.Storable) :
    ∃ writesDB, run json events = .ok writesDB ∧ Holds json writesDB (latestWrites events) := by
  have hloop : ∀ (events : List (UserWriteEvent K D)) (writesDB : WritesDB Data) records,
      (∀ event ∈ events, event.Storable) → Holds json writesDB records →
        ∃ writesDB', events.foldlM (WritesDB.perform json) writesDB = .ok writesDB' ∧
          Holds json writesDB' (events.foldl UserWriteEvent.apply records) := by
    intro events
    induction events with
    | nil => exact fun writesDB records _ h => ⟨writesDB, rfl, h⟩
    | cons event rest ih =>
        intro writesDB records hevents h
        obtain ⟨hevent, hrest⟩ := List.forall_mem_cons.mp hevents
        obtain ⟨next, hnext, hholds⟩ := h.perform hfaithful hevent
        obtain ⟨writesDB', hrun, hend⟩ := ih next _ hrest hholds
        refine ⟨writesDB', ?_, hend⟩
        rw [List.foldlM_cons, hnext]
        exact hrun
  exact hloop events [] _ hevents (.empty json)

/-- After the events the writes are read as the last ones that were saved, sorted by their ids. -/
def ReturnsLatest (json : JSONSerialization K D Data) (events : List (UserWriteEvent K D)) : Prop :=
  ∃ writesDB, run json events = .ok writesDB ∧ ∃ writes, writesDB.userWrites json = some (writes, writesDB) ∧
    writes.Pairwise (fun write write' => write.writeId < write'.writeId) ∧
      ∀ write, write ∈ writes ↔ latestWrites events write.writeId = some write

/-- The nodes that are read back, and runs in which only such nodes are saved. -/
theorem readsBack_and_returnsLatest (json : JSONSerialization K D Data) (hfaithful : json.Faithful) :
    (∀ node : FNode K (LeafValue D), ReadsBack true node ↔ Storable true 0 node.data) ∧
      ∀ events : List (UserWriteEvent K D), (∀ event ∈ events, event.Storable) → ReturnsLatest json events := by
  refine ⟨fun newData => ?_, fun events hevents => ?_⟩
  · rw [readsBack_iff]
    exact roundTrips_iff newData (Or.inl rfl)
  · obtain ⟨writesDB, hrun, hholds⟩ := Holds.run hfaithful hevents
    obtain ⟨writes, hwrites, hsorted, hmem⟩ := hholds.userWrites
    exact ⟨writesDB, hrun, writes, hwrites, hsorted, hmem⟩

end WritesDB

end Runs

/-! ### A serialization that keeps the dictionary -/

section Examples

attribute [local instance] marksOnly

def keptDictionary : JSONSerialization String Float (WriteJSON String Float) := ⟨some, fun write => .ok (some write)⟩

theorem keptDictionary_faithful : keptDictionary.Faithful := by
  intro write hwrite
  refine ⟨write, write, rfl, rfl, fun key => ?_⟩
  have hfield : ∀ entry ∈ write, SameField entry.2 entry.2 := by
    rcases hwrite with ⟨newData, path, writeId, hjson⟩ | ⟨merge, path, writeId, hjson⟩
    · obtain ⟨value, -, hjson⟩ := bind_eq_ok.mp hjson
      cases hjson
      simp only [List.forall_mem_cons]
      exact ⟨.refl _, .refl _, .refl _, nofun⟩
    · obtain ⟨dictionary, hdictionary, hjson⟩ := bind_eq_ok.mp hjson
      cases hjson
      have hnodup := (mem_valForExport hdictionary).1.nodup_keys
      simp only [List.forall_mem_cons]
      refine ⟨.refl _, .refl _, ⟨hnodup, hnodup, fun _ => Iff.rfl, fun key value value' hget hget' => ?_⟩, nofun⟩
      cases hget.symm.trans hget'
      exact .refl value
  cases hget : get key write with
  | none => exact .none
  | some field => exact .some (hfield _ (mem_of_get hget))

theorem keyed_zero_storable : Storable true 0 (keyed ["0"]).data := by
  refine ⟨by decide, ?_, nofun, ?_, fun _ => trivial, ⟨by decide, trivial, fun _ => trivial⟩, trivial⟩
  · show ScansKeys ["0".toList]
    simp only [ScansKeys]
    decide
  · exact fun _ => by decide

/-- A write that is replaced, and one that is removed -/
theorem WritesDB.readsBack_and_returnsLatest_replaced : WritesDB.ReturnsLatest keptDictionary
    [.saveUserOverwrite (keyed ["0"]) ["a", "b"] 2, .saveUserMerge .emptyWrite [] 1,
      .saveUserOverwrite (keyed ["0"]) ["c"] 2, .removeUserWrite 1] := by
  have hsplit : FPath.IsSplit ["a", "b"] ∧ FPath.IsSplit ([] : FPath String) ∧ FPath.IsSplit ["c"] := by
    simp only [FPath.IsSplit]
    decide
  refine (WritesDB.readsBack_and_returnsLatest keptDictionary keptDictionary_faithful).2 _ ?_
  simp only [List.forall_mem_cons]
  exact ⟨⟨hsplit.1, keyed_zero_storable⟩, ⟨hsplit.2.1, nofun⟩, ⟨hsplit.2.2, keyed_zero_storable⟩, trivial, nofun⟩

/-- A digit with a mark in a valid key stops the export. -/
theorem WritesDB.val_stops_at_marked_digit : FValidation.isValidKey ['1', '\u20e3'] = true ∧
    ¬ReadsBack true (keyed [String.ofList ['1', '\u20e3']]) := by
  have hval : (keyed [String.ofList ['1', '\u20e3']]).val true = .error .unwrappedNil := by rfl
  refine ⟨by decide, ?_⟩
  rintro ⟨value, hvalue, -⟩
  cases hval.symm.trans hvalue

end Examples

end FirebaseSwift.Database
