import FirebaseSwift.Library.SortedDictionary
import Mathlib.Data.List.Forall2
import Mathlib.Logic.Function.Basic

/-! Records kept as data under keys that are made from their ids. The store holds the records if there is data
under the key of each id that has a record, the data reads as the record, and nothing else is in the store.
Storing and removing a record keep this. Going through the store reads each record once. -/

namespace RecordStores

open SortedDictionary

variable {I L R Data : Type} [DecidableEq L]

structure Holds (r : L → L → Prop) (recordKey : I → L) (reads : Data → R → Prop) (store : List (L × Data))
    (records : I → Option R) : Prop where
  sorted : Sorted r store
  record : ∀ id record, records id = some record →
    ∃ data, get (recordKey id) store = some data ∧ reads data record
  entry : ∀ key ∈ store.map Prod.fst, ∃ id record, recordKey id = key ∧ records id = some record

namespace Holds

variable {r : L → L → Prop} {recordKey : I → L} {reads : Data → R → Prop} {store : List (L × Data)}
  {records : I → Option R}

theorem empty (r : L → L → Prop) (recordKey : I → L) (reads : Data → R → Prop) :
    Holds r recordKey reads [] fun _ => none :=
  ⟨sorted_nil _, nofun, nofun⟩

theorem set [DecidableRel r] [IsStrictTotalOrder L r] [DecidableEq I] (h : Holds r recordKey reads store records)
    (hinj : Function.Injective recordKey) {id : I} {data : Data} {record : R} (hread : reads data record) :
    Holds r recordKey reads (SortedDictionary.set r (recordKey id) data store)
      (Function.update records id (some record)) := by
  refine ⟨h.sorted.set _ _ _, fun other found hfound => ?_, fun key hkey => ?_⟩
  · by_cases heq : other = id
    · subst heq
      rw [Function.update_self] at hfound
      cases hfound
      exact ⟨data, get_set_self _ _ _ _, hread⟩
    · rw [Function.update_of_ne heq] at hfound
      obtain ⟨kept, hget, hkept⟩ := h.record other found hfound
      exact ⟨kept, (get_set_of_ne _ (fun hkeys => heq (hinj hkeys)) _ _).trans hget, hkept⟩
  · rcases (mem_keys_set _).mp hkey with rfl | hkey
    · exact ⟨id, record, rfl, Function.update_self _ _ _⟩
    · obtain ⟨other, found, rfl, hfound⟩ := h.entry key hkey
      by_cases heq : other = id
      · exact ⟨other, record, rfl, heq ▸ Function.update_self _ _ _⟩
      · exact ⟨other, found, rfl, (Function.update_of_ne heq _ _).trans hfound⟩

theorem remove [DecidableEq I] (h : Holds r recordKey reads store records)
    (hinj : Function.Injective recordKey) (id : I) :
    Holds r recordKey reads (SortedDictionary.remove (recordKey id) store) (Function.update records id none) := by
  refine ⟨h.sorted.remove _, fun other found hfound => ?_, fun key hkey => ?_⟩
  · by_cases heq : other = id
    · subst heq
      rw [Function.update_self] at hfound
      cases hfound
    · rw [Function.update_of_ne heq] at hfound
      obtain ⟨kept, hget, hkept⟩ := h.record other found hfound
      exact ⟨kept, (get_remove_of_ne (fun hkeys => heq (hinj hkeys)) _).trans hget, hkept⟩
  · obtain ⟨entry, hentry, rfl⟩ := List.mem_map.mp hkey
    obtain ⟨hmem, hne⟩ := mem_remove.mp hentry
    obtain ⟨other, found, hother, hfound⟩ := h.entry entry.1 (List.mem_map_of_mem hmem)
    refine ⟨other, found, hother, (Function.update_of_ne ?_ _ _).trans hfound⟩
    rintro rfl
    exact hne hother.symm

/-- The entries read as the records, each of them once. -/
theorem exists_forall₂ [IsStrictTotalOrder L r] (h : Holds r recordKey reads store records)
    (hinj : Function.Injective recordKey) :
    ∃ found : List (I × R), List.Forall₂ (fun entry item => reads entry.2 item.2) store found ∧
      (found.map Prod.fst).Nodup ∧ ∀ id record, (id, record) ∈ found ↔ records id = some record := by
  have hentries : ∀ entries : List (L × Data), (∀ entry ∈ entries, entry ∈ store) →
      ∃ found : List (I × R), List.Forall₂ (fun entry item => entry.1 = recordKey item.1 ∧
        records item.1 = some item.2 ∧ reads entry.2 item.2) entries found := by
    intro entries
    induction entries with
    | nil => exact fun _ => ⟨[], .nil⟩
    | cons entry rest ih =>
        intro hentries
        obtain ⟨hentry, hrest⟩ := List.forall_mem_cons.mp hentries
        obtain ⟨found, hfound⟩ := ih hrest
        obtain ⟨id, record, hkey, hrecord⟩ := h.entry entry.1 (List.mem_map_of_mem hentry)
        obtain ⟨data, hget, hread⟩ := h.record id record hrecord
        rw [hkey, h.sorted.get_of_mem hentry] at hget
        cases hget
        exact ⟨(id, record) :: found, .cons ⟨hkey.symm, hrecord, hread⟩ hfound⟩
  obtain ⟨found, hfound⟩ := hentries store fun _ => id
  have hkeys : store.map Prod.fst = (found.map Prod.fst).map recordKey := by
    clear h hentries
    induction hfound with
    | nil => rfl
    | cons hentry _ ih => rw [List.map_cons, List.map_cons, List.map_cons, ih, hentry.1]
  have hrecords : ∀ item ∈ found, records item.1 = some item.2 := by
    clear h hkeys hentries
    induction hfound with
    | nil => exact nofun
    | cons hentry _ ih => exact List.forall_mem_cons.mpr ⟨hentry.2.1, ih⟩
  refine ⟨found, hfound.imp fun _ _ hentry => hentry.2.2, ?_, fun id record => ⟨hrecords (id, record), ?_⟩⟩
  · have hnodup : ((found.map Prod.fst).map recordKey).Nodup := hkeys ▸ h.sorted.nodup_keys
    exact (List.pairwise_map.mp hnodup).imp fun hne heq => hne (congrArg recordKey heq)
  · intro hrecord
    obtain ⟨data, hget, -⟩ := h.record id record hrecord
    have hkey : recordKey id ∈ store.map Prod.fst := mem_keys_iff.mpr (by rw [hget]; nofun)
    rw [hkeys] at hkey
    obtain ⟨other, hother, heq⟩ := List.mem_map.mp hkey
    obtain ⟨item, hitem, rfl⟩ := List.mem_map.mp hother
    have hsame := hrecords item hitem
    rw [hinj heq, hrecord] at hsame
    cases hsame
    exact hinj heq ▸ hitem

end Holds

end RecordStores
