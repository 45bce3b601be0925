import FirebaseSwift.Database.WriteMeanings

/-! Layering records at a path. The result should be what the path sees of the records layered from the
root. But of a merge above the path the layering keeps only a complete node for the path, which it
descends into once more. -/

namespace FirebaseSwift.Database

variable {K V : Type} [DatabaseKey K]

open FCompoundWrite

/-! ### Layering records at a path -/

namespace FWriteRecord

/-- Layering at the path keeps all that the record writes there: no complete node of a merge is
descended into again, and the merge has nothing below the path. -/
def SeenWhole (path : FPath K) (record : FWriteRecord K V) : Prop :=
  match record.record with
  | .overwrite _ => True
  | .merge merge => ∀ rest, record.path ++ rest = path → rest ≠ [] →
      match merge.completeNodeAtPath rest with
      | some child => rest.length = 1 ∨ child = .empty
      | none => (merge.childCompoundWriteAtPath rest).isEmpty = true

end FWriteRecord

/-- What a merge above the path writes there. -/
theorem FCompoundWrite.writesAt_merge (merge : FCompoundWrite K V) (path rest : FPath K) :
    writesAt (path ++ rest) (merge.enumerateWrites.map fun write => (path.child write.1, write.2)) =
      writesAt rest merge.enumerateWrites := by
  generalize merge.enumerateWrites = writes
  induction writes with
  | nil => rfl
  | cons write writes ih =>
      obtain ⟨w, v⟩ := write
      rw [List.map_cons, FPath.child]
      by_cases hbelow : rest <+: w
      · obtain ⟨y, rfl⟩ := hbelow
        rw [← List.append_assoc, writesAt_cons_below, writesAt_cons_below, ih]
      by_cases habove : w <+: rest
      · obtain ⟨y, rfl⟩ := habove
        rw [← List.append_assoc] at ih ⊢
        rw [writesAt_cons_above, writesAt_cons_above, ih]
      · rw [writesAt_cons_beside v writes habove hbelow, writesAt_cons_beside, ih]
        · exact fun hle => habove ((List.prefix_append_right_inj path).mp hle)
        · exact fun hle => hbelow ((List.prefix_append_right_inj path).mp hle)

variable {path : FPath K} {record : FWriteRecord K V}
variable (compoundWrite : FCompoundWrite K V)

theorem layerRecord_below (hle : path <+: record.path) : FWriteTree.layerRecord path compoundWrite record =
      compoundWrite.addWrites (writesAt path record.writes) := by
  obtain ⟨kind, writeId, recordPath, visible⟩ := record
  obtain ⟨rest, rfl⟩ := hle
  have hcontains : path.contains (path ++ rest) = true :=
    FPath.contains_iff.mpr (List.prefix_append path rest)
  cases kind with
  | overwrite newData =>
      simp only [FWriteTree.layerRecord, FWriteRecord.writes, if_pos hcontains, writesAt_cons_below,
        FPath.relativePath_append]
      rfl
  | merge merge =>
      have hwrites : writesAt path (merge.enumerateWrites.map fun write =>
          ((path ++ rest).child write.1, write.2)) =
          merge.enumerateWrites.map fun write => (FPath.child rest write.1, write.2) := by
        generalize merge.enumerateWrites = writes
        induction writes with
        | nil => rfl
        | cons write writes ih =>
            rw [List.map_cons, List.map_cons, FPath.child, List.append_assoc, writesAt_cons_below, ih]
            rfl
      simp only [FWriteTree.layerRecord, FWriteRecord.writes, if_pos hcontains, hwrites,
        FPath.relativePath_append, addCompoundWrite, addWrites, List.foldl_map]

theorem layerRecord_beside (habove : ¬record.path <+: path) (hbelow : ¬path <+: record.path) :
    FWriteTree.layerRecord path compoundWrite record =
      compoundWrite.addWrites (writesAt path record.writes) := by
  have hnil : writesAt path record.writes = [] := by
    refine writesAt_eq_nil fun write hwrite => ?_
    have hpre := FWriteRecord.path_prefix_of_mem_writes hwrite
    exact ⟨fun hle => habove (hpre.trans hle),
      fun hle => (List.prefix_or_prefix_of_prefix hle hpre).elim hbelow habove⟩
  have hcontains : path.contains record.path = false := FPath.contains_eq_false_iff.mpr hbelow
  have hcontains' : record.path.contains path = false := FPath.contains_eq_false_iff.mpr habove
  rw [hnil]
  unfold FWriteTree.layerRecord
  cases record.record <;> simp [hcontains, hcontains']

/-- Layering a record at a path adds its writes as they are seen from there. -/
theorem layerRecord_eq (hseen : record.SeenWhole path) : FWriteTree.layerRecord path compoundWrite record =
      compoundWrite.addWrites (writesAt path record.writes) := by
  by_cases hbelow : path <+: record.path
  · exact layerRecord_below compoundWrite hbelow
  by_cases habove : record.path <+: path
  · obtain ⟨kind, writeId, recordPath, visible⟩ := record
    obtain ⟨rest, rfl⟩ := habove
    have hrest : rest ≠ [] := by
      rintro rfl
      exact hbelow (by simp)
    have hcontains : FPath.contains (recordPath ++ rest) recordPath = false :=
      FPath.contains_eq_false_iff.mpr hbelow
    have hcontains' : recordPath.contains (recordPath ++ rest) = true :=
      FPath.contains_iff.mpr (List.prefix_append recordPath rest)
    have hcons : rest.isEmpty = false := by simpa using hrest
    cases kind with
    | overwrite newData =>
        simp only [FWriteTree.layerRecord, FWriteRecord.writes, writesAt_cons_above, hcontains,
          hcontains', FPath.relativePath_append, if_true, Bool.false_eq_true, if_false]
        rfl
    | merge merge =>
        have hpairwise := merge.pairwise_enumerateWrites
        have hchild := hseen rest rfl hrest
        simp only [FWriteTree.layerRecord, FWriteRecord.writes, writesAt_merge, hcontains, hcontains',
          FPath.relativePath_append, if_true, Bool.false_eq_true, if_false, hcons]
        rcases merge.covered_or_free rest with ⟨found, v, ⟨y, rfl⟩, hv⟩ | hfree
        · -- one write of the merge covers the path
          have hcomplete := completeNodeAtPath_of_covered (List.prefix_append found y) hv
          rw [FPath.relativePath_append] at hcomplete
          rw [hcomplete] at hchild ⊢
          rw [writesAt_eq_singleton hpairwise (mem_enumerateWrites.mpr hv)]
          rcases hchild with hlength | hempty
          · have hpop : FPath.popFront (found ++ y) = [] := List.length_eq_zero_iff.mp (by
              rw [FPath.popFront, List.length_tail, hlength])
            simp only [hpop, FNode.getChild_nil]
            rfl
          · simp only [hempty, FNode.getChild_empty]
            rfl
        · rw [completeNodeAtPath_of_free hfree] at hchild ⊢
          have hnone : ∀ below, merge.valueAt (rest ++ below) = none := by
            intro below
            have hvalue := valueAt_childCompoundWriteAtPath_of_free hfree below
            have htree := FImmutableTree.isEmpty_iff.mp hchild
            rw [← hvalue, FCompoundWrite.valueAt, htree, FImmutableTree.valueAt_empty]
          have hnil : writesAt rest merge.enumerateWrites = [] := by
            refine writesAt_eq_nil fun write hwrite => ⟨fun hle => ?_, ?_⟩
            · have hvalue := mem_enumerateWrites.mp hwrite
              rw [hfree _ hle] at hvalue
              cases hvalue
            · rintro ⟨below, hbelow⟩
              have hvalue := mem_enumerateWrites.mp hwrite
              rw [← hbelow, hnone] at hvalue
              cases hvalue
          rw [hnil]
          rfl
  · exact layerRecord_beside compoundWrite habove hbelow

/-! ### Lists of records -/

theorem not_mem_of_append (hpath : DatabaseKey.priority ∉ path) {above rest : FPath K}
    (happ : above ++ rest = path) : DatabaseKey.priority ∉ rest :=
  fun hmem => hpath (happ ▸ List.mem_append_right _ hmem)

namespace FWriteRecord

/-- The path does not lead through a priority of a node of the record. -/
def OpenTo (path : FPath K) (record : FWriteRecord K V) : Prop :=
  ∀ write ∈ record.writes, ∀ rest, write.1 ++ rest = path → DatabaseKey.priority ∉ rest

/-- From some record on the records are seen whole. It is the first one, or one of them writes the node
of the path. -/
def SeenWholeInTheEnd (path : FPath K) (records : List (FWriteRecord K V)) : Prop :=
  ∃ before after, records = before ++ after ∧ (∀ record ∈ after, record.SeenWhole path) ∧
    (before = [] ∨ Covers (after.flatMap writes) path)

end FWriteRecord

variable {records : List (FWriteRecord K V)} {writes : List (FPath K × FNode K V)}

theorem foldl_layerRecord (hseen : ∀ record ∈ records, record.SeenWhole path) (compoundWrite : FCompoundWrite K V) :
    records.foldl (FWriteTree.layerRecord path) compoundWrite =
      compoundWrite.addWrites (writesAt path (records.flatMap FWriteRecord.writes)) := by
  induction records generalizing compoundWrite with
  | nil => rfl
  | cons record rest ih =>
      rw [List.forall_mem_cons] at hseen
      rw [List.foldl_cons, layerRecord_eq compoundWrite hseen.1, ih hseen.2, List.flatMap_cons,
        writesAt_append, addWrites_append]

theorem layerTreeFromWrites_eq_foldl (records : List (FWriteRecord K V)) (filter : FWriteRecord K V → Bool)
    (path : FPath K) : FWriteTree.layerTreeFromWrites records filter path =
      (records.filter filter).foldl (FWriteTree.layerRecord path) emptyWrite := by
  rw [List.foldl_filter]
  rfl

/-- After a write at the root the writes from before play no role. -/
theorem FCompoundWrite.addWrites_eq_of_root (hroot : ∃ write ∈ writes, write.1 = [])
    (self other : FCompoundWrite K V) : self.addWrites writes = other.addWrites writes := by
  induction writes generalizing self other with
  | nil =>
      obtain ⟨_, hmem, _⟩ := hroot
      cases hmem
  | cons write rest ih =>
      rw [addWrites_cons, addWrites_cons]
      rw [List.exists_mem_cons_iff] at hroot
      rcases hroot with hroot | hroot
      · congr 1
        ext1 path
        rw [hroot, valueAt_addWrite_root, valueAt_addWrite_root]
      · exact ih hroot _ _

theorem exists_root_writesAt (hcovers : Covers writes path) : ∃ write ∈ writesAt path writes, write.1 = [] := by
  obtain ⟨write, hmem, rest, rfl⟩ := hcovers
  obtain ⟨before, after, rfl⟩ := List.append_of_mem hmem
  obtain ⟨above, v⟩ := write
  refine ⟨([], v.getChild rest), ?_, rfl⟩
  rw [writesAt_append, writesAt_cons_above]
  exact List.mem_append_right _ List.mem_cons_self

theorem childCompoundWriteAtPath_emptyWrite (path : FPath K) :
    (emptyWrite : FCompoundWrite K V).childCompoundWriteAtPath path = emptyWrite := by
  ext1 other
  rw [valueAt_childCompoundWriteAtPath_of_free fun _ _ => valueAt_emptyWrite _, valueAt_emptyWrite,
    valueAt_emptyWrite]

theorem childCompoundWriteAtPath_layering_append {before after : List (FWriteRecord K V)}
    (hopen : ∀ record ∈ before ++ after, record.OpenTo path) :
    (layering (before ++ after)).childCompoundWriteAtPath path =
      ((layering before).childCompoundWriteAtPath path).addWrites
        (writesAt path (after.flatMap FWriteRecord.writes)) := by
  have hwrites : ∀ write ∈ before.flatMap FWriteRecord.writes, ∀ rest, write.1 ++ rest = path →
      DatabaseKey.priority ∉ rest := by
    intro write hwrite
    obtain ⟨record, hrecord, hwrite⟩ := List.mem_flatMap.mp hwrite
    exact hopen record (List.mem_append_left _ hrecord) write hwrite
  rw [layering, List.foldl_append, foldl_addTo after, childCompoundWriteAtPath_addWrites]
  · rfl
  · rw [foldl_addTo]
    exact (openTo_emptyWrite path).addWrites hwrites
  · intro write hwrite
    obtain ⟨record, hrecord, hwrite⟩ := List.mem_flatMap.mp hwrite
    exact hopen record (List.mem_append_right _ hrecord) write hwrite

/-- Records that are seen whole in the end are layered at the path as the path sees them layered from
the root. -/
theorem layerTreeFromWrites_eq_of_seenWhole {filter : FWriteRecord K V → Bool}
    (hopen : ∀ record ∈ records.filter filter, record.OpenTo path)
    (hseen : FWriteRecord.SeenWholeInTheEnd path (records.filter filter)) :
    FWriteTree.layerTreeFromWrites records filter path =
      (layering (records.filter filter)).childCompoundWriteAtPath path := by
  obtain ⟨before, after, happ, hafter, hstart⟩ := hseen
  rw [layerTreeFromWrites_eq_foldl]
  rw [happ] at hopen ⊢
  rw [List.foldl_append, foldl_layerRecord hafter, childCompoundWriteAtPath_layering_append hopen]
  rcases hstart with rfl | hcovers
  · rw [List.foldl_nil, layering, List.foldl_nil, childCompoundWriteAtPath_emptyWrite]
  · exact addWrites_eq_of_root (exists_root_writesAt hcovers) _ _

/-- A merge above the path with a complete node for it. -/
theorem FWriteRecord.seenWhole_of_layerRecord {record : FWriteRecord K V}
    (hcovers : Covers record.writes path) {compoundWrite other : FCompoundWrite K V}
    (hacts : ∀ node, (FWriteTree.layerRecord path compoundWrite record).applyToNode node =
      (other.addWrites (writesAt path record.writes)).applyToNode node) : record.SeenWhole path := by
  obtain ⟨kind, writeId, recordPath, visible⟩ := record
  cases kind with
  | overwrite newData => trivial
  | merge merge =>
      rintro rest rfl hrest
      have hcontains : FPath.contains (recordPath ++ rest) recordPath = false :=
        FPath.contains_eq_false_iff.mpr fun hle => hrest (by simpa using hle.length_le)
      have hcontains' : recordPath.contains (recordPath ++ rest) = true :=
        FPath.contains_iff.mpr (List.prefix_append recordPath rest)
      have hcons : rest.isEmpty = false := by simpa using hrest
      obtain ⟨found, v, ⟨y, rfl⟩, hv⟩ : ∃ found v, found <+: rest ∧ merge.valueAt found = some v := by
        obtain ⟨write, hmem, hle⟩ := hcovers
        obtain ⟨⟨found, v⟩, hfound, rfl⟩ := List.mem_map.mp hmem
        exact ⟨found, v, (List.prefix_append_right_inj recordPath).mp hle, mem_enumerateWrites.mp hfound⟩
      have hcomplete := completeNodeAtPath_of_covered (List.prefix_append found y) hv
      rw [FPath.relativePath_append] at hcomplete
      simp only [hcomplete]
      simp only [FWriteTree.layerRecord, FWriteRecord.writes, writesAt_merge, hcontains, hcontains',
        FPath.relativePath_append, if_true, Bool.false_eq_true, if_false, hcons, hcomplete,
        writesAt_eq_singleton merge.pairwise_enumerateWrites (mem_enumerateWrites.mpr hv), addWrites_cons,
        addWrites_nil, applyToNode_addWrite_root] at hacts
      by_cases hpop : FPath.popFront (found ++ y) = []
      · left
        rw [FPath.popFront, ← List.length_eq_zero_iff, List.length_tail] at hpop
        have hlength := List.length_pos_iff.mpr hrest
        omega
      · exact Or.inr (FNode.eq_empty_of_getChild_self hpop (hacts .empty))

/-- The layering at the path acts as what the path sees of the records layered from the root if the
records are seen whole in the end. If the last record writes the node of the path, then the layering
acts so only if this record is seen whole. -/
theorem layerTreeFromWrites_acts (records : List (FWriteRecord K V)) (filter : FWriteRecord K V → Bool)
    (path : FPath K) (hopen : ∀ record ∈ records.filter filter, record.OpenTo path) :
    (FWriteRecord.SeenWholeInTheEnd path (records.filter filter) →
      ∀ node, (FWriteTree.layerTreeFromWrites records filter path).applyToNode node =
        ((layering (records.filter filter)).childCompoundWriteAtPath path).applyToNode node) ∧
    ∀ before record, records.filter filter = before ++ [record] → Covers record.writes path →
      ((∀ node, (FWriteTree.layerTreeFromWrites records filter path).applyToNode node =
        ((layering (records.filter filter)).childCompoundWriteAtPath path).applyToNode node) ↔
      record.SeenWhole path) := by
  have hsufficient : FWriteRecord.SeenWholeInTheEnd path (records.filter filter) →
      ∀ node, (FWriteTree.layerTreeFromWrites records filter path).applyToNode node =
        ((layering (records.filter filter)).childCompoundWriteAtPath path).applyToNode node := by
    intro hseen node
    rw [layerTreeFromWrites_eq_of_seenWhole hopen hseen]
  refine ⟨hsufficient, fun before record happ hcovers => ⟨fun hacts => ?_, fun hseen => ?_⟩⟩
  · rw [layerTreeFromWrites_eq_foldl] at hacts
    rw [happ] at hacts hopen
    rw [List.foldl_append, childCompoundWriteAtPath_layering_append hopen, List.flatMap_singleton] at hacts
    exact FWriteRecord.seenWhole_of_layerRecord hcovers hacts
  · refine hsufficient ⟨before, [record], happ, ?_, Or.inr ?_⟩
    · intro other hother
      rw [List.mem_singleton.mp hother]
      exact hseen
    · rwa [List.flatMap_singleton]

/-- A merge that writes the child of a node and another child beside it. -/
def childMerge : FWriteRecord String Int :=
  ⟨.merge (emptyWrite.addWrites [(["a"], .leaf 1 .empty), (["b"], .leaf 2 .empty)]), 1, [], true⟩

theorem layerTreeFromWrites_childMerge :
    (FWriteTree.layerTreeFromWrites [childMerge] (fun _ => true) ["a"]).applyToNode .empty =
      ((layering [childMerge]).childCompoundWriteAtPath ["a"]).applyToNode .empty := by
  have hacts := layerTreeFromWrites_acts [childMerge] (fun _ => true) ["a"]
    (fun _ _ _ _ _ => not_mem_of_append (by decide))
  refine hacts.1 ⟨[], [childMerge], rfl, fun record hrecord => ?_, Or.inl rfl⟩ .empty
  rw [List.mem_singleton.mp hrecord]
  intro rest hrest _
  have hrest' : rest = ["a"] := hrest
  subst hrest'
  exact Or.inl rfl

/-- A merge that writes a node is not seen from below that node: its child is empty there. -/
theorem layerTreeFromWrites_fails :
    ¬∀ (records : List (FWriteRecord String Int)) (filter : FWriteRecord String Int → Bool)
      (path : FPath String) (node : FNode String Int),
      (FWriteTree.layerTreeFromWrites records filter path).applyToNode node =
        ((layering (records.filter filter)).childCompoundWriteAtPath path).applyToNode node := by
  intro hall
  have hacts := hall [⟨.merge (emptyWrite.addWrite (FNode.empty.updateChild ["b"] (.leaf 1 .empty)) ["a"]),
    1, [], true⟩] (fun _ => true) ["a", "b"] .empty
  exact absurd hacts (by decide)

end FirebaseSwift.Database
