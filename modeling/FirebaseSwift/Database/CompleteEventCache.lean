import FirebaseSwift.Database.RerootedLayering
import FirebaseSwift.Database.SyncTreeRuns

/-! The complete event cache for transactions. It should be the server cache that a sync point at the
path or above has, with all writes but the excluded ones layered on it. The search for the server cache
ends at the first sync point on the path, also when that one has none. And of a merge above the path a
layering keeps only a complete node for the path, which it descends into once more. -/

namespace FirebaseSwift.Database

variable {K V : Type} [DatabaseKey K]

open FCompoundWrite

variable {path : FPath K}

/-- The records whose ids are not excluded, hidden ones included. -/
def remainingRecords (excludeWriteIds : List Int) (records : List (FWriteRecord K V)) :
    List (FWriteRecord K V) :=
  records.filter fun record => !excludeWriteIds.contains record.writeId

namespace FSyncTree

/-- The server cache for the path of the first sync point on the path that has one. -/
def heldServerCache (self : FSyncTree K V) (path : FPath K) : Option (FNode K V) :=
  (self.syncPointTree.valuesOnPath path).findSome? fun found =>
    found.2.completeServerCacheAtPath (FPath.relativePath found.1 path)

theorem heldServerCache_eq_none {self : FSyncTree K V} {path : FPath K} :
    self.heldServerCache path = none ↔ ∀ above rest syncPoint, above ++ rest = path →
      self.syncPointTree.valueAt above = some syncPoint →
        syncPoint.completeServerCacheAtPath rest = none := by
  rw [heldServerCache, List.findSome?_eq_none_iff]
  constructor
  · rintro h above rest syncPoint rfl hvalue
    have hmem := FImmutableTree.mem_valuesOnPath.mpr ⟨List.prefix_append above rest, hvalue⟩
    simpa using h (above, syncPoint) hmem
  · rintro h ⟨above, syncPoint⟩ hmem
    obtain ⟨⟨rest, rfl⟩, hvalue⟩ := FImmutableTree.mem_valuesOnPath.mp hmem
    simpa using h above rest syncPoint rfl hvalue

/-- The search for the cache of a new query does go on where a sync point has none. -/
theorem forEachOn_visitServerCache (self : FSyncTree K V) (path : FPath K) :
    self.syncPointTree.forEachOn (visitServerCache path) path [] none = self.heldServerCache path := by
  rw [FImmutableTree.forEachOn_eq, heldServerCache]
  induction self.syncPointTree.valuesOnPath path with
  | nil => rfl
  | cons found rest ih =>
      rw [FImmutableTree.visitWhile, List.findSome?_cons]
      simp only [visitServerCache, List.nil_append] at ih ⊢
      rcases Option.eq_none_or_eq_some
        (found.2.completeServerCacheAtPath (FPath.relativePath found.1 path)) with hnone | ⟨cache, hcache⟩
      · simpa [hnone] using ih
      · simp [hcache]

/-- The search of `calcCompleteEventCacheAtPath` finds the server cache that is held, or misses nothing:
it is empty, or pending writes cover the path. -/
def Searched (self : FSyncTree K V) (path : FPath K) (excludeWriteIds : List Int) : Prop :=
  (∀ found ∈ (self.syncPointTree.valuesOnPath path).head?,
      found.2.completeServerCacheAtPath (FPath.relativePath found.1 path) ≠ none) ∨
    self.heldServerCache path = some .empty ∨
    (layering (remainingRecords excludeWriteIds
      self.pendingWriteTree.allWrites)).hasCompleteWriteAtPath path = true

variable [DatabaseValue V] [QueryFilters K V]

end FSyncTree

end FirebaseSwift.Database
