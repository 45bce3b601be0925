import FirebaseSwift.Database.View
import Mathlib.Data.Set.Basic

/-! Which queries should be listened to, given the set of the queries that have a view. A query that
loads all data makes its path complete. A complete path needs one listen for the default query, if no
path above is complete; a filtered query needs one for itself, if its path and all above are not. -/

namespace FirebaseSwift.Database

variable {K V : Type} [DatabaseKey K]

namespace ListenSets

def Complete (views : Set (FQuerySpec K V)) (path : FPath K) : Prop :=
  ∃ query ∈ views, query.path = path ∧ query.loadsAllData = true

/-- A path above is complete. -/
def Shadowed (views : Set (FQuerySpec K V)) (path : FPath K) : Prop :=
  ∃ above, above <+: path ∧ above ≠ path ∧ Complete views above

/-- The path or one above is complete. -/
def Covered (views : Set (FQuerySpec K V)) (path : FPath K) : Prop :=
  ∃ above, above <+: path ∧ Complete views above

/-- The queries that should be listened to. -/
def Listened (views : Set (FQuerySpec K V)) : Set (FQuerySpec K V) :=
  {query | query.isDefault = true ∧ Complete views query.path ∧ ¬Shadowed views query.path ∨
    query.loadsAllData = false ∧ query ∈ views ∧ ¬Covered views query.path}

variable {views views' : Set (FQuerySpec K V)} {path : FPath K} {query : FQuerySpec K V}

theorem covered_iff : Covered views path ↔ Complete views path ∨ Shadowed views path := by
  constructor
  · rintro ⟨above, hle, hcomplete⟩
    by_cases heq : above = path
    · exact Or.inl (heq ▸ hcomplete)
    · exact Or.inr ⟨above, hle, heq, hcomplete⟩
  · rintro (hcomplete | ⟨above, hle, _, hcomplete⟩)
    · exact ⟨path, List.prefix_rfl, hcomplete⟩
    · exact ⟨above, hle, hcomplete⟩

theorem Covered.below {below : FPath K} (h : Covered views path) (hle : path <+: below) : Covered views below := by
  obtain ⟨above, habove, hcomplete⟩ := h
  exact ⟨above, habove.trans hle, hcomplete⟩

theorem Covered.shadowed {below : FPath K} (h : Covered views path) (hle : path <+: below)
    (hne : path ≠ below) : Shadowed views below := by
  obtain ⟨above, habove, hcomplete⟩ := h
  refine ⟨above, habove.trans hle, ?_, hcomplete⟩
  rintro rfl
  exact hne (hle.eq_of_length_le habove.length_le)

theorem Complete.mono (hsub : views ⊆ views') (h : Complete views path) : Complete views' path := by
  obtain ⟨query, hquery, hpath, hloads⟩ := h
  exact ⟨query, hsub hquery, hpath, hloads⟩

theorem isDefault_iff : query.isDefault = true ↔ query = .defaultQueryAtPath query.path := by
  obtain ⟨path, params⟩ := query
  simp only [FQuerySpec.isDefault, FQueryParams.isDefault_iff, FQuerySpec.defaultQueryAtPath,
    FQuerySpec.mk.injEq, true_and]

/-- The default query loads all data. -/
theorem not_filtered_of_isDefault (h : query.isDefault = true) : query.loadsAllData = true := by
  rw [FQuerySpec.isDefault, FQueryParams.isDefault, Bool.and_eq_true] at h
  exact h.1

theorem complete_congr (h : ∀ query, query.path = path → (query ∈ views ↔ query ∈ views')) :
    Complete views path ↔ Complete views' path :=
  exists_congr fun query => by
    constructor
    · rintro ⟨hmem, hpath, hloads⟩
      exact ⟨(h query hpath).mp hmem, hpath, hloads⟩
    · rintro ⟨hmem, hpath, hloads⟩
      exact ⟨(h query hpath).mpr hmem, hpath, hloads⟩

/-- Whether a query is listened to depends on the complete paths above it, and on its own view. -/
theorem listened_congr (hcomplete : ∀ other, other <+: query.path → (Complete views other ↔ Complete views' other))
    (hquery : query ∈ views ↔ query ∈ views') : query ∈ Listened views ↔ query ∈ Listened views' := by
  have hat : Complete views query.path ↔ Complete views' query.path := hcomplete _ List.prefix_rfl
  have hshadowed : Shadowed views query.path ↔ Shadowed views' query.path :=
    exists_congr fun other => and_congr_right fun hother => and_congr_right fun _ => hcomplete other hother
  have hcovered : Covered views query.path ↔ Covered views' query.path := by
    rw [covered_iff, covered_iff, hat, hshadowed]
  rw [Listened, Listened, Set.mem_ofPred_eq, Set.mem_ofPred_eq, hat, hshadowed, hcovered, hquery]

/-- With no complete path above, only the views at the path and below it count. -/
theorem listened_iff_of_below (hviews : ∀ query, path <+: query.path → (query ∈ views ↔ query ∈ views'))
    (hshadowed : ¬Shadowed views path) (hshadowed' : ¬Shadowed views' path)
    (hle : path <+: query.path) : query ∈ Listened views ↔ query ∈ Listened views' := by
  refine listened_congr (fun other hother => ?_) (hviews query hle)
  by_cases hbelow : path <+: other
  · exact complete_congr fun query hpath => hviews query (hpath ▸ hbelow)
  · have habove : other <+: path := (List.prefix_or_prefix_of_prefix hother hle).resolve_right hbelow
    have hne : other ≠ path := by
      rintro rfl
      exact hbelow List.prefix_rfl
    exact iff_of_false (fun h => hshadowed ⟨other, habove, hne, h⟩)
      fun h => hshadowed' ⟨other, habove, hne, h⟩

/-! ### Views that differ at one path -/

/-- The same views everywhere but at the path. -/
def SameElsewhere (path : FPath K) (views views' : Set (FQuerySpec K V)) : Prop :=
  ∀ query, query.path ≠ path → (query ∈ views ↔ query ∈ views')

theorem SameElsewhere.symm (h : SameElsewhere path views views') : SameElsewhere path views' views :=
  fun query hne => (h query hne).symm

theorem SameElsewhere.complete_iff (h : SameElsewhere path views views') {other : FPath K}
    (hne : other ≠ path) : Complete views other ↔ Complete views' other :=
  complete_congr fun query hpath => h query (hpath ▸ hne)

/-- Above the path nothing changes. -/
theorem SameElsewhere.shadowed_iff (h : SameElsewhere path views views') {above : FPath K}
    (hle : above <+: path) : Shadowed views above ↔ Shadowed views' above := by
  have hne : ∀ other, other <+: above → other ≠ above → other ≠ path := by
    rintro other hother hne rfl
    exact hne (hother.eq_of_length_le hle.length_le)
  constructor
  · rintro ⟨other, hother, hneAbove, hcomplete⟩
    exact ⟨other, hother, hneAbove, (h.complete_iff (hne other hother hneAbove)).mp hcomplete⟩
  · rintro ⟨other, hother, hneAbove, hcomplete⟩
    exact ⟨other, hother, hneAbove, (h.complete_iff (hne other hother hneAbove)).mpr hcomplete⟩

/-- What is not at the path or below it does not depend on the views at the path. -/
theorem SameElsewhere.listened_iff (h : SameElsewhere path views views')
    (hbelow : ¬path <+: query.path) : query ∈ Listened views ↔ query ∈ Listened views' := by
  have hne : ∀ other, other <+: query.path → other ≠ path := by
    rintro other hother rfl
    exact hbelow hother
  exact listened_congr (fun other hother => h.complete_iff (hne other hother))
    (h query (hne _ List.prefix_rfl))

/-- Below a covered path nothing is listened to, at it at most the default query. -/
theorem eq_default_of_listened (hcovered : Covered views path) (hle : path <+: query.path)
    (hquery : query ∈ Listened views) :
    query = .defaultQueryAtPath path ∧ Complete views path ∧ ¬Shadowed views path := by
  rcases hquery with ⟨hdefault, hcomplete, hshadowed⟩ | ⟨_, _, hnot⟩
  · by_cases heq : path = query.path
    · rw [heq]
      exact ⟨isDefault_iff.mp hdefault, hcomplete, hshadowed⟩
    · exact absurd (hcovered.shadowed hle heq) hshadowed
  · exact absurd (hcovered.below hle) hnot

theorem default_mem_listened (hcomplete : Complete views path) (hshadowed : ¬Shadowed views path) :
    (.defaultQueryAtPath path : FQuerySpec K V) ∈ Listened views :=
  Or.inl ⟨rfl, hcomplete, hshadowed⟩

theorem default_mem_listened_iff : (.defaultQueryAtPath path : FQuerySpec K V) ∈ Listened views ↔
      Complete views path ∧ ¬Shadowed views path := by
  constructor
  · rintro (⟨_, hrest⟩ | ⟨hfilters, _⟩)
    · exact hrest
    · rw [not_filtered_of_isDefault rfl] at hfilters
      cases hfilters
  · rintro ⟨hcomplete, hshadowed⟩
    exact default_mem_listened hcomplete hshadowed

/-- Where the path stays covered, and complete if it was, the same queries are listened to. -/
theorem listened_eq_of_covered (h : SameElsewhere path views views') (hcovered : Covered views path)
    (hcovered' : Covered views' path)
    (hcomplete : ¬Shadowed views path → (Complete views path ↔ Complete views' path)) :
    Listened views' = Listened views := by
  have hiff : ∀ {views views' : Set (FQuerySpec K V)}, SameElsewhere path views views' →
      Covered views path → (¬Shadowed views path → (Complete views path ↔ Complete views' path)) →
      ∀ query ∈ Listened views, query ∈ Listened views' := by
    intro views views' h hcovered hcomplete query hquery
    by_cases hle : path <+: query.path
    · obtain ⟨rfl, hat, hshadowed⟩ := eq_default_of_listened hcovered hle hquery
      exact default_mem_listened ((hcomplete hshadowed).mp hat)
        (mt (h.shadowed_iff List.prefix_rfl).mpr hshadowed)
    · exact (h.listened_iff hle).mp hquery
  refine Set.Subset.antisymm (hiff h.symm hcovered' fun hshadowed => ?_) (hiff h hcovered hcomplete)
  exact (hcomplete (mt (h.shadowed_iff List.prefix_rfl).mp hshadowed)).symm

/-- With a complete path more, the default query replaces what is listened to below. -/
theorem listened_iff_of_complete (h : SameElsewhere path views views') (hnot : ¬Covered views path)
    (hcomplete : Complete views' path) : query ∈ Listened views' ↔
      query = .defaultQueryAtPath path ∨ query ∈ Listened views ∧ ¬path <+: query.path := by
  have hshadowed : ¬Shadowed views' path := fun hshadowed =>
    hnot (covered_iff.mpr (Or.inr ((h.shadowed_iff List.prefix_rfl).mpr hshadowed)))
  have hcovered : Covered views' path := covered_iff.mpr (Or.inl hcomplete)
  by_cases hle : path <+: query.path
  · constructor
    · exact fun hquery => Or.inl (eq_default_of_listened hcovered hle hquery).1
    · rintro (rfl | ⟨_, hnotLe⟩)
      · exact default_mem_listened hcomplete hshadowed
      · exact absurd hle hnotLe
  · have hne : query ≠ .defaultQueryAtPath path := by
      rintro rfl
      exact hle List.prefix_rfl
    simp [hne, hle, h.listened_iff hle]

/-- With the same complete paths the default queries are the same, and the filtered ones are those that
have a view. -/
theorem listened_iff_of_complete_iff (h : ∀ path, Complete views path ↔ Complete views' path) :
    query ∈ Listened views' ↔
      query ∈ Listened views ∧ query.isDefault = true ∨
        query.loadsAllData = false ∧ query ∈ views' ∧ ¬Covered views query.path := by
  have hshadowed : Shadowed views query.path ↔ Shadowed views' query.path :=
    exists_congr fun _ => and_congr_right fun _ => and_congr_right fun _ => h _
  have hcovered : Covered views query.path ↔ Covered views' query.path := by
    rw [covered_iff, covered_iff, h, hshadowed]
  simp only [Listened, Set.mem_ofPred_eq, ← h, ← hshadowed, ← hcovered]
  constructor
  · rintro (⟨hdefault, hrest⟩ | hfiltered)
    · exact Or.inl ⟨Or.inl ⟨hdefault, hrest⟩, hdefault⟩
    · exact Or.inr hfiltered
  · rintro (⟨hdefault | ⟨hfiltered, _⟩, hdefault'⟩ | hfiltered)
    · exact Or.inl hdefault
    · rw [not_filtered_of_isDefault hdefault'] at hfiltered
      cases hfiltered
    · exact Or.inr hfiltered

/-! ### Views that go -/

/-- At the path views have gone. The removed queries are the filtered ones among them, and the default
query if the path was complete and is not any more. -/
structure ViewsRemoved (path : FPath K) (views views' : Set (FQuerySpec K V))
    (removed : List (FQuerySpec K V)) : Prop where
  sameElsewhere : SameElsewhere path views views'
  sub : views' ⊆ views
  nodup : removed.Nodup
  mem_iff : ∀ query, query ∈ removed ↔
    (query.loadsAllData = false ∧ query ∈ views ∧ query ∉ views') ∨
      (query = .defaultQueryAtPath path ∧ Complete views path ∧ ¬Complete views' path)

namespace ViewsRemoved

variable {removed : List (FQuerySpec K V)}

theorem any_iff (h : ViewsRemoved path views views' removed) :
    (removed.any fun query => query.loadsAllData) = true ↔ Complete views path ∧ ¬Complete views' path := by
  rw [List.any_eq_true]
  constructor
  · rintro ⟨query, hmem, hloads⟩
    rcases (h.mem_iff query).mp hmem with ⟨hfilters, _⟩ | ⟨_, hlast⟩
    · rw [hloads] at hfilters
      cases hfilters
    · exact hlast
  · intro hlast
    exact ⟨_, (h.mem_iff _).mpr (Or.inr ⟨rfl, hlast⟩), rfl⟩

/-- With the default query not removed, the complete paths are the same. -/
theorem complete_iff (h : ViewsRemoved path views views' removed)
    (hany : (removed.any fun query => query.loadsAllData) = false) (other : FPath K) :
    Complete views other ↔ Complete views' other := by
  by_cases hother : other = path
  · subst hother
    refine ⟨fun hcomplete => ?_, Complete.mono h.sub⟩
    by_contra hnot
    rw [h.any_iff.mpr ⟨hcomplete, hnot⟩] at hany
    cases hany
  · exact h.sameElsewhere.complete_iff hother

/-- With the default query not removed, exactly the removed queries are not listened to any more. -/
theorem listened_iff (h : ViewsRemoved path views views' removed)
    (hany : (removed.any fun query => query.loadsAllData) = false) :
    query ∈ Listened views' ↔ query ∈ Listened views ∧ query ∉ removed := by
  have hfilters : ∀ query ∈ removed, query.loadsAllData = false ∧ query ∉ views' := by
    intro query hmem
    rcases (h.mem_iff query).mp hmem with ⟨hfilters, _, hnot⟩ | ⟨_, hlast⟩
    · exact ⟨hfilters, hnot⟩
    · rw [h.any_iff.mpr hlast] at hany
      cases hany
  rw [listened_iff_of_complete_iff (h.complete_iff hany)]
  constructor
  · rintro (⟨hmem, hdefault⟩ | ⟨hquery, hmem, hnot⟩)
    · refine ⟨hmem, fun hremoved => ?_⟩
      have hquery := (hfilters query hremoved).1
      rw [not_filtered_of_isDefault hdefault] at hquery
      cases hquery
    · exact ⟨Or.inr ⟨hquery, h.sub hmem, hnot⟩, fun hremoved => (hfilters query hremoved).2 hmem⟩
  · rintro ⟨hmem, hremoved⟩
    rcases hmem with hdefault | ⟨hquery, hmem, hnot⟩
    · exact Or.inl ⟨Or.inl hdefault, hdefault.1⟩
    · refine Or.inr ⟨hquery, ?_, hnot⟩
      by_contra hgone
      exact hremoved ((h.mem_iff query).mpr (Or.inl ⟨hquery, hmem, hgone⟩))

/-- Before, the removed queries of an uncovered path were listened to. -/
theorem mem_listened (h : ViewsRemoved path views views' removed)
    (hany : (removed.any fun query => query.loadsAllData) = false) (hnot : ¬Covered views' path)
    (hmem : query ∈ removed) : query ∈ Listened views := by
  rcases (h.mem_iff query).mp hmem with ⟨hfilters, hview, hgone⟩ | ⟨_, hlast⟩
  · have hpath : query.path = path := by
      by_contra hne
      exact hgone ((h.sameElsewhere query hne).mp hview)
    refine Or.inr ⟨hfilters, hview, fun hcovered => hnot ?_⟩
    obtain ⟨above, hle, hcomplete⟩ := hcovered
    exact ⟨above, hpath ▸ hle, (h.complete_iff hany above).mp hcomplete⟩
  · rw [h.any_iff.mpr hlast] at hany
    cases hany

/-- Under a complete path that stays nothing changes. -/
theorem listened_eq (h : ViewsRemoved path views views' removed) (hcovered : Covered views' path) :
    Listened views' = Listened views := by
  have hcovered' : Covered views path := by
    obtain ⟨above, hle, hcomplete⟩ := hcovered
    exact ⟨above, hle, hcomplete.mono h.sub⟩
  refine listened_eq_of_covered h.sameElsewhere hcovered' hcovered fun hshadowed => ?_
  rw [h.sameElsewhere.shadowed_iff List.prefix_rfl] at hshadowed
  have hcomplete := (covered_iff.mp hcovered).resolve_right hshadowed
  exact iff_of_true (hcomplete.mono h.sub) hcomplete

/-- Without the complete view of an uncovered path, what is below is listened to again. -/
theorem listened_iff_of_default (h : ViewsRemoved path views views' removed)
    (hcomplete : Complete views path) (hnot : ¬Covered views' path) : query ∈ Listened views ↔
      query = .defaultQueryAtPath path ∨ query ∈ Listened views' ∧ ¬path <+: query.path :=
  listened_iff_of_complete h.sameElsewhere.symm hnot hcomplete

theorem not_mem_removed (h : ViewsRemoved path views views' removed) (hquery : query ∈ Listened views')
    (hfilters : query.loadsAllData = false) : query ∉ removed := by
  intro hmem
  rcases (h.mem_iff query).mp hmem with ⟨_, _, hnot⟩ | ⟨rfl, _⟩
  · rcases hquery with ⟨hdefault, _⟩ | ⟨_, hview, _⟩
    · rw [not_filtered_of_isDefault hdefault] at hfilters
      cases hfilters
    · exact hnot hview
  · cases hfilters

end ViewsRemoved

end ListenSets

end FirebaseSwift.Database
