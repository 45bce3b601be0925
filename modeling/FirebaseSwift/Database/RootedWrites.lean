import FirebaseSwift.Database.WriteLocality

/-! Compound writes as seen from a path. What a path sees of a compound write is a compound write
again. A write below the path is added there, of one above the path its part replaces everything, and
one beside the path is not seen. -/

namespace FirebaseSwift.Database

variable {K V : Type} [DatabaseKey K]

namespace FCompoundWrite

theorem valueAt_addWrite_root (self : FCompoundWrite K V) (newNode : FNode K V) (other : FPath K) :
    (self.addWrite newNode []).valueAt other = if other = [] then some newNode else none := by
  rcases self.covered_or_free [] with ⟨found, v, hpre, hv⟩ | hfree
  · have hfound : found = [] := List.prefix_nil.mp hpre
    subst hfound
    rw [valueAt_addWrite_covered newNode hpre hv, FPath.relativePath_self, FNode.updateChild_nil]
    split_ifs with hother
    · rfl
    · by_contra hsome
      obtain ⟨w, hw⟩ := Option.ne_none_iff_exists'.mp hsome
      exact hother (self.eq_of_prefixed hv hw List.nil_prefix).symm
  · rw [valueAt_addWrite_free newNode hfree, if_pos List.nil_prefix]

/-- A write at the root replaces the node. -/
theorem applyToNode_of_rootWrite {self : FCompoundWrite K V} {v : FNode K V}
    (hv : self.valueAt [] = some v) (node : FNode K V) : self.applyToNode node = v := by
  obtain ⟨tree, hwf⟩ := self
  obtain ⟨value, children⟩ := tree
  have hvalue : value = some v := hv
  subst hvalue
  exact FNode.updateChild_nil node v

theorem applyToNode_addWrite_root (self : FCompoundWrite K V) (newNode node : FNode K V) :
    (self.addWrite newNode []).applyToNode node = newNode :=
  applyToNode_of_rootWrite ((self.valueAt_addWrite_root newNode []).trans (if_pos rfl)) node

/-- The path does not lead through a priority of a written node. -/
def OpenTo (path : FPath K) (self : FCompoundWrite K V) : Prop :=
  ∀ above rest v, above ++ rest = path → self.valueAt above = some v → DatabaseKey.priority ∉ rest

variable {path : FPath K} {self : FCompoundWrite K V}

theorem openTo_emptyWrite (path : FPath K) : (emptyWrite : FCompoundWrite K V).OpenTo path := by
  intro above rest v _ hv
  rw [valueAt_emptyWrite] at hv
  cases hv

variable {w : FPath K} {writes : List (FPath K × FNode K V)}

theorem OpenTo.addWrite (hopen : self.OpenTo path)
    (hw : ∀ rest, w ++ rest = path → DatabaseKey.priority ∉ rest) (newNode : FNode K V) :
    (self.addWrite newNode w).OpenTo path := by
  intro above rest v happ hv
  rcases self.covered_or_free w with ⟨found, u, hpre, hu⟩ | hfree
  · rw [valueAt_addWrite_covered newNode hpre hu] at hv
    split_ifs at hv with heq
    · exact hopen found rest u (heq ▸ happ) hu
    · exact hopen above rest v happ hv
  · rw [valueAt_addWrite_free newNode hfree] at hv
    split_ifs at hv with hle heq
    · exact hw rest (heq ▸ happ)
    · exact hopen above rest v happ hv

theorem childCompoundWriteAtPath_addWrite_below (hopen : self.OpenTo path) (newNode : FNode K V) (rest : FPath K) :
    (self.addWrite newNode (path ++ rest)).childCompoundWriteAtPath path =
      (self.childCompoundWriteAtPath path).addWrite newNode rest := by
  ext1 other
  rcases self.covered_or_free path with ⟨found, v, ⟨y, rfl⟩, hv⟩ | hfree
  · have hy : DatabaseKey.priority ∉ y := hopen found y v rfl hv
    have hle : found <+: found ++ y ++ rest := ⟨y ++ rest, by rw [List.append_assoc]⟩
    have hnew := (valueAt_addWrite_covered newNode hle hv found).trans (if_pos rfl)
    have hseen := valueAt_childCompoundWriteAtPath_of_covered (List.prefix_append found y) hv
    rw [valueAt_childCompoundWriteAtPath_of_covered (List.prefix_append found y) hnew,
      valueAt_addWrite_covered newNode List.nil_prefix ((hseen []).trans (if_pos rfl)), hseen,
      List.append_assoc, FPath.relativePath_append, FPath.relativePath_append,
      FNode.getChild_updateChild_append hy]
    split_ifs <;> rfl
  · have hseen := valueAt_childCompoundWriteAtPath_of_free hfree
    rcases self.covered_or_free (path ++ rest) with ⟨found, v, hpre, hv⟩ | hfree'
    · -- the write changes another one below the path
      have hbelow : path <+: found := by
        rcases List.prefix_or_prefix_of_prefix hpre (List.prefix_append path rest) with hle | hle
        · rw [hfree found hle] at hv
          cases hv
        · exact hle
      obtain ⟨y, rfl⟩ := hbelow
      have hyrest : y <+: rest := (List.prefix_append_right_inj path).mp hpre
      have hnew := valueAt_addWrite_covered newNode hpre hv
      have hne : y ≠ [] := by
        rintro rfl
        rw [List.append_nil, hfree path List.prefix_rfl] at hv
        cases hv
      have hfreeNew : ∀ above, above <+: path →
          (self.addWrite newNode (path ++ rest)).valueAt above = none := by
        intro above hle
        rw [hnew, if_neg, hfree above hle]
        rintro rfl
        exact hne (by simpa using hle.length_le)
      rw [valueAt_childCompoundWriteAtPath_of_free hfreeNew, hnew,
        valueAt_addWrite_covered newNode hyrest ((hseen y).trans hv), hseen]
      obtain ⟨z, rfl⟩ := hyrest
      rw [← List.append_assoc, FPath.relativePath_append, FPath.relativePath_append]
      simp only [List.append_cancel_left_eq]
    · have hfreeSeen : ∀ above, above <+: rest →
          (self.childCompoundWriteAtPath path).valueAt above = none := fun above hle => by
        rw [hseen, hfree' _ ((List.prefix_append_right_inj path).mpr hle)]
      have hnew := valueAt_addWrite_free newNode hfree'
      rw [valueAt_addWrite_free newNode hfreeSeen, hseen]
      cases rest with
      | nil =>
          rw [List.append_nil] at hnew ⊢
          have hat : (self.addWrite newNode path).valueAt path = some newNode := by
            rw [hnew, if_pos List.prefix_rfl, if_pos rfl]
          rw [valueAt_childCompoundWriteAtPath_of_covered List.prefix_rfl hat, FPath.relativePath_self,
            FNode.getChild_nil, if_pos List.nil_prefix]
      | cons front rest =>
          have hfreeNew : ∀ above, above <+: path →
              (self.addWrite newNode (path ++ front :: rest)).valueAt above = none := by
            intro above hle
            rw [hnew, if_neg, hfree above hle]
            intro hle'
            have hlen := (hle'.trans hle).length_le
            simp at hlen
          rw [valueAt_childCompoundWriteAtPath_of_free hfreeNew, hnew]
          simp only [List.prefix_append_right_inj, List.append_cancel_left_eq]

theorem childCompoundWriteAtPath_addWrite_above {above rest : FPath K}
    (hopen : self.OpenTo (above ++ rest)) (newNode : FNode K V) :
    (self.addWrite newNode above).childCompoundWriteAtPath (above ++ rest) =
      (self.childCompoundWriteAtPath (above ++ rest)).addWrite (newNode.getChild rest) [] := by
  ext1 other
  rw [valueAt_addWrite_root]
  rcases self.covered_or_free above with ⟨found, v, ⟨y, rfl⟩, hv⟩ | hfree
  · have hy : DatabaseKey.priority ∉ y := fun hmem =>
      hopen found (y ++ rest) v (by rw [List.append_assoc]) hv (List.mem_append_left _ hmem)
    have hnew := (valueAt_addWrite_covered newNode (List.prefix_append found y) hv found).trans
      (if_pos rfl)
    rw [List.append_assoc, valueAt_childCompoundWriteAtPath_of_covered (List.prefix_append _ _) hnew,
      FPath.relativePath_append, FPath.relativePath_append, FNode.getChild_updateChild_above hy]
  · have hnew : (self.addWrite newNode above).valueAt above = some newNode := by
      rw [valueAt_addWrite_free newNode hfree, if_pos List.prefix_rfl, if_pos rfl]
    rw [valueAt_childCompoundWriteAtPath_of_covered (List.prefix_append _ _) hnew, FPath.relativePath_append]

theorem childCompoundWriteAtPath_addWrite_beside (hopen : self.OpenTo path) (newNode : FNode K V)
    (habove : ¬w <+: path) (hbelow : ¬path <+: w) :
    (self.addWrite newNode w).childCompoundWriteAtPath path = self.childCompoundWriteAtPath path := by
  -- nothing changes at paths that are related to this one, but for a node above both
  have hvalues : ∀ other, other <+: path ∨ path <+: other → ¬other <+: w →
      (self.addWrite newNode w).valueAt other = self.valueAt other := by
    intro other hrelated hnot
    rcases self.covered_or_free w with ⟨found, v, hpre, hv⟩ | hfree
    · rw [valueAt_addWrite_covered newNode hpre hv, if_neg]
      rintro rfl
      exact hnot hpre
    · rw [valueAt_addWrite_free newNode hfree, if_neg]
      intro hle
      rcases hrelated with hrelated | hrelated
      · exact habove (hle.trans hrelated)
      · exact (List.prefix_or_prefix_of_prefix hle hrelated).elim habove hbelow
  have hnone : ∀ other, other <+: path → self.valueAt other = none →
      (self.addWrite newNode w).valueAt other = none := by
    intro other hle hother
    by_cases hw : other <+: w
    · rcases self.covered_or_free w with ⟨found, v, hpre, hv⟩ | hfree
      · rw [valueAt_addWrite_covered newNode hpre hv, if_neg, hother]
        rintro rfl
        rw [hother] at hv
        cases hv
      · rw [valueAt_addWrite_free newNode hfree, if_neg fun hle' => habove (hle'.trans hle), hother]
    · rw [hvalues other (Or.inl hle) hw, hother]
  ext1 other
  rcases self.covered_or_free path with ⟨found, v, hpre, hv⟩ | hfree
  · rw [valueAt_childCompoundWriteAtPath_of_covered hpre hv]
    by_cases hw : found <+: w
    · have hnew := (valueAt_addWrite_covered newNode hw hv found).trans (if_pos rfl)
      rw [valueAt_childCompoundWriteAtPath_of_covered hpre hnew]
      obtain ⟨y, rfl⟩ := hpre
      obtain ⟨x, rfl⟩ := hw
      rw [List.prefix_append_right_inj] at habove hbelow
      rw [FPath.relativePath_append, FPath.relativePath_append,
        FNode.getChild_updateChild_beside (hopen found y v rfl hv) habove hbelow]
    · rw [valueAt_childCompoundWriteAtPath_of_covered hpre ((hvalues found (Or.inl hpre) hw).trans hv)]
  · rw [valueAt_childCompoundWriteAtPath_of_free hfree,
      valueAt_childCompoundWriteAtPath_of_free fun above hle => hnone above hle (hfree above hle),
      hvalues _ (Or.inr (List.prefix_append path other))]
    exact fun hle => hbelow ((List.prefix_append path other).trans hle)

/-- Single writes as seen from a path. -/
def writesAt (path : FPath K) (writes : List (FPath K × FNode K V)) : List (FPath K × FNode K V) :=
  writes.filterMap fun write =>
    if path.contains write.1 then some (FPath.relativePath path write.1, write.2)
    else if write.1.contains path then
      some ([], write.2.getChild (FPath.relativePath write.1 path))
    else none

theorem writesAt_cons_below (rest : FPath K) (v : FNode K V) (writes : List (FPath K × FNode K V)) :
    writesAt path ((path ++ rest, v) :: writes) = (rest, v) :: writesAt path writes := by
  have hcontains : path.contains (path ++ rest) = true :=
    FPath.contains_iff.mpr (List.prefix_append path rest)
  simp [writesAt, hcontains]

theorem writesAt_cons_above {above rest : FPath K} (v : FNode K V) (writes : List (FPath K × FNode K V)) :
    writesAt (above ++ rest) ((above, v) :: writes) =
      ([], v.getChild rest) :: writesAt (above ++ rest) writes := by
  have hcontains : above.contains (above ++ rest) = true :=
    FPath.contains_iff.mpr (List.prefix_append above rest)
  cases rest with
  | nil => simp [writesAt, FPath.contains_iff]
  | cons front rest =>
      have hnot : FPath.contains (above ++ front :: rest) above = false :=
        FPath.contains_eq_false_iff.mpr fun hle => by simpa using hle.length_le
      simp [writesAt, hcontains, hnot]

theorem writesAt_cons_beside (v : FNode K V) (writes : List (FPath K × FNode K V)) (habove : ¬w <+: path)
    (hbelow : ¬path <+: w) : writesAt path ((w, v) :: writes) = writesAt path writes := by
  have hcontains : path.contains w = false := FPath.contains_eq_false_iff.mpr hbelow
  have hcontains' : w.contains path = false := FPath.contains_eq_false_iff.mpr habove
  simp [writesAt, hcontains, hcontains']

theorem writesAt_append (writes writes' : List (FPath K × FNode K V)) :
    writesAt path (writes ++ writes') = writesAt path writes ++ writesAt path writes' :=
  List.filterMap_append

theorem OpenTo.addWrites (hopen : self.OpenTo path)
    (hwrites : ∀ write ∈ writes, ∀ rest, write.1 ++ rest = path → DatabaseKey.priority ∉ rest) :
    (self.addWrites writes).OpenTo path := by
  induction writes generalizing self with
  | nil => exact hopen
  | cons write rest ih =>
      rw [List.forall_mem_cons] at hwrites
      exact ih (hopen.addWrite hwrites.1 write.2) hwrites.2

theorem childCompoundWriteAtPath_addWrites (hopen : self.OpenTo path) (writes : List (FPath K × FNode K V))
    (hwrites : ∀ write ∈ writes, ∀ rest, write.1 ++ rest = path → DatabaseKey.priority ∉ rest) :
    (self.addWrites writes).childCompoundWriteAtPath path =
      (self.childCompoundWriteAtPath path).addWrites (writesAt path writes) := by
  induction writes generalizing self with
  | nil => rfl
  | cons write rest ih =>
      obtain ⟨w, v⟩ := write
      rw [List.forall_mem_cons] at hwrites
      rw [addWrites_cons, ih (hopen.addWrite hwrites.1 v) hwrites.2]
      by_cases hbelow : path <+: w
      · obtain ⟨y, rfl⟩ := hbelow
        rw [childCompoundWriteAtPath_addWrite_below hopen, writesAt_cons_below, addWrites_cons]
      by_cases habove : w <+: path
      · obtain ⟨y, rfl⟩ := habove
        rw [childCompoundWriteAtPath_addWrite_above hopen, writesAt_cons_above, addWrites_cons]
      · rw [childCompoundWriteAtPath_addWrite_beside hopen v habove hbelow,
          writesAt_cons_beside v rest habove hbelow]

theorem writesAt_eq_nil (h : ∀ write ∈ writes, ¬write.1 <+: path ∧ ¬path <+: write.1) :
    writesAt path writes = [] := by
  induction writes with
  | nil => rfl
  | cons write rest ih =>
      rw [List.forall_mem_cons] at h
      rw [writesAt_cons_beside write.2 rest h.1.1 h.1.2, ih h.2]

/-- Of writes beside each other a path below one of them sees only this one. -/
theorem writesAt_eq_singleton (hpairwise : writes.Pairwise fun e e' => ¬e.1 <+: e'.1 ∧ ¬e'.1 <+: e.1)
    {found rest : FPath K} {v : FNode K V} (hmem : (found, v) ∈ writes) :
    writesAt (found ++ rest) writes = [([], v.getChild rest)] := by
  have hbeside : ∀ e : FPath K × FNode K V, ¬found <+: e.1 ∧ ¬e.1 <+: found →
      ¬e.1 <+: found ++ rest ∧ ¬found ++ rest <+: e.1 := fun e he =>
    ⟨fun hle => (List.prefix_or_prefix_of_prefix hle (List.prefix_append found rest)).elim he.2 he.1,
      fun hle => he.1 ((List.prefix_append found rest).trans hle)⟩
  induction writes with
  | nil => cases hmem
  | cons write writes ih =>
      obtain ⟨hhead, htail⟩ := List.pairwise_cons.mp hpairwise
      rcases List.mem_cons.mp hmem with rfl | hmem
      · rw [writesAt_cons_above, writesAt_eq_nil fun e he => hbeside e (hhead e he)]
      · obtain ⟨hnot, hnot'⟩ := hbeside write (hhead (found, v) hmem).symm
        rw [writesAt_cons_beside write.2 writes hnot hnot', ih htail hmem]

end FCompoundWrite

end FirebaseSwift.Database
