import FirebaseSwift.Database.WriteTree
import Mathlib.Data.Option.Basic

/-! Layering single writes. The compound write of a write tree arises from adding single writes, one
for an overwrite and one for every entry of a merge. This file answers when the result does not
depend on some of them: writes that lie beside all others can be taken out again by removing their
branches, and writes that a later one covers can be left out, as long as they did not change a node
above it on the way. -/

namespace FirebaseSwift.Database

variable {K V : Type} [DatabaseKey K]

namespace FCompoundWrite

/-- Add single writes in their order. -/
def addWrites (self : FCompoundWrite K V) (writes : List (FPath K × FNode K V)) :
    FCompoundWrite K V :=
  writes.foldl (fun compoundWrite write => compoundWrite.addWrite write.2 write.1) self

@[simp] theorem addWrites_nil (self : FCompoundWrite K V) : self.addWrites [] = self := rfl

@[simp] theorem addWrites_cons (self : FCompoundWrite K V) (write : FPath K × FNode K V)
    (writes : List (FPath K × FNode K V)) :
    self.addWrites (write :: writes) = (self.addWrite write.2 write.1).addWrites writes := rfl

theorem addWrites_append (self : FCompoundWrite K V) (writes writes' : List (FPath K × FNode K V)) :
    self.addWrites (writes ++ writes') = (self.addWrites writes).addWrites writes' :=
  List.foldl_append

/-! ### Writes beside all others -/

/-- The paths of the writes are not comparable to the given one. -/
def Beside (paths : List (FPath K)) (path : FPath K) : Prop :=
  ∀ other ∈ paths, ¬other <+: path ∧ ¬path <+: other

/-- The second compound write holds the writes, which lie beside those of the first one, in
addition. -/
def Extends (added : List (FPath K × FNode K V)) (self other : FCompoundWrite K V) : Prop :=
  (∀ path v, self.valueAt path = some v → Beside (added.map Prod.fst) path) ∧
    (∀ write ∈ added, other.valueAt write.1 = some write.2) ∧
      ∀ path, path ∉ added.map Prod.fst → other.valueAt path = self.valueAt path

theorem Extends.nil (self : FCompoundWrite K V) : Extends [] self self := by
  refine ⟨fun _ _ _ _ h => ?_, fun _ h => ?_, fun _ _ => rfl⟩ <;> cases h

variable {added : List (FPath K × FNode K V)}

/-- A write beside the added ones can be made before or after they are added. -/
theorem Extends.addWrite {self other : FCompoundWrite K V} (h : Extends added self other) {path : FPath K}
    (newNode : FNode K V) (hbeside : Beside (added.map Prod.fst) path) :
    Extends added (self.addWrite newNode path) (other.addWrite newNode path) := by
  obtain ⟨hvalues, hadded, hothers⟩ := h
  have habove : ∀ above, above <+: path → other.valueAt above = self.valueAt above := fun above hle =>
    hothers above fun hmem => (hbeside above hmem).1 hle
  rcases self.covered_or_free path with ⟨found, v, hpre, hv⟩ | hfree
  · have hv' : other.valueAt found = some v := by rw [habove found hpre, hv]
    have hfound := hvalues found v hv
    refine ⟨fun q w hw => ?_, fun write hwrite => ?_, fun q hq => ?_⟩
    · rw [valueAt_addWrite_covered newNode hpre hv] at hw
      split_ifs at hw with heq
      · exact heq ▸ hfound
      · exact hvalues q w hw
    · have hne : write.1 ≠ found := fun heq =>
        (hfound write.1 (List.mem_map_of_mem hwrite)).1 (heq ▸ List.prefix_rfl)
      rw [valueAt_addWrite_covered newNode hpre hv', if_neg hne, hadded write hwrite]
    · rw [valueAt_addWrite_covered newNode hpre hv', valueAt_addWrite_covered newNode hpre hv, hothers q hq]
  · have hfree' : ∀ above, above <+: path → other.valueAt above = none := fun above hle => by
      rw [habove above hle, hfree above hle]
    refine ⟨fun q w hw => ?_, fun write hwrite => ?_, fun q hq => ?_⟩
    · rw [valueAt_addWrite_free newNode hfree] at hw
      split_ifs at hw with hle heq
      · exact heq ▸ hbeside
      · exact hvalues q w hw
    · have hnot := (hbeside write.1 (List.mem_map_of_mem hwrite)).2
      rw [valueAt_addWrite_free newNode hfree', if_neg hnot, hadded write hwrite]
    · rw [valueAt_addWrite_free newNode hfree', valueAt_addWrite_free newNode hfree, hothers q hq]

theorem Extends.addWrites {self other : FCompoundWrite K V} (h : Extends added self other)
    (writes : List (FPath K × FNode K V)) (hbeside : ∀ write ∈ writes, Beside (added.map Prod.fst) write.1) :
    Extends added (self.addWrites writes) (other.addWrites writes) := by
  induction writes generalizing self other with
  | nil => exact h
  | cons write rest ih =>
      rw [List.forall_mem_cons] at hbeside
      exact ih (h.addWrite write.2 hbeside.1) hbeside.2

section Covered

variable {R : FPath K → FNode K V → FNode K V → Prop} {path : FPath K} {self other : FCompoundWrite K V}

/-- Equal but for the writes at the path and below. Values above it are related by how much of the
path is left below them. -/
def AgreeOff (R : FPath K → FNode K V → FNode K V → Prop) (path : FPath K)
    (self other : FCompoundWrite K V) : Prop :=
  (∀ q, ¬q <+: path → ¬path <+: q → self.valueAt q = other.valueAt q) ∧
    ∀ q rest, rest ≠ [] → path = q ++ rest → Option.Rel (R rest) (self.valueAt q) (other.valueAt q)

theorem AgreeOff.refl (hrefl : ∀ rest v, R rest v v) (path : FPath K) (self : FCompoundWrite K V) :
    AgreeOff R path self self := by
  refine ⟨fun _ _ _ => rfl, fun q rest _ _ => ?_⟩
  cases self.valueAt q with
  | none => exact .none
  | some v => exact .some (hrefl rest v)

theorem AgreeOff.some_left (h : AgreeOff R path self other) {q rest : FPath K} {v : FNode K V}
    (hne : rest ≠ []) (hpath : path = q ++ rest) (hv : self.valueAt q = some v) :
    ∃ v', other.valueAt q = some v' ∧ R rest v v' := by
  have hrel := h.2 q rest hne hpath
  rw [hv] at hrel
  cases hother : other.valueAt q with
  | none => rw [hother] at hrel; cases hrel
  | some v' =>
      rw [hother] at hrel
      cases hrel with
      | some hR => exact ⟨v', rfl, hR⟩

theorem AgreeOff.none_left (h : AgreeOff R path self other) {q rest : FPath K}
    (hne : rest ≠ []) (hpath : path = q ++ rest) (hv : self.valueAt q = none) : other.valueAt q = none := by
  have hrel := h.2 q rest hne hpath
  rw [hv] at hrel
  cases hother : other.valueAt q with
  | none => rfl
  | some v' => rw [hother] at hrel; cases hrel

variable (newNode : FNode K V)

/-- Without a write strictly above it, a write at or below the path changes nothing else. -/
theorem valueAt_addWrite_below {w : FPath K} (hle : path <+: w)
    (hnone : ∀ q rest, rest ≠ [] → path = q ++ rest → self.valueAt q = none) {q : FPath K} (hq : ¬path <+: q) :
    (self.addWrite newNode w).valueAt q = self.valueAt q := by
  rcases self.covered_or_free w with ⟨found, v, hpre, hv⟩ | hfree
  · have hne : q ≠ found := by
      rintro rfl
      rcases List.prefix_or_prefix_of_prefix hpre hle with ⟨rest, hrest⟩ | hbelow
      · cases rest with
        | nil => exact hq (by rw [← hrest, List.append_nil])
        | cons front rest =>
            rw [hnone q (front :: rest) (by simp) hrest.symm] at hv
            cases hv
      · exact hq hbelow
    rw [valueAt_addWrite_covered newNode hpre hv, if_neg hne]
  · rw [valueAt_addWrite_free newNode hfree, if_neg fun hwq => hq (hle.trans hwq)]

/-- A write below a value above the path is made in that value on both sides. -/
theorem AgreeOff.addWrite_above (h : AgreeOff R path self other) {w q rest : FPath K}
    {v : FNode K V} (newNode : FNode K V) (hne : rest ≠ []) (hpath : path = q ++ rest) (hw : q <+: w)
    (hv : self.valueAt q = some v)
    (hstep : ∀ v', R rest v v' → R rest (v.updateChild (FPath.relativePath q w) newNode)
      (v'.updateChild (FPath.relativePath q w) newNode)) :
    AgreeOff R path (self.addWrite newNode w) (other.addWrite newNode w) := by
  obtain ⟨v', hv', hR⟩ := h.some_left hne hpath hv
  refine ⟨fun q' hnot hnot' => ?_, fun q' rest' hne' hpath' => ?_⟩
  · have hne' : q' ≠ q := fun heq => hnot ⟨rest, by rw [heq, hpath]⟩
    rw [valueAt_addWrite_covered newNode hw hv, valueAt_addWrite_covered newNode hw hv', if_neg hne',
      if_neg hne', h.1 q' hnot hnot']
  · rw [valueAt_addWrite_covered newNode hw hv, valueAt_addWrite_covered newNode hw hv']
    by_cases heq : q' = q
    · subst heq
      obtain rfl : rest' = rest := List.append_cancel_left (hpath'.symm.trans hpath)
      rw [if_pos rfl, if_pos rfl]
      exact .some (hstep v' hR)
    · rw [if_neg heq, if_neg heq]
      exact h.2 q' rest' hne' hpath'

/-- A write on both sides keeps the agreement. -/
theorem AgreeOff.addWrite (h : AgreeOff R path self other) (hrefl : ∀ rest v, R rest v v)
    (w : FPath K) (newNode : FNode K V)
    (hstep : ∀ q rest v v', rest ≠ [] → path = q ++ rest → q <+: w → R rest v v' →
      R rest (v.updateChild (FPath.relativePath q w) newNode)
        (v'.updateChild (FPath.relativePath q w) newNode)) :
    AgreeOff R path (self.addWrite newNode w) (other.addWrite newNode w) := by
  by_cases habove : ∃ q rest v, rest ≠ [] ∧ path = q ++ rest ∧ q <+: w ∧ self.valueAt q = some v
  · obtain ⟨q, rest, v, hne, hpath, hw, hv⟩ := habove
    exact h.addWrite_above newNode hne hpath hw hv fun v' hR => hstep q rest v v' hne hpath hw hR
  have hnone : ∀ q rest, rest ≠ [] → path = q ++ rest → q <+: w → self.valueAt q = none := by
    intro q rest hne hpath hw
    by_contra hsome
    obtain ⟨v, hv⟩ := Option.ne_none_iff_exists'.mp hsome
    exact habove ⟨q, rest, v, hne, hpath, hw, hv⟩
  by_cases hle : path <+: w
  · -- the write is at the path or below, and only values there change
    have hself : ∀ q rest, rest ≠ [] → path = q ++ rest → self.valueAt q = none :=
      fun q rest hne hpath => hnone q rest hne hpath ((List.prefix_append q rest).trans (hpath ▸ hle))
    have hother : ∀ q rest, rest ≠ [] → path = q ++ rest → other.valueAt q = none :=
      fun q rest hne hpath => h.none_left hne hpath (hself q rest hne hpath)
    refine ⟨fun q hnot hnot' => ?_, fun q rest hne hpath => ?_⟩
    · rw [valueAt_addWrite_below newNode hle hself hnot', valueAt_addWrite_below newNode hle hother hnot',
        h.1 q hnot hnot']
    · have hnot : ¬path <+: q := by
        intro hbelow
        have hlen := hbelow.length_le
        rw [hpath, List.length_append] at hlen
        exact hne (List.length_eq_zero_iff.mp (by omega))
      rw [valueAt_addWrite_below newNode hle hself hnot, valueAt_addWrite_below newNode hle hother hnot]
      exact h.2 q rest hne hpath
  · have hsame : ∀ q, q <+: w → other.valueAt q = self.valueAt q := by
      intro q hq
      have hnot : ¬path <+: q := fun hbelow => hle (hbelow.trans hq)
      by_cases hqpath : q <+: path
      · obtain ⟨rest, hrest⟩ := hqpath
        have hne : rest ≠ [] := by
          rintro rfl
          exact hnot (by rw [← hrest, List.append_nil])
        rw [hnone q rest hne hrest.symm hq]
        exact h.none_left hne hrest.symm (hnone q rest hne hrest.symm hq)
      · exact (h.1 q hqpath hnot).symm
    rcases self.covered_or_free w with ⟨found, v, hpre, hv⟩ | hfree
    · have hv' : other.valueAt found = some v := by rw [hsame found hpre, hv]
      refine ⟨fun q hnot hnot' => ?_, fun q rest hne hpath => ?_⟩
      · rw [valueAt_addWrite_covered newNode hpre hv, valueAt_addWrite_covered newNode hpre hv', h.1 q hnot hnot']
      · have hq : q ≠ found := by
          rintro rfl
          rw [hnone q rest hne hpath hpre] at hv
          cases hv
        rw [valueAt_addWrite_covered newNode hpre hv, valueAt_addWrite_covered newNode hpre hv',
          if_neg hq, if_neg hq]
        exact h.2 q rest hne hpath
    · have hfree' : ∀ above, above <+: w → other.valueAt above = none := fun above habove => by
        rw [hsame above habove, hfree above habove]
      refine ⟨fun q hnot hnot' => ?_, fun q rest hne hpath => ?_⟩
      · rw [valueAt_addWrite_free newNode hfree, valueAt_addWrite_free newNode hfree', h.1 q hnot hnot']
      · rw [valueAt_addWrite_free newNode hfree, valueAt_addWrite_free newNode hfree']
        split_ifs
        · exact .some (hrefl rest newNode)
        · exact .none
        · exact h.2 q rest hne hpath

theorem AgreeOff.addWrites (h : AgreeOff R path self other) (hrefl : ∀ rest v, R rest v v)
    (writes : List (FPath K × FNode K V))
    (hstep : ∀ write ∈ writes, ∀ q rest v v', rest ≠ [] → path = q ++ rest → q <+: write.1 →
      R rest v v' → R rest (v.updateChild (FPath.relativePath q write.1) write.2)
        (v'.updateChild (FPath.relativePath q write.1) write.2)) :
    AgreeOff R path (self.addWrites writes) (other.addWrites writes) := by
  induction writes generalizing self other with
  | nil => exact h
  | cons write rest ih =>
      rw [List.forall_mem_cons] at hstep
      exact ih (h.addWrite hrefl write.1 write.2 hstep.1) hstep.2

/-- With no write above the path on one side there is none on the other. -/
theorem AgreeOff.none_above (h : AgreeOff R path self other)
    (habove : ¬∃ q rest v, rest ≠ [] ∧ path = q ++ rest ∧ self.valueAt q = some v) :
    (∀ q rest, rest ≠ [] → path = q ++ rest → self.valueAt q = none) ∧
      ∀ q rest, rest ≠ [] → path = q ++ rest → other.valueAt q = none := by
  have hself : ∀ q rest, rest ≠ [] → path = q ++ rest → self.valueAt q = none := by
    intro q rest hne hpath
    by_contra hsome
    obtain ⟨v, hv⟩ := Option.ne_none_iff_exists'.mp hsome
    exact habove ⟨q, rest, v, hne, hpath, hv⟩
  exact ⟨hself, fun q rest hne hpath => h.none_left hne hpath (hself q rest hne hpath)⟩

end Covered

end FCompoundWrite

end FirebaseSwift.Database
