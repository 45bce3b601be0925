import FirebaseSwift.Database.Node

/-! Nodes that differ at most at a path and below. Writing at the path should make such nodes equal,
but a node on the way forgets its leaf value when it gets a child, and its priority when it loses
its last one. `AgreeUpTo` describes nodes on which this plays no role: they have no priorities above
the path, and no leaf values either when the last write removes what is at the path. A write to a
priority never changes what lies above, so `AgreeUpToPriority` needs no such condition. -/

namespace FirebaseSwift.Database.FNode

variable {K V : Type} [DatabaseKey K]

/-- Equal but for the path. The last write to the path writes `lastNode`. -/
inductive AgreeUpTo (lastNode : FNode K V) : FPath K → FNode K V → FNode K V → Prop
  | same (path : FPath K) (node : FNode K V) : AgreeUpTo lastNode path node node
  | here (node node' : FNode K V) : AgreeUpTo lastNode [] node node'
  | child (front : K) (rest : FPath K) (node node' : FNode K V)
      (hfront : front ≠ DatabaseKey.priority) (hpriority : node.getPriority = empty)
      (hpriority' : node'.getPriority = empty)
      (hleaf : lastNode = empty → node.leafValue = none ∧ node'.leafValue = none)
      (hothers : ∀ key, key ≠ DatabaseKey.priority → key ≠ front →
        node.getImmediateChild key = node'.getImmediateChild key)
      (hchild : AgreeUpTo lastNode rest (node.getImmediateChild front) (node'.getImmediateChild front)) :
      AgreeUpTo lastNode (front :: rest) node node'

/-- The nodes above the path have no priority, and no leaf value if `lastNode` is empty. -/
def CleanAbove (lastNode : FNode K V) (path : FPath K) (node : FNode K V) : Prop :=
  ∀ above, above <+: path → above ≠ path →
    (node.getChild above).getPriority = empty ∧
      (lastNode = empty → (node.getChild above).leafValue = none)

/-- A write that sets no priority above the path. -/
def NoPriorityAbove (path : FPath K) (write : FPath K × FNode K V) : Prop :=
  write.2 = empty ∨
    ∀ above, above <+: path → above ≠ path → ¬above ++ [DatabaseKey.priority] <+: write.1

variable {lastNode node newNode node' : FNode K V} {front : K} {rest path above : FPath K}

theorem CleanAbove.child (hfront : front ≠ DatabaseKey.priority) (h : CleanAbove lastNode (front :: rest) node) :
    CleanAbove lastNode rest (node.getImmediateChild front) := by
  intro above hle hne
  have := h (front :: above) (List.cons_prefix_cons.mpr ⟨rfl, hle⟩) fun heq => hne (List.cons.inj heq).2
  rwa [getChild_cons hfront] at this

theorem NoPriorityAbove.child (h : NoPriorityAbove (front :: path) (front :: rest, newNode)) :
    NoPriorityAbove path (rest, newNode) := by
  rcases h with hempty | h
  · exact Or.inl hempty
  · refine Or.inr fun above hle hne hpre => ?_
    exact h (front :: above) (List.cons_prefix_cons.mpr ⟨rfl, hle⟩) (fun heq => hne (List.cons.inj heq).2)
      (List.cons_prefix_cons.mpr ⟨rfl, hpre⟩)

theorem leafValue_updateImmediateChild_eq_none (hfront : front ≠ DatabaseKey.priority)
    (hleaf : node.leafValue = none) (newChild : FNode K V) :
    (node.updateImmediateChild front newChild).leafValue = none := by
  rw [leafValue_updateImmediateChild hfront, hleaf]
  split_ifs <;> rfl

theorem getPriority_updateImmediateChild_eq_empty (hfront : front ≠ DatabaseKey.priority)
    (hpriority : node.getPriority = empty) (newChild : FNode K V) :
    (node.updateImmediateChild front newChild).getPriority = empty := by
  rw [getPriority_updateImmediateChild hfront, hpriority]
  split_ifs <;> rfl

/-- The same write on both sides keeps the agreement. -/
theorem AgreeUpTo.updateChild (h : AgreeUpTo lastNode path node node') (w : FPath K) (newNode : FNode K V)
    (hwrite : NoPriorityAbove path (w, newNode)) :
    AgreeUpTo lastNode path (node.updateChild w newNode) (node'.updateChild w newNode) := by
  induction h generalizing w with
  | same path node => exact .same path _
  | here node node' => exact .here _ _
  | child front rest node node' hfront hpriority hpriority' hleaf hothers hchild ih =>
      cases w with
      | nil =>
          rw [updateChild_nil, updateChild_nil]
          exact .same _ newNode
      | cons key w =>
          by_cases hkey : key = DatabaseKey.priority
          · -- only an empty priority is written here, so both sides stay as they are
            subst hkey
            have hempty : newNode = empty := by
              rcases hwrite with hempty | hnot
              · exact hempty
              · exact absurd (List.cons_prefix_cons.mpr ⟨rfl, List.nil_prefix⟩)
                  (hnot [] List.nil_prefix (by simp))
            have hwritten : ∀ {n : FNode K V}, n.getPriority = empty →
                n.updateChild (DatabaseKey.priority :: w) newNode = n := by
              intro n hn
              rw [updateChild_priority_cons, hn, ite_self, hempty, updateChild_empty_empty]
              refine eq_of_observations (leafValue_updatePriority _ _) ?_
                fun key hkey => getImmediateChild_updatePriority hkey _ _
              rw [getPriority_updatePriority, ite_self, hn]
            rw [hwritten hpriority, hwritten hpriority']
            exact .child front rest node node' hfront hpriority hpriority' hleaf hothers hchild
          · rw [updateChild_cons hkey, updateChild_cons hkey]
            refine .child front rest _ _ hfront
              (getPriority_updateImmediateChild_eq_empty hkey hpriority _)
              (getPriority_updateImmediateChild_eq_empty hkey hpriority' _)
              (fun hlast => ⟨leafValue_updateImmediateChild_eq_none hkey (hleaf hlast).1 _,
                leafValue_updateImmediateChild_eq_none hkey (hleaf hlast).2 _⟩)
              (fun key' hkey' hne => ?_) ?_
            · rw [getImmediateChild_updateImmediateChild hkey hkey',
                getImmediateChild_updateImmediateChild hkey hkey']
              split_ifs with heq
              · subst heq
                rw [hothers key' hkey' hne]
              · exact hothers key' hkey' hne
            · rw [getImmediateChild_updateImmediateChild hkey hfront,
                getImmediateChild_updateImmediateChild hkey hfront]
              split_ifs with heq
              · subst heq
                exact ih w hwrite.child
              · exact hchild

/-- Writing a node that is not empty leaves a node that is not empty. -/
theorem updateChild_ne_empty (hpath : DatabaseKey.priority ∉ path) (hne : newNode ≠ empty) (node : FNode K V) :
    node.updateChild path newNode ≠ empty := by
  induction path generalizing node with
  | nil =>
      rw [updateChild_nil]
      exact hne
  | cons front rest ih =>
      have hfront : front ≠ DatabaseKey.priority := fun heq => hpath (heq ▸ List.mem_cons_self)
      rw [updateChild_cons hfront]
      intro hempty
      have hchild := congrArg (fun n => n.getImmediateChild front) hempty
      simp only [getImmediateChild_updateImmediateChild hfront hfront, if_pos, getImmediateChild_empty] at hchild
      exact ih (fun hmem => hpath (List.mem_cons_of_mem _ hmem)) _ hchild

/-- Equal but for the priority at the end of the path. -/
inductive AgreeUpToPriority : FPath K → FNode K V → FNode K V → Prop
  | same (path : FPath K) (node : FNode K V) : AgreeUpToPriority path node node
  | here (node node' : FNode K V) (hleaf : node.leafValue = node'.leafValue)
      (hchildren : ∀ key, key ≠ DatabaseKey.priority →
        node.getImmediateChild key = node'.getImmediateChild key) :
      AgreeUpToPriority [DatabaseKey.priority] node node'
  | child (front : K) (rest : FPath K) (node node' : FNode K V)
      (hfront : front ≠ DatabaseKey.priority) (hleaf : node.leafValue = node'.leafValue)
      (hpriority : node.getPriority = node'.getPriority)
      (hothers : ∀ key, key ≠ DatabaseKey.priority → key ≠ front →
        node.getImmediateChild key = node'.getImmediateChild key)
      (hchild : AgreeUpToPriority rest (node.getImmediateChild front)
        (node'.getImmediateChild front)) :
      AgreeUpToPriority (front :: rest) node node'

theorem isEmpty_congr (hleaf : node.leafValue = node'.leafValue) (hchildren : ∀ key, key ≠ DatabaseKey.priority →
      ((node.getImmediateChild key).isEmpty = true ↔ (node'.getImmediateChild key).isEmpty = true)) :
    node.isEmpty = node'.isEmpty := by
  have hiff : node = empty ↔ node' = empty := by
    constructor
    · rintro rfl
      refine eq_empty_of_observations hleaf.symm fun key hkey => ?_
      exact isEmpty_iff.mp ((hchildren key hkey).mp (by simp))
    · rintro rfl
      refine eq_empty_of_observations hleaf fun key hkey => ?_
      exact isEmpty_iff.mp ((hchildren key hkey).mpr (by simp))
  rw [Bool.eq_iff_iff, isEmpty_iff, isEmpty_iff, hiff]

theorem AgreeUpToPriority.isEmpty_eq (h : AgreeUpToPriority path node node') : node.isEmpty = node'.isEmpty := by
  induction h with
  | same path node => rfl
  | here node node' hleaf hchildren =>
      exact isEmpty_congr hleaf fun key hkey => by rw [hchildren key hkey]
  | child front rest node node' hfront hleaf hpriority hothers hchild ih =>
      refine isEmpty_congr hleaf fun key hkey => ?_
      by_cases hkf : key = front
      · rw [hkf, ih]
      · rw [hothers key hkey hkf]

/-- Replacing the child at one key keeps the agreement when the children agree in being empty. -/
theorem AgreeUpToPriority.updateImmediateChild (hfront : front ≠ DatabaseKey.priority)
    (hleaf : node.leafValue = node'.leafValue) (hpriority : node.getPriority = node'.getPriority)
    (hothers : ∀ key, key ≠ DatabaseKey.priority → key ≠ front →
      node.getImmediateChild key = node'.getImmediateChild key)
    (hchild : AgreeUpToPriority rest (node.getImmediateChild front) (node'.getImmediateChild front)) {key : K}
    (hkey : key ≠ DatabaseKey.priority) {newChild newChild' : FNode K V}
    (hne : key ≠ front → newChild = newChild') (hnew : key = front → AgreeUpToPriority rest newChild newChild') :
    AgreeUpToPriority (front :: rest) (node.updateImmediateChild key newChild)
      (node'.updateImmediateChild key newChild') := by
  have hempty : newChild.isEmpty = newChild'.isEmpty := by
    by_cases hkf : key = front
    · exact (hnew hkf).isEmpty_eq
    · rw [hne hkf]
  have hleaf' : (node.updateImmediateChild key newChild).leafValue =
      (node'.updateImmediateChild key newChild').leafValue := by
    rw [leafValue_updateImmediateChild hkey, leafValue_updateImmediateChild hkey, hempty, hleaf]
  have hothers' : ∀ key', key' ≠ DatabaseKey.priority → key' ≠ front →
      (node.updateImmediateChild key newChild).getImmediateChild key' =
        (node'.updateImmediateChild key newChild').getImmediateChild key' := by
    intro key' hkey' hkf
    rw [getImmediateChild_updateImmediateChild hkey hkey', getImmediateChild_updateImmediateChild hkey hkey']
    split_ifs with heq
    · exact hne (heq ▸ hkf)
    · exact hothers key' hkey' hkf
  have hchild' : AgreeUpToPriority rest
      ((node.updateImmediateChild key newChild).getImmediateChild front)
        ((node'.updateImmediateChild key newChild').getImmediateChild front) := by
    rw [getImmediateChild_updateImmediateChild hkey hfront, getImmediateChild_updateImmediateChild hkey hfront]
    split_ifs with heq
    · exact hnew heq.symm
    · exact hchild
  refine .child front rest _ _ hfront hleaf' ?_ hothers' hchild'
  have hsame : (node.updateImmediateChild key newChild).isEmpty =
      (node'.updateImmediateChild key newChild').isEmpty := by
    refine isEmpty_congr hleaf' fun key' hkey' => ?_
    by_cases hkf : key' = front
    · rw [hkf, hchild'.isEmpty_eq]
    · rw [hothers' key' hkey' hkf]
  rw [getPriority_updateImmediateChild hkey, getPriority_updateImmediateChild hkey, hsame, hpriority]

/-- The same write on both sides keeps the agreement. -/
theorem AgreeUpToPriority.updateChild (h : AgreeUpToPriority path node node') (w : FPath K) (newNode : FNode K V) :
    AgreeUpToPriority path (node.updateChild w newNode) (node'.updateChild w newNode) := by
  induction h generalizing w with
  | same path node => exact .same path _
  | here node node' hleaf hchildren =>
      cases w with
      | nil =>
          rw [updateChild_nil, updateChild_nil]
          exact .same _ newNode
      | cons key w =>
          by_cases hkey : key = DatabaseKey.priority
          · subst hkey
            rw [updateChild_priority_cons, updateChild_priority_cons]
            refine .here _ _ ?_ fun key hkey => ?_
            · rw [leafValue_updatePriority, leafValue_updatePriority, hleaf]
            · rw [getImmediateChild_updatePriority hkey, getImmediateChild_updatePriority hkey, hchildren key hkey]
          · rw [updateChild_cons hkey, updateChild_cons hkey, hchildren key hkey]
            refine .here _ _ ?_ fun key' hkey' => ?_
            · rw [leafValue_updateImmediateChild hkey, leafValue_updateImmediateChild hkey, hleaf]
            · rw [getImmediateChild_updateImmediateChild hkey hkey',
                getImmediateChild_updateImmediateChild hkey hkey', hchildren key' hkey']
  | child front rest node node' hfront hleaf hpriority hothers hchild ih =>
      have hsame : node.isEmpty = node'.isEmpty :=
        (AgreeUpToPriority.child front rest node node' hfront hleaf hpriority hothers hchild).isEmpty_eq
      cases w with
      | nil =>
          rw [updateChild_nil, updateChild_nil]
          exact .same _ newNode
      | cons key w =>
          by_cases hkey : key = DatabaseKey.priority
          · subst hkey
            rw [updateChild_priority_cons, updateChild_priority_cons, hleaf, hpriority]
            refine .child front rest _ _ hfront ?_ ?_ (fun key hkey hkf => ?_) ?_
            · rw [leafValue_updatePriority, leafValue_updatePriority, hleaf]
            · rw [getPriority_updatePriority, getPriority_updatePriority, hsame]
            · rw [getImmediateChild_updatePriority hkey, getImmediateChild_updatePriority hkey,
                hothers key hkey hkf]
            · rw [getImmediateChild_updatePriority hfront, getImmediateChild_updatePriority hfront]
              exact hchild
          · rw [updateChild_cons hkey, updateChild_cons hkey]
            refine AgreeUpToPriority.updateImmediateChild hfront hleaf hpriority hothers hchild hkey
              (fun hkf => by rw [hothers key hkey hkf]) (fun heq => ?_)
            subst heq
            exact ih w

theorem AgreeUpToPriority.fields (hfront : front ≠ DatabaseKey.priority)
    (h : AgreeUpToPriority (front :: rest) node node') :
    node.leafValue = node'.leafValue ∧ node.getPriority = node'.getPriority ∧
      (∀ key, key ≠ DatabaseKey.priority → key ≠ front →
        node.getImmediateChild key = node'.getImmediateChild key) ∧
      AgreeUpToPriority rest (node.getImmediateChild front) (node'.getImmediateChild front) := by
  cases h with
  | same => exact ⟨rfl, rfl, fun _ _ _ => rfl, .same _ _⟩
  | here => exact absurd rfl hfront
  | child _ _ _ _ _ hleaf hpriority hothers hchild => exact ⟨hleaf, hpriority, hothers, hchild⟩

end FirebaseSwift.Database.FNode
