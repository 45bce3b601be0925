import FirebaseSwift.Database.TransactionTree

/-! How the repo goes through the tree of the transaction queues. A traversal makes its handles as it
goes, and what its action does at one of them is copied up the chain that the handle holds. The trees of
all runs have a value of their own and for every key at most one value below it, so that every child of
the root is a line down to the place of its value. On such a tree a traversal keeps or takes away the
values that it visits, one after the other. -/

namespace FirebaseSwift.Database

open SortedDictionary

/-! ### Traversals -/

namespace FTree

variable {K α : Type}

def path (self : FTree K α) : FPath K := (self.parents.map Prod.fst).reverse

/-- The parent of a handle, as the handle holds it. -/
def parent (self : FTree K α) : FTree K α :=
  match self.parents with
  | [] => self
  | (_, node) :: rest => ⟨node, rest⟩

section Visits

variable {m : Type → Type} [Monad m]

mutual

/-- `forEachDescendant(_:includeSelf:childrenFirst:)` with the handle itself, which comes first. The
children are the ones at the start of the visit. -/
def visitWithSelf (action : FTree K α → m (FTree K α)) : FTreeNode K α → FTree K α → m (FTree K α)
  | .node children _ _, self => do
      let visited ← action self
      visitChildren action children visited

def visitChildren (action : FTree K α → m (FTree K α)) :
    List (K × FTreeNode K α) → FTree K α → m (FTree K α)
  | [], self => pure self
  | (name, child) :: rest, self => do
      let visited ← visitWithSelf action child ⟨child, (name, self.node) :: self.parents⟩
      visitChildren action rest visited.parent

end

/-- `forEachDescendant(_:)` -/
def forEachDescendant (self : FTree K α) (action : FTree K α → m (FTree K α)) : m (FTree K α) :=
  visitChildren action self.node.children self

/-- The action at the given number of parents, from the nearest one up. -/
def visitAncestors (action : FTree K α → m (FTree K α)) : Nat → FTree K α → m (FTree K α)
  | 0, self => pure self
  | count + 1, self =>
      match self.parents with
      | [] => pure self
      | (name, node) :: rest => do
          let visited ← action ⟨node, rest⟩
          let parent ← visitAncestors action count visited
          pure ⟨self.node, (name, parent.node) :: parent.parents⟩

/-- `forEachAncestor(_:)` with an action that never asks to stop. -/
def forEachAncestor (self : FTree K α) (action : FTree K α → m (FTree K α)) : m (FTree K α) :=
  visitAncestors action self.parents.length self

/-- The ancestors of the handle, the handle and its descendants. -/
def visitRelated (self : FTree K α) (action : FTree K α → m (FTree K α)) : m (FTree K α) := do
  let visited ← self.forEachAncestor action
  let visited ← action visited
  visited.forEachDescendant action

end Visits

end FTree

/-! ### Slots -/

/-- The value of the root, and for a key the place of the value below it and the value. -/
structure TreeSlots (K α : Type) where
  value : Option α
  slots : List (K × FPath K × α)

namespace FTreeNode

variable {K α : Type}

/-- The node with just one value, at the path. -/
def line : FPath K → α → FTreeNode K α
  | [], value => .node [] 0 (some value)
  | next :: rest, value => .node [(next, line rest value)] 1 none

/-- The child of the root for a slot. -/
def branch (slot : K × FPath K × α) : K × FTreeNode K α := (slot.1, line slot.2.1 slot.2.2)

end FTreeNode

namespace TreeSlots

variable {K α : Type}

def tree (self : TreeSlots K α) : FTreeNode K α :=
  .node (self.slots.map FTreeNode.branch) self.slots.length self.value

section Visits

variable {m : Type → Type} [Monad m]

/-- The slots whose values are kept, when they are visited one after the other. -/
def keepSlots (body : α → m Bool) : List (K × FPath K × α) → m (List (K × FPath K × α))
  | [] => pure []
  | slot :: rest => do
      let keep ← body slot.2.2
      let kept ← keepSlots body rest
      pure (if keep then slot :: kept else kept)

/-- The slots that are left when the values above, at and below the path are visited. -/
def visitRelated [LinearOrder K] (rootBody : Option α → m (Option α)) (body : α → m Bool)
    (self : TreeSlots K α) : FPath K → m (TreeSlots K α)
  | [] => do
      let value ← rootBody self.value
      let kept ← keepSlots body self.slots
      pure ⟨value, kept⟩
  | front :: rest =>
      match get front self.slots with
      | none => (fun value => { self with value := value }) <$> rootBody self.value
      | some (place, value) =>
          if rest <+: place then do
            let rootValue ← rootBody self.value
            let keep ← body value
            pure ⟨rootValue, if keep then self.slots else remove front self.slots⟩
          else if place <+: rest then do
            let keep ← body value
            let rootValue ← rootBody self.value
            pure ⟨rootValue, if keep then self.slots else remove front self.slots⟩
          else (fun value => { self with value := value }) <$> rootBody self.value

/-- The visit of the root, or of the slot of a key. -/
def visitSlot [LinearOrder K] (rootBody : Option α → m (Option α)) (body : α → m Bool)
    (self : TreeSlots K α) : Option K → m (TreeSlots K α)
  | none => (fun value => { self with value := value }) <$> rootBody self.value
  | some key =>
      match get key self.slots with
      | none => pure self
      | some (_, value) =>
          (fun keep : Bool => ⟨self.value, if keep then self.slots else remove key self.slots⟩) <$> body value

/-- What is visited above, at and below a path, in this order. -/
def visits [LinearOrder K] (self : TreeSlots K α) : FPath K → List (Option K)
  | [] => none :: self.slots.map fun slot => some slot.1
  | front :: rest =>
      match get front self.slots with
      | none => [none]
      | some (place, _) =>
          if rest <+: place then [none, some front]
          else if place <+: rest then [some front, none]
          else [none]

/-- The slots that are left when the values at and below the path are visited. -/
def visitBelow [LinearOrder K] (rootBody : Option α → m (Option α)) (body : α → m Bool)
    (self : TreeSlots K α) : FPath K → m (TreeSlots K α)
  | [] => do
      let value ← rootBody self.value
      let kept ← keepSlots body self.slots
      pure ⟨value, kept⟩
  | front :: rest =>
      match get front self.slots with
      | none => pure self
      | some (place, value) =>
          if rest <+: place then do
            let keep ← body value
            pure ⟨self.value, if keep then self.slots else remove front self.slots⟩
          else pure self

end Visits

end TreeSlots

namespace FTreeNode

variable {K α : Type}
variable (path : FPath K) (key : K)

theorem line_isEmpty (value : α) : (line path value).isEmpty = false := by
  cases path <;> simp [line, isEmpty, hasChildren]

theorem line_isSome_value (value : α) : (line path value).value = if path = [] then some value else none := by
  cases path <;> rfl

variable [LinearOrder K]

theorem get_branch (slots : List (K × FPath K × α)) :
    get key (slots.map branch) = (get key slots).map fun slot => line slot.1 slot.2 := by
  induction slots with
  | nil => rfl
  | cons slot rest ih =>
      obtain ⟨name, place, value⟩ := slot
      rw [List.map_cons, branch, get_cons, get_cons]
      split_ifs
      · rfl
      · exact ih

theorem remove_branch (slots : List (K × FPath K × α)) :
    remove key (slots.map branch) = (remove key slots).map branch := by
  rw [remove, remove, List.filter_map]
  rfl

theorem set_branch (place : FPath K) (value : α) (slots : List (K × FPath K × α)) :
    set (· < ·) key (line place value) (slots.map branch) =
      (set (· < ·) key (place, value) slots).map branch := by
  induction slots with
  | nil => rfl
  | cons slot rest ih =>
      obtain ⟨name, _⟩ := slot
      rw [List.map_cons, branch, SortedDictionary.set, SortedDictionary.set]
      split_ifs
      · rfl
      · rfl
      · rw [List.map_cons, ih]
        rfl

theorem nodeAt_empty : (FTreeNode.empty : FTreeNode K α).nodeAt path = .empty := by
  induction path with
  | nil => rfl
  | cons key path ih => exact ih

/-- The nodes on and below a line. -/
theorem nodeAt_line (place path : FPath K) (value : α) : (line place value).nodeAt path =
      if path <+: place then line (place.drop path.length) value else .empty := by
  induction path generalizing place with
  | nil => simp [nodeAt]
  | cons next rest ih =>
      cases place with
      | nil =>
          rw [if_neg (by simp)]
          exact nodeAt_empty rest
      | cons name place =>
          rw [nodeAt, childAt, line, children_node, get_cons]
          by_cases hname : name = next
          · subst hname
            rw [if_pos rfl, Option.getD_some, ih]
            simp [List.cons_prefix_cons]
          · rw [if_neg hname, if_neg (by simp [List.cons_prefix_cons, Ne.symm hname])]
            exact nodeAt_empty rest

end FTreeNode

theorem TreeSlots.childAt_tree {K α : Type} [LinearOrder K] (slots : TreeSlots K α) (key : K) :
    slots.tree.childAt key =
      ((get key slots.slots).map fun slot => FTreeNode.line slot.1 slot.2).getD .empty := by
  rw [FTreeNode.childAt, TreeSlots.tree, FTreeNode.children_node, FTreeNode.get_branch]

/-! ### Traversals of lines -/

namespace FTree

variable {K α : Type} [LinearOrder K]

/-- The nearest parent of the handle has the child that the handle is at. -/
def Held (self : FTree K α) : Prop :=
  ∀ name node rest, self.parents = (name, node) :: rest → (get name node.children).isSome = true

/-- What an action does: nothing where there is no value, at the root it gives the value a new one, and
elsewhere it keeps a good value or takes it away. -/
structure Visits {m : Type → Type} [Monad m] (action : FTree K α → m (FTree K α))
    (rootBody : Option α → m (Option α)) (body : α → m Bool) (good : α → Prop) : Prop where
  root (node : FTreeNode K α) :
    action (ofRoot node) = (fun value => ofRoot (node.setValue value)) <$> rootBody node.value
  pass (self : FTree K α) (hparents : self.parents ≠ []) (hvalue : self.node.value = none) :
    action self = pure self
  visit (self : FTree K α) (hparents : self.parents ≠ []) (hheld : self.Held) (value : α)
    (hvalue : self.node.value = some value) (hgood : good value) :
    action self = (fun keep => if keep then self else self.setValue none) <$> body value

theorem updateChild_line (next : K) (rest : FPath K) (value : α) :
    updateChild (FTreeNode.line (next :: rest) value) next .empty = some .empty := by
  have hget : get next (FTreeNode.line (next :: rest) value).children =
      some (FTreeNode.line rest value) := by
    simp [FTreeNode.line, get_cons]
  rw [updateChild_of_isEmpty rfl hget, FTreeNode.line]
  simp [FTreeNode.empty, SortedDictionary.remove]

variable (self : FTree K α) (slots : TreeSlots K α) {key : K} {slot : FPath K × α}

theorem subTree_append (path below : FPath K) :
    self.subTree (path ++ below) = (self.subTree path).subTree below := by
  induction path generalizing self with
  | nil => rfl
  | cons next rest ih => exact ih (self.child next)

theorem parents_subTree_ne_nil {self : FTree K α} (hparents : self.parents ≠ []) (path : FPath K) :
    (self.subTree path).parents ≠ [] := by
  induction path generalizing self with
  | nil => exact hparents
  | cons next rest ih => exact ih (by simp [FTree.child])

theorem root_subTree (path : FPath K) : (self.subTree path).root = self.root := by
  induction path generalizing self with
  | nil => rfl
  | cons next rest ih =>
      rw [subTree, ih]
      cases hparents : self.parents with
      | nil => simp [FTree.root, FTree.child, hparents]
      | cons parent rest =>
          have hlast := List.getLast?_eq_some_getLast (List.cons_ne_nil parent rest)
          simp [FTree.root, FTree.child, hparents, List.getLast?_cons_cons, hlast]

/-- What is taken away at the end of a line takes the line away at all its handles. -/
theorem updateParents_subTree_line (path place : FPath K) (value : α) (parents : List (K × FTreeNode K α)) :
    FTree.mk .empty (updateParents .empty
        ((FTree.mk (FTreeNode.line (path ++ place) value) parents).subTree path).parents) =
      (FTree.mk .empty (updateParents .empty parents)).subTree path := by
  induction path generalizing parents with
  | nil => rfl
  | cons next rest ih =>
      have hchild : (FTree.mk (FTreeNode.line (next :: rest ++ place) value) parents).child next =
          ⟨FTreeNode.line (rest ++ place) value,
            (next, FTreeNode.line (next :: rest ++ place) value) :: parents⟩ := by
        simp [FTree.child, FTreeNode.line, get_cons]
      rw [subTree, subTree, hchild, ih, updateParents,
        show next :: rest ++ place = next :: (rest ++ place) from rfl, updateChild_line]
      rfl

theorem Held.subTree {self : FTree K α} (h : self.Held) (path : FPath K)
    (hne : (self.node.nodeAt path).isEmpty = false) : (self.subTree path).Held := by
  induction path generalizing self with
  | nil => exact h
  | cons next rest ih =>
      refine ih ?_ hne
      rintro name node parents heq
      cases heq
      cases hget : get next self.node.children with
      | some child => rfl
      | none =>
          rw [FTreeNode.nodeAt, FTreeNode.childAt, hget, Option.getD_none, FTreeNode.nodeAt_empty] at hne
          cases hne

theorem value_nodeAt_line {place before : FPath K} (hne : before ≠ place) (value : α) :
    ((FTreeNode.line place value).nodeAt before).value = none := by
  rw [FTreeNode.nodeAt_line]
  split_ifs with hpre
  · obtain ⟨rest, rfl⟩ := hpre
    rw [List.drop_left, FTreeNode.line_isSome_value, if_neg]
    rintro rfl
    exact hne (List.append_nil _).symm
  · rfl

theorem length_parents_subTree (path : FPath K) :
    (self.subTree path).parents.length = self.parents.length + path.length := by
  induction path generalizing self with
  | nil => rfl
  | cons next rest ih =>
      rw [subTree, ih, List.length_cons]
      simp only [FTree.child, List.length_cons]
      omega

theorem updateChild_tree (hsorted : Sorted (· < ·) slots.slots) (hget : get key slots.slots = some slot) :
    updateChild slots.tree key .empty = some { slots with slots := remove key slots.slots : TreeSlots K α }.tree := by
  have hbranch : get key slots.tree.children = some (FTreeNode.line slot.1 slot.2) := by
    rw [TreeSlots.tree, FTreeNode.children_node, FTreeNode.get_branch, hget]
    rfl
  have hlength : (slots.slots.length : Int) - 1 = (remove key slots.slots).length := by
    rw [← hsorted.length_remove hget]
    simp
  rw [updateChild_of_isEmpty rfl hbranch, TreeSlots.tree, FTreeNode.children_node,
    FTreeNode.childCount_node, FTreeNode.value_node, FTreeNode.remove_branch, hlength]
  rfl

theorem held_branch (hget : get key slots.slots = some slot) (node : FTreeNode K α) :
    (FTree.mk node [(key, slots.tree)]).Held := by
  rintro name node rest heq
  cases heq
  rw [TreeSlots.tree, FTreeNode.children_node, FTreeNode.get_branch, hget]
  rfl

theorem remove_middle {done rest : List (K × FPath K × α)} (hsorted : Sorted (· < ·) (done ++ (key, slot) :: rest)) :
    remove key (done ++ (key, slot) :: rest) = done ++ rest := by
  obtain ⟨_, hrest, hdone⟩ := List.pairwise_append.mp hsorted
  rw [remove, List.filter_append, List.filter_cons_of_neg (by simp)]
  congr 1
  · refine List.filter_eq_self.mpr fun e he => ?_
    have hlt := hdone e he _ List.mem_cons_self
    simpa using ne_of_lt hlt
  · refine List.filter_eq_self.mpr fun e he => ?_
    have hlt := (List.pairwise_cons.mp hrest).1 e he
    simpa using (ne_of_lt hlt).symm

theorem visitAncestors_child {m : Type → Type} [Monad m] (action : FTree K α → m (FTree K α)) (self : FTree K α) (key : K)
    (count : Nat) : visitAncestors action (count + 1) (self.child key) =
      (do
        let visited ← action self
        let parent ← visitAncestors action count visited
        pure ⟨(self.child key).node, (key, parent.node) :: parent.parents⟩) := rfl

section Visits

variable {m : Type → Type} [Monad m] [LawfulMonad m] {action : FTree K α → m (FTree K α)}
  {rootBody : Option α → m (Option α)} {body : α → m Bool} {good : α → Prop}

/-- A visit of a line keeps it or takes it away. -/
theorem Visits.visit_line (h : Visits action rootBody body good) (place : FPath K) (value : α)
    (parents : List (K × FTreeNode K α)) (hparents : parents ≠ [])
    (hheld : (FTree.mk (FTreeNode.line place value) parents).Held) (hgood : good value) :
    visitWithSelf action (FTreeNode.line place value) ⟨FTreeNode.line place value, parents⟩ =
      (fun keep : Bool => if keep then FTree.mk (FTreeNode.line place value) parents
        else ⟨.empty, updateParents .empty parents⟩) <$> body value := by
  induction place generalizing parents with
  | nil =>
      rw [FTreeNode.line, visitWithSelf, h.visit ⟨.node [] 0 (some value), parents⟩ hparents hheld value rfl hgood]
      simp only [visitChildren, bind_pure]
      rfl
  | cons next rest ih =>
      have hnext : (FTree.mk (FTreeNode.line rest value)
          ((next, FTreeNode.line (next :: rest) value) :: parents)).Held := by
        rintro name node rest' heq
        cases heq
        simp [FTreeNode.line, get_cons]
      have hvisit := ih ((next, FTreeNode.line (next :: rest) value) :: parents) (by simp) hnext
      rw [show FTreeNode.line (next :: rest) value =
          FTreeNode.node [(next, FTreeNode.line rest value)] 1 none from rfl] at hvisit ⊢
      rw [visitWithSelf, h.pass _ hparents rfl, pure_bind, visitChildren]
      rw [hvisit, bind_map_left]
      simp only [visitChildren, bind_pure_comp]
      congr 1
      funext keep
      cases keep with
      | true => rfl
      | false =>
          have hline := updateChild_line next rest value
          rw [FTreeNode.line] at hline
          simp only [Bool.false_eq_true, if_false, updateParents, hline]
          rfl

/-- A visit of the children of the root goes through the slots. -/
theorem Visits.visit_slots (h : Visits action rootBody body good) (value : Option α)
    (done slots : List (K × FPath K × α)) (hsorted : Sorted (· < ·) (done ++ slots))
    (hgood : ∀ slot ∈ slots, good slot.2.2) :
    visitChildren action (slots.map FTreeNode.branch) (ofRoot (TreeSlots.mk value (done ++ slots)).tree) =
      (fun kept => ofRoot (TreeSlots.mk value (done ++ kept)).tree) <$> TreeSlots.keepSlots body slots := by
  induction slots generalizing done with
  | nil => simp only [List.map_nil, visitChildren, TreeSlots.keepSlots, map_pure]
  | cons slot rest ih =>
      obtain ⟨key, place, v⟩ := slot
      have hget : get key (done ++ (key, place, v) :: rest) = some (place, v) :=
        hsorted.get_of_mem (by simp)
      have hupdate := updateChild_tree ⟨value, done ++ (key, place, v) :: rest⟩ hsorted hget
      rw [remove_middle hsorted] at hupdate
      have hvisit := h.visit_line place v [(key, (TreeSlots.mk value _).tree)] (by simp)
        (held_branch ⟨value, done ++ (key, place, v) :: rest⟩ hget _) (hgood _ List.mem_cons_self)
      have hrest : Sorted (· < ·) (done ++ rest) :=
        List.Pairwise.sublist ((List.sublist_cons_self _ rest).append_left done) hsorted
      have hrestGood : ∀ slot ∈ rest, good slot.2.2 := fun slot hslot =>
        hgood slot (List.mem_cons_of_mem _ hslot)
      have hdone : done ++ (key, place, v) :: rest = (done ++ [(key, place, v)]) ++ rest := by simp
      rw [List.map_cons, FTreeNode.branch, visitChildren, TreeSlots.keepSlots]
      dsimp only [ofRoot]
      rw [hvisit, bind_map_left, map_bind]
      apply bind_congr
      intro keep
      cases keep with
      | true =>
          have hkept := ih (done ++ [(key, place, v)]) (hdone ▸ hsorted) hrestGood
          rw [← hdone] at hkept
          simp only [if_true, map_bind, map_pure]
          rw [bind_pure_comp]
          refine hkept.trans ?_
          congr 1
          funext kept
          rw [List.append_assoc]
          rfl
      | false =>
          simp only [Bool.false_eq_true, if_false, updateParents, hupdate, bind_pure]
          exact ih done hrest hrestGood

variable {slots : TreeSlots K α} {self : FTree K α}

/-- A visit of the whole tree. -/
theorem Visits.visit_tree (h : Visits action rootBody body good) (hsorted : Sorted (· < ·) slots.slots)
    (hgood : ∀ slot ∈ slots.slots, good slot.2.2) : visitWithSelf action slots.tree (ofRoot slots.tree) =
      (do
        let value ← rootBody slots.value
        let kept ← TreeSlots.keepSlots body slots.slots
        pure (ofRoot (TreeSlots.mk value kept).tree)) := by
  rw [TreeSlots.tree, visitWithSelf, h.root, bind_map_left]
  apply bind_congr
  intro value
  refine (h.visit_slots value [] slots.slots hsorted hgood).trans ?_
  rw [map_eq_pure_bind]
  rfl

/-! ### Visits along a path -/

/-- Where there is no value on the way, the ancestors are visited for the root alone. -/
theorem Visits.visit_ancestors_none (h : Visits action rootBody body good) {front : K}
    {node root : FTreeNode K α} {path : FPath K}
    (hnone : ∀ before, before <+: path → before ≠ path → (node.nodeAt before).value = none) :
    visitAncestors action (path.length + 1) ((FTree.mk node [(front, root)]).subTree path) =
      (fun value => (FTree.mk node [(front, root.setValue value)]).subTree path) <$>
        rootBody root.value := by
  induction path using List.reverseRecOn with
  | nil =>
      have hroot := h.root root
      rw [ofRoot] at hroot
      simp only [FTree.subTree, visitAncestors, List.length_nil, hroot, pure_bind, bind_map_left]
      rw [← bind_pure_comp]
      rfl
  | append_singleton before key ih =>
      have hbelow := ih fun q hq hne =>
        hnone q (hq.trans (List.prefix_append _ _)) fun heq => by
          have := hq.length_le
          rw [heq, List.length_append, List.length_singleton] at this
          omega
      have hpass : action ((FTree.mk node [(front, root)]).subTree before) =
          pure ((FTree.mk node [(front, root)]).subTree before) := by
        refine h.pass _ (parents_subTree_ne_nil (by simp) _) ?_
        rw [FTreeNode.node_subTree]
        exact hnone before (List.prefix_append _ _) (by simp)
      rw [List.length_append, List.length_singleton, subTree_append]
      change visitAncestors action (before.length + 1 + 1) (FTree.child _ key) = _
      rw [visitAncestors_child, hpass, pure_bind, hbelow, bind_map_left, ← bind_pure_comp]
      apply bind_congr
      intro value
      rw [subTree_append]
      simp only [FTree.subTree, FTree.child, FTreeNode.node_subTree]

/-- A value above the handle is visited before the root. -/
theorem Visits.visit_ancestors_line (h : Visits action rootBody body good) {front : K}
    {root root' : FTreeNode K α} {place path : FPath K} (hplace : place <+: path) (hne : place ≠ path)
    (value : α) (hgood : good value) (hget : (get front root.children).isSome = true)
    (hupdate : updateChild root front .empty = some root') : visitAncestors action (path.length + 1)
        ((FTree.mk (FTreeNode.line place value) [(front, root)]).subTree path) =
      (do
        let keep ← body value
        if keep then
          let rootValue ← rootBody root.value
          pure ((FTree.mk (FTreeNode.line place value) [(front, root.setValue rootValue)]).subTree path)
        else
          let rootValue ← rootBody root'.value
          pure ((FTree.mk .empty [(front, root'.setValue rootValue)]).subTree path)) := by
  induction path using List.reverseRecOn with
  | nil => exact absurd (List.prefix_nil.mp hplace) hne
  | append_singleton before key ih =>
      have hbefore : place <+: before := by
        rcases List.prefix_concat_iff.mp hplace with heq | hpre
        · exact absurd heq hne
        · exact hpre
      rw [List.length_append, List.length_singleton, subTree_append]
      change visitAncestors action (before.length + 1 + 1) (FTree.child _ key) = _
      rw [visitAncestors_child]
      by_cases hend : place = before
      · -- the value is at the nearest parent
        subst hend
        have htop : (FTree.mk (FTreeNode.line place value) [(front, root)]).Held := by
          rintro name node rest heq
          cases heq
          exact hget
        have hnode : ((FTree.mk (FTreeNode.line place value) [(front, root)]).subTree place).node =
            FTreeNode.line [] value := by
          rw [FTreeNode.node_subTree, FTreeNode.nodeAt_line, if_pos (List.prefix_refl _), List.drop_length]
        have hvisit := h.visit _ (parents_subTree_ne_nil (by simp) place)
          (htop.subTree place (by
            rw [FTreeNode.nodeAt_line, if_pos (List.prefix_refl _)]
            exact FTreeNode.line_isEmpty _ _)) value (by rw [hnode]; rfl) hgood
        have htaken : ((FTree.mk (FTreeNode.line place value) [(front, root)]).subTree place).setValue none =
            (FTree.mk .empty [(front, root')]).subTree place := by
          have hline := updateParents_subTree_line place [] value [(front, root)]
          rw [List.append_nil] at hline
          simp only [updateParents, hupdate] at hline
          rw [← hline, FTree.setValue, hnode]
          rfl
        rw [hvisit, bind_map_left]
        apply bind_congr
        intro keep
        cases keep with
        | true =>
            simp only [if_true]
            rw [h.visit_ancestors_none fun q _ hne' => value_nodeAt_line hne' value, bind_map_left]
            apply bind_congr
            intro rootValue
            rw [subTree_append]
            simp only [FTree.subTree, FTree.child, FTreeNode.node_subTree]
        | false =>
            simp only [Bool.false_eq_true, if_false]
            rw [htaken, h.visit_ancestors_none fun q _ _ => by rw [FTreeNode.nodeAt_empty]; rfl, bind_map_left]
            apply bind_congr
            intro rootValue
            rw [subTree_append]
            simp only [FTree.subTree, FTree.child, FTreeNode.node_subTree, FTreeNode.nodeAt_empty]
            rw [FTreeNode.nodeAt_line, if_pos (List.prefix_refl _), List.drop_length]
            rfl
      · have hnode : (FTreeNode.line place value).nodeAt before = .empty := by
          rw [FTreeNode.nodeAt_line, if_neg fun hpre => hend (hbefore.eq_of_length_le hpre.length_le)]
        have hpass : action ((FTree.mk (FTreeNode.line place value) [(front, root)]).subTree before) =
            pure ((FTree.mk (FTreeNode.line place value) [(front, root)]).subTree before) := by
          refine h.pass _ (parents_subTree_ne_nil (by simp) _) ?_
          rw [FTreeNode.node_subTree, hnode]
          rfl
        rw [hpass, pure_bind, ih hbefore hend, bind_assoc]
        apply bind_congr
        intro keep
        cases keep with
        | true =>
            simp only [if_true, bind_assoc, pure_bind]
            apply bind_congr
            intro rootValue
            rw [subTree_append]
            simp only [FTree.subTree, FTree.child, FTreeNode.node_subTree]
        | false =>
            simp only [Bool.false_eq_true, if_false, bind_assoc, pure_bind]
            apply bind_congr
            intro rootValue
            rw [subTree_append]
            simp only [FTree.subTree, FTree.child, FTreeNode.node_subTree, FTreeNode.nodeAt_empty, hnode]

/-- The action at a handle of a line and below is a visit of the line. -/
theorem Visits.visit_from (h : Visits action rootBody body good) {place : FPath K} {value : α}
    (hparents : self.parents ≠ []) (hheld : self.Held) (hnode : self.node = FTreeNode.line place value)
    (hgood : good value) : (action self >>= fun visited => visited.forEachDescendant action) =
      (fun keep : Bool => if keep then self else FTree.mk .empty (updateParents .empty self.parents)) <$>
        body value := by
  obtain ⟨node, parents⟩ := self
  obtain rfl : node = FTreeNode.line place value := hnode
  cases place with
  | nil =>
      rw [FTreeNode.line, h.visit ⟨.node [] 0 (some value), parents⟩ hparents hheld value rfl hgood,
        bind_map_left, ← bind_pure_comp]
      apply bind_congr
      intro keep
      cases keep with
      | true => rfl
      | false => rfl
  | cons next rest =>
      rw [← h.visit_line (next :: rest) value parents hparents hheld hgood]
      have hpass := h.pass ⟨FTreeNode.line (next :: rest) value, parents⟩ hparents rfl
      rw [hpass, pure_bind, FTree.forEachDescendant]
      simp only [FTreeNode.line, FTreeNode.children_node] at hpass ⊢
      rw [visitWithSelf, hpass, pure_bind]

theorem Visits.visit_from_empty (h : Visits action rootBody body good) (hparents : self.parents ≠ [])
    (hnode : self.node = .empty) :
    (action self >>= fun visited => visited.forEachDescendant action) = pure self := by
  rw [h.pass self hparents (by rw [hnode]; rfl), pure_bind, FTree.forEachDescendant, hnode]
  rfl

/-- The repo visits the values above, at and below a path slot by slot. -/
theorem Visits.visitRelated_tree (h : Visits action rootBody body good) (hsorted : Sorted (· < ·) slots.slots)
    (hgood : ∀ slot ∈ slots.slots, good slot.2.2) (path : FPath K) :
    FTree.root <$> ((ofRoot slots.tree).subTree path).visitRelated action =
      TreeSlots.tree <$> slots.visitRelated rootBody body path := by
  cases path with
  | nil =>
      have hvisit := h.visit_tree hsorted hgood
      rw [TreeSlots.tree, visitWithSelf] at hvisit
      rw [FTree.subTree, FTree.visitRelated, FTree.forEachAncestor]
      simp only [ofRoot, List.length_nil, visitAncestors, pure_bind]
      have hchildren : (action (ofRoot slots.tree) >>= fun visited => visited.forEachDescendant action) =
          action (ofRoot slots.tree) >>= visitChildren action (slots.slots.map FTreeNode.branch) := by
        rw [h.root, bind_map_left, bind_map_left]
        rfl
      rw [ofRoot] at hchildren
      rw [hchildren]
      refine (congrArg (FTree.root <$> ·) hvisit).trans ?_
      simp only [TreeSlots.visitRelated, map_bind, map_pure]
      rfl
  | cons front rest =>
      have hstart : (ofRoot slots.tree).subTree (front :: rest) =
          (FTree.mk (slots.tree.childAt front) [(front, slots.tree)]).subTree rest := rfl
      have hlength : ((FTree.mk (slots.tree.childAt front) [(front, slots.tree)]).subTree
          rest).parents.length = rest.length + 1 := by
        rw [length_parents_subTree, List.length_singleton, Nat.add_comm]
      have hchild : slots.tree.childAt front =
          ((get front slots.slots).map fun slot => FTreeNode.line slot.1 slot.2).getD .empty := by
        rw [FTreeNode.childAt, TreeSlots.tree, FTreeNode.children_node, FTreeNode.get_branch]
      have hroot : ∀ (node root : FTreeNode K α),
          ((FTree.mk node [(front, root)]).subTree rest).root = root := by
        intro node root
        rw [root_subTree]
        rfl
      have hne : ∀ (node root : FTreeNode K α),
          ((FTree.mk node [(front, root)]).subTree rest).parents ≠ [] := by
        intro node root
        exact parents_subTree_ne_nil (by simp) rest
      rw [hstart, FTree.visitRelated, FTree.forEachAncestor, hlength, hchild, TreeSlots.visitRelated]
      cases hget : get front slots.slots with
      | none =>
          rw [Option.map_none, Option.getD_none,
            h.visit_ancestors_none fun q _ _ => by rw [FTreeNode.nodeAt_empty]; rfl, bind_map_left, map_bind]
          simp only [Functor.map_map]
          rw [← bind_pure_comp]
          apply bind_congr
          intro value
          rw [h.visit_from_empty (hne _ _) (by rw [FTreeNode.node_subTree, FTreeNode.nodeAt_empty]),
            map_pure, hroot]
          rfl
      | some slot =>
          obtain ⟨place, value⟩ := slot
          rw [Option.map_some, Option.getD_some]
          dsimp only
          have hupdate : ∀ rootValue, updateChild (slots.tree.setValue rootValue) front .empty =
              some (TreeSlots.mk rootValue (remove front slots.slots)).tree := fun rootValue =>
            updateChild_tree ⟨rootValue, slots.slots⟩ hsorted hget
          have hheld : ∀ rootValue, (FTree.mk (FTreeNode.line place value)
              [(front, slots.tree.setValue rootValue)]).Held := fun rootValue =>
            held_branch ⟨rootValue, slots.slots⟩ hget _
          by_cases hbelow : rest <+: place
          · -- the root is visited before the value
            rw [if_pos hbelow, h.visit_ancestors_none fun q hq hqne => value_nodeAt_line (fun heq =>
              hqne (hq.eq_of_length_le (heq ▸ hbelow.length_le))) value, bind_map_left, map_bind, map_bind]
            apply bind_congr
            intro rootValue
            obtain ⟨below, rfl⟩ := hbelow
            have hnode : ((FTree.mk (FTreeNode.line (rest ++ below) value)
                [(front, slots.tree.setValue rootValue)]).subTree rest).node = FTreeNode.line below value := by
              rw [FTreeNode.node_subTree, FTreeNode.nodeAt_line, if_pos (List.prefix_append _ _), List.drop_left]
            rw [h.visit_from (hne _ _) ((hheld rootValue).subTree rest (by
              rw [FTreeNode.nodeAt_line, if_pos (List.prefix_append _ _)]
              exact FTreeNode.line_isEmpty _ _)) hnode (hgood _ (mem_of_get hget)), Functor.map_map, map_bind, ← bind_pure_comp]
            apply bind_congr
            intro keep
            cases keep with
            | true =>
                simp only [if_true, map_pure, hroot]
                rfl
            | false =>
                simp only [Bool.false_eq_true, if_false, map_pure]
                rw [updateParents_subTree_line, updateParents, hupdate, root_subTree]
                rfl
          · rw [if_neg hbelow]
            by_cases habove : place <+: rest
            · -- the value is visited before the root
              have hplace : place ≠ rest := fun heq => hbelow (heq ▸ List.prefix_refl _)
              have hbeyond : ∀ (node root : FTreeNode K α), node.nodeAt rest = .empty →
                  (action ((FTree.mk node [(front, root)]).subTree rest) >>=
                    fun visited => visited.forEachDescendant action) =
                  pure ((FTree.mk node [(front, root)]).subTree rest) := fun node root hempty =>
                h.visit_from_empty (hne _ _) (by rw [FTreeNode.node_subTree, hempty])
              have hline : (FTreeNode.line place value).nodeAt rest = .empty := by
                rw [FTreeNode.nodeAt_line, if_neg hbelow]
              have hchildren : (get front slots.tree.children).isSome = true :=
                hheld slots.value front _ [] rfl
              have htaken : updateChild slots.tree front .empty = _ := hupdate slots.value
              rw [if_pos habove, h.visit_ancestors_line habove hplace value (hgood _ (mem_of_get hget)) hchildren
                htaken, bind_assoc,
                map_bind, map_bind]
              apply bind_congr
              intro keep
              cases keep with
              | true =>
                  simp only [if_true, bind_assoc, pure_bind, hbeyond _ _ hline, map_bind, map_pure, hroot]
                  rfl
              | false =>
                  simp only [Bool.false_eq_true, if_false, bind_assoc, pure_bind,
                    hbeyond _ _ (FTreeNode.nodeAt_empty rest), map_bind, map_pure, hroot]
                  rfl
            · -- the value is beside the path
              have hnone : ∀ q, q <+: rest → ((FTreeNode.line place value).nodeAt q).value = none := by
                intro q hq
                refine value_nodeAt_line ?_ value
                rintro rfl
                exact habove hq
              rw [if_neg habove, h.visit_ancestors_none fun q hq _ => hnone q hq, bind_map_left, map_bind,
                Functor.map_map, ← bind_pure_comp]
              apply bind_congr
              intro rootValue
              rw [h.visit_from_empty (hne _ _) (by
                rw [FTreeNode.node_subTree, FTreeNode.nodeAt_line, if_neg hbelow]), map_pure, hroot]
              rfl

theorem root_subTree_branch (node root : FTreeNode K α) (front : K) (path : FPath K) :
    ((FTree.mk node [(front, root)]).subTree path).root = root := by
  rw [root_subTree]
  rfl

theorem Visits.visitBelow_tree (h : Visits action rootBody body good) (hsorted : Sorted (· < ·) slots.slots)
    (hgood : ∀ slot ∈ slots.slots, good slot.2.2) (path : FPath K) :
    FTree.root <$> visitWithSelf action ((ofRoot slots.tree).subTree path).node
        ((ofRoot slots.tree).subTree path) =
      TreeSlots.tree <$> slots.visitBelow rootBody body path := by
  cases path with
  | nil =>
      refine (congrArg (FTree.root <$> ·) (h.visit_tree hsorted hgood)).trans ?_
      simp only [TreeSlots.visitBelow, map_bind, map_pure]
      rfl
  | cons front rest =>
      have hstart : (ofRoot slots.tree).subTree (front :: rest) =
          (FTree.mk (slots.tree.childAt front) [(front, slots.tree)]).subTree rest := rfl
      have hne : ∀ node : FTreeNode K α,
          ((FTree.mk node [(front, slots.tree)]).subTree rest).parents ≠ [] := fun node =>
        parents_subTree_ne_nil (by simp) rest
      have hempty : ∀ node : FTreeNode K α, node.nodeAt rest = .empty →
          FTree.root <$> visitWithSelf action ((FTree.mk node [(front, slots.tree)]).subTree rest).node
            ((FTree.mk node [(front, slots.tree)]).subTree rest) = pure slots.tree := by
        intro node hnode
        have hpass := h.pass ((FTree.mk node [(front, slots.tree)]).subTree rest) (hne node)
          (by rw [FTreeNode.node_subTree, hnode]; rfl)
        rw [FTreeNode.node_subTree, hnode, FTreeNode.empty, visitWithSelf, hpass, pure_bind, visitChildren,
          map_pure, root_subTree_branch]
      rw [hstart, TreeSlots.childAt_tree, TreeSlots.visitBelow]
      cases hget : get front slots.slots with
      | none =>
          rw [Option.map_none, Option.getD_none, hempty _ (FTreeNode.nodeAt_empty rest), map_pure]
      | some slot =>
          obtain ⟨place, value⟩ := slot
          rw [Option.map_some, Option.getD_some]
          dsimp only
          by_cases hbelow : rest <+: place
          · rw [if_pos hbelow]
            obtain ⟨below, rfl⟩ := hbelow
            have hnode : ((FTree.mk (FTreeNode.line (rest ++ below) value)
                [(front, slots.tree)]).subTree rest).node = FTreeNode.line below value := by
              rw [FTreeNode.node_subTree, FTreeNode.nodeAt_line, if_pos (List.prefix_append _ _), List.drop_left]
            have hheld := (held_branch slots hget (FTreeNode.line (rest ++ below) value)).subTree rest (by
              rw [FTreeNode.nodeAt_line, if_pos (List.prefix_append _ _)]
              exact FTreeNode.line_isEmpty _ _)
            have hvisit := h.visit_line below value _ (hne _) (by rw [← hnode]; exact hheld)
              (hgood _ (mem_of_get hget))
            rw [← hnode] at hvisit
            rw [hvisit, Functor.map_map, map_bind, ← bind_pure_comp]
            apply bind_congr
            intro keep
            cases keep with
            | true =>
                simp only [if_true, map_pure]
                exact congrArg pure (root_subTree_branch _ _ _ _)
            | false =>
                simp only [Bool.false_eq_true, if_false, map_pure]
                rw [updateParents_subTree_line, updateParents, updateChild_tree slots hsorted hget, root_subTree]
                rfl
          · rw [if_neg hbelow, hempty _ (by rw [FTreeNode.nodeAt_line, if_neg hbelow]), map_pure]

end Visits

/-- All slots are visited one after the other. -/
theorem keepSlots_eq_foldlM {m : Type → Type} [Monad m] [LawfulMonad m]
    (rootBody : Option α → m (Option α)) (body : α → m Bool) (value : Option α)
    (done slots : List (K × FPath K × α)) (hsorted : Sorted (· < ·) (done ++ slots)) :
    (fun kept => TreeSlots.mk value (done ++ kept)) <$> TreeSlots.keepSlots body slots =
      (slots.map fun slot => some slot.1).foldlM (TreeSlots.visitSlot rootBody body)
        (TreeSlots.mk value (done ++ slots)) := by
  induction slots generalizing done with
  | nil => simp only [TreeSlots.keepSlots, map_pure, List.map_nil, List.foldlM_nil]
  | cons slot rest ih =>
      obtain ⟨key, place, v⟩ := slot
      have hget : get key (done ++ (key, place, v) :: rest) = some (place, v) :=
        hsorted.get_of_mem (by simp)
      have hdone : done ++ (key, place, v) :: rest = (done ++ [(key, place, v)]) ++ rest := by simp
      have hrest : Sorted (· < ·) (done ++ rest) :=
        List.Pairwise.sublist ((List.sublist_cons_self _ rest).append_left done) hsorted
      rw [TreeSlots.keepSlots, List.map_cons, List.foldlM_cons]
      simp only [TreeSlots.visitSlot, hget]
      rw [map_bind, bind_map_left]
      apply bind_congr
      intro keep
      cases keep with
      | true =>
          rw [if_pos rfl, hdone, ← ih (done ++ [(key, place, v)]) (hdone ▸ hsorted), map_bind]
          simp only [if_true, map_pure, bind_pure_comp, List.append_assoc, List.singleton_append]
      | false =>
          rw [if_neg Bool.false_ne_true, remove_middle hsorted, ← ih done hrest, map_bind]
          simp only [Bool.false_eq_true, if_false, map_pure, bind_pure_comp]

theorem visitRelated_eq_foldlM {m : Type → Type} [Monad m] [LawfulMonad m]
    (rootBody : Option α → m (Option α)) (body : α → m Bool) (slots : TreeSlots K α)
    (hsorted : Sorted (· < ·) slots.slots) (path : FPath K) : slots.visitRelated rootBody body path =
      (slots.visits path).foldlM (TreeSlots.visitSlot rootBody body) slots := by
  cases path with
  | nil =>
      rw [TreeSlots.visitRelated, TreeSlots.visits, List.foldlM_cons, TreeSlots.visitSlot, bind_map_left]
      apply bind_congr
      intro value
      refine Eq.trans ?_ (keepSlots_eq_foldlM rootBody body value [] slots.slots hsorted)
      rw [← bind_pure_comp]
      rfl
  | cons front rest =>
      rw [TreeSlots.visitRelated, TreeSlots.visits]
      cases hget : get front slots.slots with
      | none => simp only [List.foldlM_cons, List.foldlM_nil, bind_pure, TreeSlots.visitSlot]
      | some slot =>
          obtain ⟨place, value⟩ := slot
          dsimp only
          split_ifs
          · simp only [List.foldlM_cons, List.foldlM_nil, bind_pure, TreeSlots.visitSlot, bind_map_left,
              hget, bind_pure_comp]
          · simp only [List.foldlM_cons, List.foldlM_nil, bind_pure, TreeSlots.visitSlot, bind_map_left,
              hget, bind_pure_comp]
          · simp only [List.foldlM_cons, List.foldlM_nil, bind_pure, TreeSlots.visitSlot]

theorem setValue_setValue (self : FTree K α) (value : Option α) :
    (self.setValue value).setValue value = self.setValue value := by
  have hparents : ∀ (node : FTreeNode K α) (parents : List (K × FTreeNode K α)),
      updateParents node (updateParents node parents) = updateParents node parents := by
    intro node parents
    cases parents with
    | nil => rfl
    | cons parent rest =>
        obtain ⟨name, parent⟩ := parent
        rw [updateParents]
        cases hupdate : updateChild parent name node with
        | none =>
            dsimp only
            rw [updateParents, hupdate]
        | some newParent =>
            dsimp only
            rw [updateParents]
            rcases updateChild_eq_some hupdate with ⟨_, hempty, _, rfl⟩ | ⟨hne, _, rfl⟩
            · rw [updateChild_of_known (by simp [hempty, get_remove])]
            · rw [updateChild_of_known (by simp [hne, get_set])]
  rw [FTree.setValue, FTree.setValue]
  exact congrArg (FTree.mk _) (hparents _ _)

/-! ### Setting a value -/

/-- A value that is set below a new node makes a line. -/
theorem updateParents_subTree_empty (path place : FPath K) (value : α) (parents : List (K × FTreeNode K α)) :
    FTree.mk (FTreeNode.line place value) (updateParents (FTreeNode.line place value)
        ((FTree.mk .empty parents).subTree path).parents) =
      (FTree.mk (FTreeNode.line (path ++ place) value)
        (updateParents (FTreeNode.line (path ++ place) value) parents)).subTree path := by
  induction path generalizing parents with
  | nil => rfl
  | cons next rest ih =>
      have hupdate : updateChild (FTreeNode.empty : FTreeNode K α) next
          (FTreeNode.line (rest ++ place) value) = some (FTreeNode.line (next :: (rest ++ place)) value) := by
        rw [updateChild_of_new (FTreeNode.line_isEmpty _ _) rfl]
        rfl
      have hchild : (FTree.mk (FTreeNode.empty : FTreeNode K α) parents).child next =
          ⟨.empty, (next, .empty) :: parents⟩ := rfl
      rw [subTree, hchild, ih, updateParents, hupdate, subTree]
      simp [FTree.child, FTreeNode.line, get_cons]

end FTree

namespace TreeSlots

variable {K α : Type} [LinearOrder K]

theorem line_wellFormed (place : FPath K) (value : α) : (FTreeNode.line place value).WellFormed := by
  induction place with
  | nil => exact .intro [] (some value) (sorted_nil _) (by simp) (by simp)
  | cons next rest ih =>
      refine .intro [(next, FTreeNode.line rest value)] none (List.pairwise_singleton _ _) ?_ ?_
      · simpa using ih
      · simpa using FTreeNode.line_isEmpty rest value

variable {slots : TreeSlots K α}

theorem wellFormed_tree (hsorted : Sorted (· < ·) slots.slots) : slots.tree.WellFormed := by
  have hlength : (slots.slots.length : Int) = (slots.slots.map FTreeNode.branch).length := by
    rw [List.length_map]
  rw [tree, hlength]
  refine .intro _ _ (List.pairwise_map.mpr hsorted) (fun e he => ?_) fun e he => ?_
  · obtain ⟨slot, _, rfl⟩ := List.mem_map.mp he
    exact line_wellFormed _ _
  · obtain ⟨slot, _, rfl⟩ := List.mem_map.mp he
    exact FTreeNode.line_isEmpty _ _

/-- The value that is set is the one of the root, or makes a new slot, or gets lost. -/
theorem setValueAt_tree (hsorted : Sorted (· < ·) slots.slots) (path : FPath K) (value : α) :
    slots.tree.setValueAt path (some value) =
      match path with
      | [] => { slots with value := some value : TreeSlots K α }.tree
      | front :: rest =>
          if (get front slots.slots).isSome then slots.tree
          else { slots with slots := set (· < ·) front (rest, value) slots.slots : TreeSlots K α }.tree := by
  cases path with
  | nil => rfl
  | cons front rest =>
      have hchild := slots.childAt_tree front
      cases hget : get front slots.slots with
      | some slot =>
          rw [hget, Option.map_some, Option.getD_some] at hchild
          dsimp only
          rw [if_pos (by rw [hget]; rfl)]
          refine FTreeNode.setValueAt_known (wellFormed_tree hsorted) ?_ (by simp)
          rw [hchild]
          exact FTreeNode.line_isEmpty _ _
      | none =>
          rw [hget, Option.map_none, Option.getD_none] at hchild
          have hstart : (FTree.ofRoot slots.tree).subTree (front :: rest) =
              (FTree.mk .empty [(front, slots.tree)]).subTree rest := by
            rw [← hchild]
            rfl
          have hnew : FTree.updateChild slots.tree front (FTreeNode.line rest value) =
              some { slots with slots := set (· < ·) front (rest, value) slots.slots : TreeSlots K α }.tree := by
            have hbranch : get front slots.tree.children = none := by
              rw [tree, FTreeNode.children_node, FTreeNode.get_branch, hget]
              rfl
            rw [FTree.updateChild_of_new (FTreeNode.line_isEmpty _ _) hbranch, tree, FTreeNode.children_node,
              FTreeNode.childCount_node, FTreeNode.value_node, FTreeNode.set_branch, tree,
              length_set_of_none (· < ·) hget]
            simp
          have hline := FTree.updateParents_subTree_empty rest [] value [(front, slots.tree)]
          have hnode : ((FTree.mk (.empty : FTreeNode K α) [(front, slots.tree)]).subTree rest).node.setValue
              (some value) = FTreeNode.line [] value := by
            rw [FTreeNode.node_subTree, FTreeNode.nodeAt_empty]
            rfl
          dsimp only
          rw [if_neg (by rw [hget]; simp), FTreeNode.setValueAt, hstart, FTree.setValue, hnode, hline,
            FTree.root_subTree, List.append_nil, FTree.updateParents, hnew]
          rfl

end TreeSlots

end FirebaseSwift.Database
