import FirebaseSwift.Database.HashedLeaves
import FirebaseSwift.Database.HashedRanges

/-! What a compound hash covers. Before and after a node the builder has closed some ranges of leaves and has
written those that follow, with the keys on the way. -/

namespace FirebaseSwift.Database

open UnicodeStrings SortedDictionary NodeData

variable {K V : Type} [KeyText K] [UnicodeVersion] [HashedValue V] [DatabaseKey K]

/-- What is hashed of the leaves -/
def leafForms (leaves : List (FPath K × NodeData K V)) : List (FPath K × LeafForm) :=
  leaves.map (Prod.map id LeafForm.ofNode)

/-- The leaves of a node at the path -/
def placedAt (path : FPath K) (leaves : List (FPath K × NodeData K V)) : List (FPath K × NodeData K V) :=
  leaves.map fun leaf => (path ++ leaf.1, leaf.2)

section Places

omit [KeyText K] [UnicodeVersion] [HashedValue V] [DatabaseKey K]

theorem placedAt_nil (leaves : List (FPath K × NodeData K V)) : placedAt [] leaves = leaves := List.map_id _

theorem placedAt_below_cons (path : FPath K) (key : K) (leaves : List (FPath K × NodeData K V))
    (blocks : List (K × List (FPath K × NodeData K V))) : placedAt path (below ((key, leaves) :: blocks)) =
      placedAt (path ++ [key]) leaves ++ placedAt path (below blocks) := by
  unfold placedAt
  rw [below_cons, List.map_append, List.map_map]
  refine congrArg (· ++ _) (List.map_congr_left fun leaf _ => ?_)
  show (path ++ key :: leaf.1, leaf.2) = (path ++ [key] ++ leaf.1, leaf.2)
  rw [List.append_assoc, List.singleton_append]

theorem lastPath_placedAt (path : FPath K) {leaves : List (FPath K × NodeData K V)} (h : leaves ≠ []) :
    ∃ rest, lastPath (placedAt path leaves) = path ++ rest := by
  refine ⟨(leaves.getLast h).1, ?_⟩
  unfold lastPath placedAt
  rw [List.getLast?_map, List.getLast?_eq_some_getLast h]
  rfl

end Places

namespace FCompoundHashBuilder

/-! ### Enumeration -/

section Enumeration

variable (splitStrategy : FCompoundHashBuilder K → Bool) (base64EncodedSha1 : List Char → List Char)

/-- The block of `processNode` -/
def visitChild (builder : FCompoundHashBuilder K) (e : K × NodeData K V) : Option (FCompoundHashBuilder K) :=
  (processNode splitStrategy base64EncodedSha1 e.2 (builder.startChild e.1)).map endChild

theorem enumerateChildrenAndPriority_eq (priority : NodeData K V) (passedPriorityKey : Bool)
    (dict : List (K × NodeData K V)) (hkeys : ∀ e ∈ dict, e.1 ≠ DatabaseKey.priority)
    (builder : FCompoundHashBuilder K) : enumerateChildrenAndPriority splitStrategy base64EncodedSha1
        (fun builder => visitChild splitStrategy base64EncodedSha1 builder (DatabaseKey.priority, priority))
        passedPriorityKey dict builder =
      (if passedPriorityKey || endsBeforePriority dict then dict
        else set DatabaseKey.compareKey DatabaseKey.priority priority dict).foldlM
          (visitChild splitStrategy base64EncodedSha1) builder := by
  have hgt : ∀ key : K, compareKeys key DatabaseKey.priority = .gt ↔
      DatabaseKey.compareKey DatabaseKey.priority key := by
    intro key
    rw [← compareKeys_swap, Ordering.swap_eq_gt]
    unfold compareKeys
    split_ifs with hlt hgt
    · exact iff_of_true rfl hlt
    · exact iff_of_false nofun hlt
    · exact iff_of_false nofun hlt
  induction dict generalizing passedPriorityKey builder with
  | nil =>
      rw [enumerateChildrenAndPriority, if_pos (by rw [endsBeforePriority, List.all_nil, Bool.or_true])]
      rfl
  | cons e rest ih =>
      obtain ⟨key, child⟩ := e
      obtain ⟨hkey, hrest⟩ := List.forall_mem_cons.mp hkeys
      have hvisit : ∀ (passed : Bool) (builder : FCompoundHashBuilder K),
          ((processNode splitStrategy base64EncodedSha1 child (builder.startChild key)).bind fun builder =>
            enumerateChildrenAndPriority splitStrategy base64EncodedSha1
              (fun builder => visitChild splitStrategy base64EncodedSha1 builder (DatabaseKey.priority, priority))
              passed rest builder.endChild) =
            (visitChild splitStrategy base64EncodedSha1 builder (key, child)).bind fun builder =>
              (if passed || endsBeforePriority rest then rest
                else set DatabaseKey.compareKey DatabaseKey.priority priority rest).foldlM
                  (visitChild splitStrategy base64EncodedSha1) builder := by
        intro passed builder
        unfold visitChild
        rw [Option.bind_map]
        refine congrArg _ (funext fun builder => ?_)
        exact ih passed hrest builder.endChild
      rw [enumerateChildrenAndPriority]
      by_cases hplace : passedPriorityKey = false ∧ compareKeys key DatabaseKey.priority = .gt
      · have hends : endsBeforePriority ((key, child) :: rest) = false := by
          rw [endsBeforePriority, List.all_cons, hplace.2]
          rfl
        rw [if_pos hplace, hplace.1, hends, if_neg (by decide), SortedDictionary.set, if_neg hkey, if_pos ((hgt key).mp hplace.2),
          List.foldlM_cons]
        refine congrArg _ (funext fun builder => ?_)
        rw [List.foldlM_cons]
        exact hvisit true builder
      · have hends : (passedPriorityKey || endsBeforePriority ((key, child) :: rest)) =
            (passedPriorityKey || endsBeforePriority rest) := by
          cases hpassed : passedPriorityKey with
          | true => rfl
          | false =>
              have hkeyGt : compareKeys key DatabaseKey.priority ≠ .gt := fun hkeyGt => hplace ⟨hpassed, hkeyGt⟩
              rw [Bool.false_or, Bool.false_or, endsBeforePriority, List.all_cons,
                decide_eq_true hkeyGt, Bool.true_and, endsBeforePriority]
        rw [if_neg hplace, hends, Option.bind_eq_bind]
        refine (hvisit passedPriorityKey builder).trans ?_
        by_cases hrestEnds : (passedPriorityKey || endsBeforePriority rest) = true
        · rw [if_pos hrestEnds, if_pos hrestEnds]
          rfl
        · have hpassed : passedPriorityKey = false := by
            rw [Bool.or_eq_true, not_or, Bool.not_eq_true] at hrestEnds
            exact hrestEnds.1
          rw [if_neg hrestEnds, if_neg hrestEnds, SortedDictionary.set, if_neg hkey,
            if_neg fun hkeyGt => hplace ⟨hpassed, (hgt key).mpr hkeyGt⟩]
          rfl

theorem processNode_children {dict : List (K × NodeData K V)} {priority : NodeData K V}
    (hwf : (NodeData.children dict priority).wellFormed = true) (builder : FCompoundHashBuilder K) :
    processNode splitStrategy base64EncodedSha1 (.children dict priority) builder =
      (childrenAndPriority endsBeforePriority dict priority).foldlM
        (visitChild splitStrategy base64EncodedSha1) builder := by
  rw [processNode]
  exact enumerateChildrenAndPriority_eq splitStrategy base64EncodedSha1 priority priority.isEmpty dict
    (fun e he => ((wellFormed_children_iff.mp hwf).2.2.1 e he).1) builder

end Enumeration

/-! ### The state between leaves -/

section Positions

variable {keys : List K} {builder : FCompoundHashBuilder K} {path : FPath K}

omit [KeyText K] [UnicodeVersion] [DatabaseKey K]

structure IsAt (builder : FCompoundHashBuilder K) (path : FPath K) : Prop where
  depth : builder.currentPathDepth = path.length
  keys : builder.pathKeys.take builder.currentPathDepth = path

theorem IsAt.length_le (h : builder.IsAt path) : builder.currentPathDepth ≤ builder.pathKeys.length := by
  have hlength := congrArg List.length h.keys
  rw [List.length_take, ← h.depth] at hlength
  omega

theorem take_pushed {depth : Nat} (h : depth ≤ keys.length) (key : K) :
    (if depth = keys.length then keys ++ [key] else keys.set depth key).take (depth + 1) =
      keys.take depth ++ [key] := by
  split_ifs with hlength
  · subst hlength
    rw [List.take_length, List.take_of_length_le]
    rw [List.length_append, List.length_singleton]
  · have hlt : depth < keys.length := lt_of_le_of_ne h hlength
    rw [List.take_succ_eq_append_getElem (by rw [List.length_set]; exact hlt), List.getElem_set_self,
      List.take_set_of_le (Nat.le_refl depth)]

theorem endChild_eq (builder : FCompoundHashBuilder K) : builder.endChild = { builder with
      optHashValueBuilder := builder.optHashValueBuilder.map (· ++ [')'])
      currentPathDepth := builder.currentPathDepth - 1
      needsComma := true } := by
  unfold FCompoundHashBuilder.endChild isBuildingRange append
  cases builder.optHashValueBuilder <;> rfl

theorem endRange_eq (base64EncodedSha1 : List Char → List Char) {text : List Char} (h : builder.optHashValueBuilder = some text) :
    builder.endRange base64EncodedSha1 = { builder with
      currentPaths := builder.currentPaths ++ [builder.pathKeys.take builder.lastLeafDepth.toNat]
      currentHashes := builder.currentHashes ++
        [base64EncodedSha1 (text ++ List.replicate (builder.currentPathDepth + 1) ')')]
      optHashValueBuilder := none
      hashedStrings := builder.hashedStrings ++ [text ++ List.replicate (builder.currentPathDepth + 1) ')'] } := by
  have hclosed : text ++ List.replicate (builder.currentPathDepth + 1) ')' =
      text ++ List.replicate builder.currentPathDepth ')' ++ [')'] := by
    rw [List.replicate_succ', List.append_assoc]
  rw [hclosed]
  unfold FCompoundHashBuilder.endRange append currentPathWithDepth
  simp only [h, Option.map_some, Option.getD_some]

end Positions

section Steps

variable {builder : FCompoundHashBuilder K} {path : FPath K}

omit [DatabaseKey K]

theorem ensureRange_of_building {text : List Char} (h : builder.optHashValueBuilder = some text) :
    builder.ensureRange = builder := by
  rw [FCompoundHashBuilder.ensureRange, isBuildingRange, h, Option.isSome_some, if_pos rfl]

theorem ensureRange_of_closed (h : builder.optHashValueBuilder = none) (hat : builder.IsAt path) :
    builder.ensureRange = { builder with
      optHashValueBuilder := some ('(' :: openText path), needsComma := false } := by
  rw [FCompoundHashBuilder.ensureRange, isBuildingRange, h, Option.isSome_none, if_neg (by decide), hat.keys]
  rfl

/-- What is changed at the start of a child -/
theorem startChild_eq (builder : FCompoundHashBuilder K) (key : K) : builder.startChild key = { builder with
      optHashValueBuilder := builder.ensureRange.optHashValueBuilder.map fun text =>
        text ++ (if builder.ensureRange.needsComma then [','] else []) ++ keyText key
      pathKeys :=
        if builder.currentPathDepth = builder.pathKeys.length then builder.pathKeys ++ [key]
        else builder.pathKeys.set builder.currentPathDepth key
      currentPathDepth := builder.currentPathDepth + 1
      needsComma := false } := by
  have hensured : builder.ensureRange = { builder with
      optHashValueBuilder := builder.ensureRange.optHashValueBuilder
      needsComma := builder.ensureRange.needsComma } := by
    unfold FCompoundHashBuilder.ensureRange
    split_ifs <;> rfl
  unfold FCompoundHashBuilder.startChild append
  rw [hensured]
  cases builder.ensureRange.needsComma with
  | false =>
      simp only [if_neg (by decide : ¬false = true), List.append_nil]
  | true => simp only [if_pos, Option.map_map, Function.comp_def]

theorem processLeaf_eq_none (splitStrategy : FCompoundHashBuilder K → Bool)
    (base64EncodedSha1 : List Char → List Char) {leafNode : NodeData K V} (h : ¬(LeafForm.ofNode leafNode).Resolved) :
    processLeaf splitStrategy base64EncodedSha1 builder leafNode = none := by
  simp only [processLeaf, appendHashRepresentation_eq_none h, Option.map_none]

end Steps

section States

variable (splitStrategy : FCompoundHashBuilder K → Bool) (base64EncodedSha1 : List Char → List Char)

/-- The ranges that are closed -/
structure HasRanges (builder : FCompoundHashBuilder K) (ranges : List (List (FPath K × NodeData K V))) :
    Prop where
  currentPaths : builder.currentPaths = ranges.map lastPath
  hashedStrings : builder.hashedStrings = ranges.map fun range => rangeText (leafForms range)
  currentHashes : builder.currentHashes = builder.hashedStrings.map base64EncodedSha1
  nonempty : ∀ range ∈ ranges, range ≠ []

/-- The path is entered and nothing of its node is written. The leaves `opened` are in the range that is built. -/
def Entered (builder : FCompoundHashBuilder K) (leaves : List (FPath K × NodeData K V)) (path : FPath K) :
    Prop :=
  ∃ ranges opened, ranges.flatten ++ opened = leaves ∧ builder.HasRanges base64EncodedSha1 ranges ∧
    (ranges ≠ [] → ∃ builder, splitStrategy builder = true) ∧ builder.IsAt path ∧
      (opened = [] ∨ ¬path <+: lastPath opened) ∧ builder.ensureRange.needsComma = false ∧
        builder.ensureRange.optHashValueBuilder =
          some ('(' :: leavesText [] (leafForms opened) ++ moveText (lastPath opened) path)

/-- The node at the path is written. -/
def Written (builder : FCompoundHashBuilder K) (leaves : List (FPath K × NodeData K V)) (path : FPath K) :
    Prop :=
  ∃ ranges opened, ranges.flatten ++ opened = leaves ∧ builder.HasRanges base64EncodedSha1 ranges ∧
    (ranges ≠ [] → ∃ builder, splitStrategy builder = true) ∧ builder.IsAt path ∧ builder.needsComma = true ∧
      (opened = [] ∧ builder.optHashValueBuilder = none ∨
        opened ≠ [] ∧ builder.pathKeys.take builder.lastLeafDepth.toNat = lastPath opened ∧
          ∃ rest, lastPath opened = path ++ rest ∧ builder.optHashValueBuilder =
            some ('(' :: leavesText [] (leafForms opened) ++ List.replicate rest.length ')'))

variable {splitStrategy base64EncodedSha1} {builder : FCompoundHashBuilder K}
  {leaves : List (FPath K × NodeData K V)} {path : FPath K}

variable {ranges : List (List (FPath K × NodeData K V))} {opened : List (FPath K × NodeData K V)} {key : K}

/-- The builder in a child that is started with its text -/
theorem entered_startChild (hranges : builder.HasRanges base64EncodedSha1 ranges)
    (hsplit : ranges ≠ [] → ∃ builder, splitStrategy builder = true) (hat : builder.IsAt path)
    (hleft : opened = [] ∨ ¬path ++ [key] <+: lastPath opened)
    (htext : builder.ensureRange.optHashValueBuilder.map (fun text =>
        text ++ (if builder.ensureRange.needsComma then [','] else []) ++ keyText key) =
      some ('(' :: leavesText [] (leafForms opened) ++ moveText (lastPath opened) (path ++ [key]))) :
    Entered splitStrategy base64EncodedSha1 (builder.startChild key) (ranges.flatten ++ opened)
      (path ++ [key]) := by
  have hstarted := startChild_eq builder key
  rw [htext] at hstarted
  have hbuilding : (builder.startChild key).ensureRange = builder.startChild key := by
    have hsome : (builder.startChild key).optHashValueBuilder = some ('(' :: leavesText [] (leafForms opened) ++
        moveText (lastPath opened) (path ++ [key])) := by
      rw [hstarted]
    exact ensureRange_of_building hsome
  refine ⟨ranges, opened, rfl, ?_, hsplit, ?_, hleft, ?_, ?_⟩
  · rw [hstarted]
    exact ⟨hranges.1, hranges.2, hranges.3, hranges.4⟩
  · rw [hstarted]
    refine ⟨?_, ?_⟩
    · rw [List.length_append, List.length_singleton, hat.depth]
    · rw [take_pushed hat.length_le, hat.keys]
  · rw [hbuilding, hstarted]
  · rw [hbuilding, hstarted]

/-- The first child of a node -/
theorem Entered.startChild (h : Entered splitStrategy base64EncodedSha1 builder leaves path) (key : K) :
    Entered splitStrategy base64EncodedSha1 (builder.startChild key) leaves (path ++ [key]) := by
  obtain ⟨ranges, opened, rfl, hranges, hsplit, hat, hleft, hcomma, htext⟩ := h
  refine entered_startChild hranges hsplit hat ?_ ?_
  · exact hleft.imp_right fun habove hbelow => habove ((List.prefix_append path [key]).trans hbelow)
  · have hmove : moveText (lastPath opened) (path ++ [key]) = moveText (lastPath opened) path ++ keyText key :=
      moveText_concat (hleft.imp_left fun hnil => by rw [hnil]; rfl) key
    rw [htext, hcomma, Option.map_some, if_neg (by decide), List.append_nil, hmove, List.append_assoc]

/-- A child after another one -/
theorem Written.startChild (h : Written splitStrategy base64EncodedSha1 builder leaves path) {nextKey : K}
    {rest : FPath K} (hlast : lastPath leaves = path ++ key :: rest) (hne : key ≠ nextKey) :
    Entered splitStrategy base64EncodedSha1 (builder.startChild nextKey) leaves (path ++ [nextKey]) := by
  obtain ⟨ranges, opened, rfl, hranges, hsplit, hat, hcomma, hbuild⟩ := h
  rcases hbuild with ⟨rfl, hnone⟩ | ⟨hopened, hlastLeaf, below, hbelow, htext⟩
  · refine entered_startChild hranges hsplit hat (Or.inl rfl) ?_
    rw [ensureRange_of_closed hnone hat]
    show some ('(' :: openText path ++ [] ++ keyText nextKey) = some ('(' :: openText (path ++ [nextKey]))
    rw [List.append_nil, openText_concat, List.cons_append]
  · rw [lastPath_append hopened] at hlast
    obtain rfl : below = key :: rest := List.append_cancel_left (hbelow.symm.trans hlast)
    refine entered_startChild hranges hsplit hat (Or.inr ?_) ?_
    · rw [hlast]
      intro habove
      exact hne (List.cons_prefix_cons.mp ((List.prefix_append_right_inj path).mp habove)).1.symm
    · rw [ensureRange_of_building htext, htext, hcomma, Option.map_some, if_pos rfl, hlast,
        moveText_sibling path rest hne]
      simp only [List.append_assoc, List.length_cons, List.singleton_append]

theorem Written.endChild (h : Written splitStrategy base64EncodedSha1 builder leaves (path ++ [key])) :
    Written splitStrategy base64EncodedSha1 builder.endChild leaves path := by
  obtain ⟨ranges, opened, rfl, hranges, hsplit, hat, hcomma, hbuild⟩ := h
  have hleft : IsAt { builder with currentPathDepth := builder.currentPathDepth - 1 } path := by
    have hdepth := hat.depth
    rw [List.length_append, List.length_singleton] at hdepth
    refine ⟨?_, ?_⟩
    · show builder.currentPathDepth - 1 = path.length
      omega
    · show builder.pathKeys.take (builder.currentPathDepth - 1) = path
      have htake := congrArg (List.take (builder.currentPathDepth - 1)) hat.keys
      rw [List.take_take, Nat.min_eq_left (Nat.sub_le _ _)] at htake
      rw [htake, show builder.currentPathDepth - 1 = path.length by omega, List.take_left]
  have hended := endChild_eq builder
  rcases hbuild with ⟨rfl, hnone⟩ | ⟨hopened, hlastLeaf, below, hbelow, htext⟩
  · rw [hnone, Option.map_none] at hended
    rw [hended]
    exact ⟨ranges, [], rfl, ⟨hranges.1, hranges.2, hranges.3, hranges.4⟩, hsplit, ⟨hleft.1, hleft.2⟩, rfl,
      Or.inl ⟨rfl, rfl⟩⟩
  · rw [htext, Option.map_some, List.append_assoc, ← List.replicate_succ'] at hended
    rw [hended]
    refine ⟨ranges, opened, rfl, ⟨hranges.1, hranges.2, hranges.3, hranges.4⟩, hsplit, ⟨hleft.1, hleft.2⟩, rfl,
      Or.inr ⟨hopened, hlastLeaf, key :: below, ?_, rfl⟩⟩
    rw [hbelow, List.append_assoc, List.singleton_append]

/-! ### Leaves and ends of ranges -/

theorem HasRanges.endRange (h : builder.HasRanges base64EncodedSha1 ranges) (hopened : opened ≠ [])
    (hlast : builder.pathKeys.take builder.lastLeafDepth.toNat = lastPath opened) {rest : FPath K}
    (hrest : builder.currentPathDepth + rest.length = (lastPath opened).length)
    (htext : builder.optHashValueBuilder =
      some ('(' :: leavesText [] (leafForms opened) ++ List.replicate rest.length ')')) :
    (builder.endRange base64EncodedSha1).HasRanges base64EncodedSha1 (ranges ++ [opened]) := by
  have hstring : '(' :: leavesText [] (leafForms opened) ++ List.replicate rest.length ')' ++
      List.replicate (builder.currentPathDepth + 1) ')' = rangeText (leafForms opened) := by
    rw [rangeText, leafForms, lastPath_map, ← hrest, List.append_assoc, ← List.replicate_add]
    congr 2
    omega
  rw [endRange_eq _ htext, hstring, hlast]
  refine ⟨?_, ?_, ?_, ?_⟩
  · rw [List.map_append, ← h.currentPaths]
    rfl
  · rw [List.map_append, ← h.hashedStrings]
    rfl
  · rw [List.map_append, ← h.currentHashes]
    rfl
  · exact List.forall_mem_append.mpr ⟨h.nonempty, List.forall_mem_singleton.mpr hopened⟩

theorem processLeaf_spec (h : Entered splitStrategy base64EncodedSha1 builder leaves path)
    {leafNode : NodeData K V} (hresolved : (LeafForm.ofNode leafNode).Resolved) :
    ∃ builder', processLeaf splitStrategy base64EncodedSha1 builder leafNode = some builder' ∧
      Written splitStrategy base64EncodedSha1 builder' (leaves ++ [(path, leafNode)]) path := by
  obtain ⟨ranges, opened, rfl, hranges, hsplit, hat, hleft, hcomma, htext⟩ := h
  have hensured : builder.ensureRange = { builder with
      optHashValueBuilder := builder.ensureRange.optHashValueBuilder
      needsComma := builder.ensureRange.needsComma } := by
    unfold FCompoundHashBuilder.ensureRange
    split_ifs <;> rfl
  have hforms : '(' :: leavesText [] (leafForms opened) ++ moveText (lastPath opened) path ++
      (LeafForm.ofNode leafNode).text = '(' :: leavesText [] (leafForms (opened ++ [(path, leafNode)])) := by
    have hlastForms : ((leafForms opened).getLast?.map Prod.fst).getD [] = lastPath opened := by
      rw [← lastPath_map LeafForm.ofNode opened]
      rfl
    show _ = '(' :: leavesText [] (leafForms (opened ++ [(path, leafNode)]))
    have hleaves : leafForms (opened ++ [(path, leafNode)]) =
        leafForms opened ++ [(path, LeafForm.ofNode leafNode)] := List.map_append
    rw [hleaves, leavesText_concat, hlastForms, List.append_assoc, List.cons_append]
  let appended : FCompoundHashBuilder K := { builder with
    optHashValueBuilder := some ('(' :: leavesText [] (leafForms (opened ++ [(path, leafNode)])))
    needsComma := true
    lastLeafDepth := builder.currentPathDepth }
  have hprocess : processLeaf splitStrategy base64EncodedSha1 builder leafNode =
      some (if splitStrategy appended then appended.endRange base64EncodedSha1 else appended) := by
    unfold processLeaf
    rw [hensured]
    simp only [htext, Option.getD_some]
    rw [appendHashRepresentation_eq hresolved, hforms, Option.map_some]
  have hne : opened ++ [(path, leafNode)] ≠ [] := List.append_ne_nil_of_right_ne_nil _ (List.cons_ne_nil _ _)
  have happended : appended.HasRanges base64EncodedSha1 ranges := ⟨hranges.1, hranges.2, hranges.3, hranges.4⟩
  have hat' : appended.IsAt path := ⟨hat.1, hat.2⟩
  have hlast : appended.pathKeys.take appended.lastLeafDepth.toNat = lastPath (opened ++ [(path, leafNode)]) := by
    rw [lastPath_concat]
    exact hat.keys
  have htextEnd : appended.optHashValueBuilder =
      some ('(' :: leavesText [] (leafForms (opened ++ [(path, leafNode)])) ++
        List.replicate ([] : FPath K).length ')') := by
    rw [List.length_nil, List.replicate_zero, List.append_nil]
  refine ⟨_, hprocess, ?_⟩
  by_cases hends : splitStrategy appended = true
  · rw [if_pos hends]
    have hdepth : appended.currentPathDepth + ([] : FPath K).length =
        (lastPath (opened ++ [(path, leafNode)])).length := by
      rw [lastPath_concat, List.length_nil, Nat.add_zero]
      exact hat.depth
    have hended := happended.endRange hne hlast hdepth htextEnd
    refine ⟨ranges ++ [opened ++ [(path, leafNode)]], [], ?_, hended, fun _ => ⟨appended, hends⟩, ?_, ?_, Or.inl ⟨rfl, ?_⟩⟩
    · rw [List.flatten_append, List.flatten_singleton, List.append_nil, List.append_assoc]
    · rw [endRange_eq _ htextEnd]
      exact ⟨hat.1, hat.2⟩
    · rw [endRange_eq _ htextEnd]
    · rw [endRange_eq _ htextEnd]
  · rw [if_neg hends]
    refine ⟨ranges, opened ++ [(path, leafNode)], (List.append_assoc _ _ _).symm, happended, hsplit, hat', rfl,
      Or.inr ⟨hne, hlast, [], ?_, htextEnd⟩⟩
    rw [lastPath_concat, List.append_nil]

/-! ### Nodes -/

/-- The leaves are written at the path, or there is one without a text. -/
def Writes (splitStrategy : FCompoundHashBuilder K → Bool) (base64EncodedSha1 : List Char → List Char)
    (result : Option (FCompoundHashBuilder K)) (leaves more : List (FPath K × NodeData K V)) (path : FPath K) :
    Prop :=
  (∃ builder, result = some builder ∧ (∀ leaf ∈ more, (LeafForm.ofNode leaf.2).Resolved) ∧
      Written splitStrategy base64EncodedSha1 builder (leaves ++ more) path) ∨
    (∃ leaf ∈ more, ¬(LeafForm.ofNode leaf.2).Resolved) ∧ result = none

/-- The keys can be started: the node is entered, or the last child had none of them. -/
def Ready (splitStrategy : FCompoundHashBuilder K → Bool) (base64EncodedSha1 : List Char → List Char)
    (builder : FCompoundHashBuilder K) (leaves : List (FPath K × NodeData K V)) (path : FPath K)
    (keys : List K) : Prop :=
  Entered splitStrategy base64EncodedSha1 builder leaves path ∧ keys ≠ [] ∨
    Written splitStrategy base64EncodedSha1 builder leaves path ∧
      ∃ key rest, lastPath leaves = path ++ key :: rest ∧ key ∉ keys

theorem Ready.startChild {keys : List K}
    (h : Ready splitStrategy base64EncodedSha1 builder leaves path (key :: keys)) :
    Entered splitStrategy base64EncodedSha1 (builder.startChild key) leaves (path ++ [key]) := by
  rcases h with ⟨hentered, -⟩ | ⟨hwritten, lastKey, rest, hlast, hkey⟩
  · exact hentered.startChild key
  · exact hwritten.startChild hlast fun heq => hkey (heq ▸ List.mem_cons_self)

variable {entries : List (K × NodeData K V)}

theorem foldlM_visitChild (hsorted : Sorted DatabaseKey.compareKey entries)
    (hentries : ∀ e ∈ entries, e.2.leavesUnless endsBeforePriority ≠ [] ∧
      ∀ {builder leaves path}, Entered splitStrategy base64EncodedSha1 builder leaves path →
        Writes splitStrategy base64EncodedSha1 (processNode splitStrategy base64EncodedSha1 e.2 builder) leaves
          (placedAt path (e.2.leavesUnless endsBeforePriority)) path)
    (h : Ready splitStrategy base64EncodedSha1 builder leaves path (entries.map Prod.fst)) :
    Writes splitStrategy base64EncodedSha1
      (entries.foldlM (visitChild splitStrategy base64EncodedSha1) builder) leaves
      (placedAt path (below (entries.map (Prod.map id (leavesUnless endsBeforePriority))))) path := by
  induction entries generalizing builder leaves with
  | nil =>
      rcases h with ⟨-, hnil⟩ | ⟨hwritten, -⟩
      · exact absurd rfl hnil
      · exact Or.inl ⟨builder, rfl, List.forall_mem_nil _, (List.append_nil leaves).symm ▸ hwritten⟩
  | cons e entries ih =>
      obtain ⟨key, child⟩ := e
      obtain ⟨hhead, htail⟩ := List.pairwise_cons.mp hsorted
      obtain ⟨⟨hne, hchild⟩, hrest⟩ := List.forall_mem_cons.mp hentries
      rw [List.foldlM_cons, List.map_cons, Prod.map_apply, id_eq, placedAt_below_cons]
      rcases hchild h.startChild with ⟨written, hsome, hresolved, hwritten⟩ | ⟨⟨leaf, hleaf, hunresolved⟩, hnone⟩
      · have hvisit : visitChild splitStrategy base64EncodedSha1 builder (key, child) = some written.endChild := by
          rw [visitChild, hsome, Option.map_some]
        have hplaced : placedAt (path ++ [key]) (child.leavesUnless endsBeforePriority) ≠ [] :=
          fun hnil => hne (List.map_eq_nil_iff.mp hnil)
        obtain ⟨rest, hlast⟩ := lastPath_placedAt (path ++ [key]) hne
        have hready : Ready splitStrategy base64EncodedSha1 written.endChild
            (leaves ++ placedAt (path ++ [key]) (child.leavesUnless endsBeforePriority)) path
            (entries.map Prod.fst) := by
          refine Or.inr ⟨hwritten.endChild, key, rest, ?_, fun hmem => ?_⟩
          · rw [lastPath_append hplaced, hlast, List.append_assoc, List.singleton_append]
          · obtain ⟨e, he, heq⟩ := List.mem_map.mp hmem
            have hlt := hhead e he
            rw [heq] at hlt
            exact irrefl_of DatabaseKey.compareKey key hlt
        rw [hvisit]
        rcases ih htail hrest hready with ⟨last, hlastSome, hrestResolved, hall⟩ | ⟨⟨leaf, hleaf, hunresolved⟩, hnone⟩
        · exact Or.inl ⟨last, hlastSome, List.forall_mem_append.mpr ⟨hresolved, hrestResolved⟩,
            List.append_assoc leaves _ _ ▸ hall⟩
        · exact Or.inr ⟨⟨leaf, List.mem_append_right _ hleaf, hunresolved⟩, hnone⟩
      · have hvisit : visitChild splitStrategy base64EncodedSha1 builder (key, child) = none := by
          rw [visitChild, hnone, Option.map_none]
        rw [hvisit]
        exact Or.inr ⟨⟨leaf, List.mem_append_left _ hleaf, hunresolved⟩, rfl⟩

/-- A node writes the leaves that are visited. -/
theorem processNode_spec {node : NodeData K V} (hwf : node.wellFormed = true) (hne : node.isEmpty = false) :
    ∀ {builder leaves path}, Entered splitStrategy base64EncodedSha1 builder leaves path →
      Writes splitStrategy base64EncodedSha1 (processNode splitStrategy base64EncodedSha1 node builder) leaves
        (placedAt path (node.leavesUnless endsBeforePriority)) path := by
  induction node using children_induction with
  | hempty => cases hne
  | hleaf value priority =>
      intro builder leaves path hentered
      have hplaced : placedAt path (leavesUnless endsBeforePriority (.leaf value priority)) =
          [(path, .leaf value priority)] := by
        rw [leavesUnless, placedAt, List.map_singleton, List.append_nil]
      rw [processNode, hplaced]
      by_cases hresolved : (LeafForm.ofNode (NodeData.leaf value priority : NodeData K V)).Resolved
      · obtain ⟨written, hsome, hwritten⟩ := processLeaf_spec hentered hresolved
        exact Or.inl ⟨written, hsome, List.forall_mem_singleton.mpr hresolved, hwritten⟩
      · exact Or.inr ⟨⟨_, List.mem_singleton_self _, hresolved⟩, processLeaf_eq_none _ _ hresolved⟩
  | hchildren dict priority ih ihPriority =>
      intro builder leaves path hentered
      obtain ⟨hdict, hsorted, -, -⟩ := wellFormed_children_iff.mp hwf
      rw [processNode_children _ _ hwf, leavesUnless_children]
      refine foldlM_visitChild (sorted_childrenAndPriority hsorted) (fun e he => ?_) (Or.inl ⟨hentered, ?_⟩)
      · obtain ⟨hchild, hchildWf⟩ := wellFormed_of_mem hwf he
        refine ⟨leavesUnless_ne_nil _ hchildWf hchild, ?_⟩
        rcases mem_childrenAndPriority he with ⟨rfl, -⟩ | hmem
        · exact ihPriority hchildWf hchild
        · exact ih e hmem hchildWf hchild
      · exact fun hnil => childrenAndPriority_ne_nil hdict (List.map_eq_nil_iff.mp hnil)

end States

end FCompoundHashBuilder

end FirebaseSwift.Database
