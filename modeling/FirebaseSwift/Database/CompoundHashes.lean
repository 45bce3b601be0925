import FirebaseSwift.Database.CompoundHashCoverage

/-! Which compound hashes cover their node. A hash covers its node when the hashed strings are the texts of
ranges of leaves that together are the leaves of the node. The priority of a children node is among them only
if a child comes after it. -/

namespace FirebaseSwift.Database

open UnicodeStrings NodeData FCompoundHashBuilder

namespace FCompoundHash

section Coverage

variable {K V : Type} [KeyText K] [UnicodeVersion] [HashedValue V] [DatabaseKey K]

section Posts

omit [KeyText K] [UnicodeVersion] [HashedValue V]

/-- Ascending paths stay ascending when only the last ones of ranges are kept. -/
theorem lastPaths_pairwise {ranges : List (List (FPath K × NodeData K V))} (hne : ∀ range ∈ ranges, range ≠ [])
    (h : ranges.flatten.Pairwise fun leaf leaf' => FPath.compare leaf.1 leaf'.1 = .lt) :
    (ranges.map lastPath).Pairwise fun post post' => FPath.compare post post' = .lt := by
  have hmem : ∀ range ∈ ranges, ∃ leaf ∈ range, leaf.1 = lastPath range := by
    intro range hrange
    refine ⟨range.getLast (hne range hrange), List.getLast_mem _, ?_⟩
    rw [lastPath, List.getLast?_eq_some_getLast (hne range hrange)]
    rfl
  rw [List.pairwise_flatten] at h
  rw [List.pairwise_map]
  refine (List.pairwise_iff_forall_sublist.mpr ?_)
  intro range range' hsub
  obtain ⟨leaf, hleaf, hpath⟩ := hmem range (hsub.subset List.mem_cons_self)
  obtain ⟨leaf', hleaf', hpath'⟩ := hmem range' (hsub.subset (List.mem_cons_of_mem _ List.mem_cons_self))
  rw [← hpath, ← hpath']
  exact List.pairwise_iff_forall_sublist.mp h.2 hsub leaf hleaf leaf' hleaf'

end Posts

def hashedStrings (node : FNode K V) (splitStrategy : FCompoundHashBuilder K → Bool)
    (base64EncodedSha1 : List Char → List Char) : Option (List (List Char)) :=
  (builtFromNode node splitStrategy base64EncodedSha1).map FCompoundHashBuilder.hashedStrings

/-- The ranges hold the leaves of the node in order and each is hashed, with its last path as a post. -/
structure CoversWith (node : FNode K V) (splitStrategy : FCompoundHashBuilder K → Bool)
    (base64EncodedSha1 : List Char → List Char) (ranges : List (List (FPath K × NodeData K V)))
    (hash : FCompoundHash K) : Prop where
  fromNode : fromNode node splitStrategy base64EncodedSha1 = some hash
  leaves : ranges.flatten = node.data.leavesInOrder
  nonempty : ∀ range ∈ ranges, range ≠ []
  resolved : ∀ leaf ∈ ranges.flatten, (LeafForm.ofNode leaf.2).Resolved
  strings : hashedStrings node splitStrategy base64EncodedSha1 =
    some (ranges.map fun range => rangeText (leafForms range))
  hashes : hash.hashes = (ranges.map fun range => base64EncodedSha1 (rangeText (leafForms range))) ++ [[]]
  posts : hash.posts = ranges.map lastPath
  ascending : hash.posts.Pairwise fun post post' => FPath.compare post post' = .lt
  length : hash.hashes.length = hash.posts.length + 1

def Covers (node : FNode K V) (splitStrategy : FCompoundHashBuilder K → Bool)
    (base64EncodedSha1 : List Char → List Char) : Prop :=
  ∃ ranges hash, CoversWith node splitStrategy base64EncodedSha1 ranges hash

/-- All leaves have a text, and no priority of a children node is left out. -/
def Hashable (node : FNode K V) : Prop :=
  node.data.prioritiesFollowed = true ∧ ∀ leaf ∈ node.data.leavesInOrder, (LeafForm.ofNode leaf.2).Resolved

/-- The backslashes and quotes in the keys and the strings are characters of their own. -/
def EscapedLiterally (node : FNode K V) : Prop :=
  ∀ leaf ∈ node.data.leavesInOrder,
    (∀ key ∈ leaf.1, FSnapshotUtilities.EscapesLiterally (KeyText.text key)) ∧
      (LeafForm.ofNode leaf.2).All fun v =>
        ∀ string, v = .string string → FSnapshotUtilities.EscapesLiterally string

variable {node node' : FNode K V} {splitStrategy splitStrategy' : FCompoundHashBuilder K → Bool}
  {base64EncodedSha1 : List Char → List Char}

/-- The builder at the end has closed ranges with the leaves that were visited. -/
theorem builtFromNode_spec (splitStrategy : FCompoundHashBuilder K → Bool)
    (base64EncodedSha1 : List Char → List Char) (hnode : node.isEmpty = false) :
    (∃ builder ranges, builtFromNode node splitStrategy base64EncodedSha1 = some builder ∧
      ranges.flatten = node.data.leavesUnless endsBeforePriority ∧ (∀ range ∈ ranges, range ≠ []) ∧
        builder.currentPaths = ranges.map lastPath ∧
          builder.hashedStrings = (ranges.map fun range => rangeText (leafForms range)) ∧
            builder.currentHashes = builder.hashedStrings.map base64EncodedSha1 ++ [[]] ∧
              (∀ leaf ∈ node.data.leavesUnless endsBeforePriority, (LeafForm.ofNode leaf.2).Resolved) ∧
                ((∀ builder, splitStrategy builder = false) →
                  ranges = [node.data.leavesUnless endsBeforePriority])) ∨
      (∃ leaf ∈ node.data.leavesUnless endsBeforePriority, ¬(LeafForm.ofNode leaf.2).Resolved) ∧
        builtFromNode node splitStrategy base64EncodedSha1 = none := by
  have hentered : Entered splitStrategy base64EncodedSha1 ({} : FCompoundHashBuilder K)
      ([] : List (FPath K × NodeData K V)) [] :=
    ⟨[], [], rfl, ⟨rfl, rfl, rfl, List.forall_mem_nil _⟩, fun h => absurd rfl h, ⟨rfl, rfl⟩, Or.inl rfl, rfl, rfl⟩
  have hspec := processNode_spec node.wellFormed hnode hentered
  rw [placedAt_nil] at hspec
  have hleaves := leavesUnless_ne_nil endsBeforePriority node.wellFormed hnode
  rcases hspec with ⟨builder, hsome, hresolved, ranges, opened, hflatten, hranges, hsplit, hat, -, hbuild⟩ |
    ⟨hunresolved, hnone⟩
  · rw [List.nil_append] at hflatten
    refine Or.inl ?_
    have hnever : (∀ builder, splitStrategy builder = false) → ranges = [] := by
      intro hnever
      by_contra hne
      obtain ⟨builder, hsplits⟩ := hsplit hne
      rw [hnever builder] at hsplits
      cases hsplits
    have hbuilt : builtFromNode node splitStrategy base64EncodedSha1 =
        some (builder.finishHashing base64EncodedSha1) := by
      rw [builtFromNode, hsome, Option.map_some]
    rcases hbuild with ⟨rfl, hclosed⟩ | ⟨hopened, hlast, rest, hrest, htext⟩
    · rw [List.append_nil] at hflatten
      have hfinished : builder.finishHashing base64EncodedSha1 =
          { builder with currentHashes := builder.currentHashes ++ [[]] } := by
        have hsame : (if builder.isBuildingRange then builder.endRange base64EncodedSha1 else builder) = builder := by
          rw [isBuildingRange, hclosed, Option.isSome_none, if_neg (by decide)]
        unfold finishHashing
        rw [hsame]
      refine ⟨_, ranges, hbuilt, hflatten, hranges.nonempty, ?_⟩
      rw [hfinished]
      refine ⟨hranges.currentPaths, hranges.hashedStrings, congrArg (· ++ [[]]) hranges.currentHashes,
        hresolved, fun h => absurd ?_ hleaves⟩
      rw [← hflatten, hnever h, List.flatten_nil]
    · have hfinished : builder.finishHashing base64EncodedSha1 =
          { builder.endRange base64EncodedSha1 with
            currentHashes := (builder.endRange base64EncodedSha1).currentHashes ++ [[]] } := by
        have hsame : (if builder.isBuildingRange then builder.endRange base64EncodedSha1 else builder) =
            builder.endRange base64EncodedSha1 := by
          rw [isBuildingRange, htext, Option.isSome_some, if_pos rfl]
        unfold finishHashing
        rw [hsame]
      have hdepth : builder.currentPathDepth + rest.length = (lastPath opened).length := by
        rw [hrest, hat.depth, List.length_nil, Nat.zero_add, List.nil_append]
      have hended := hranges.endRange hopened hlast hdepth htext
      refine ⟨_, ranges ++ [opened], hbuilt, ?_, hended.nonempty, ?_⟩
      · rw [List.flatten_append, List.flatten_singleton, hflatten]
      · rw [hfinished]
        refine ⟨hended.currentPaths, hended.hashedStrings, congrArg (· ++ [[]]) hended.currentHashes,
          hresolved, fun h => ?_⟩
        rw [hnever h, List.flatten_nil, List.nil_append] at hflatten
        rw [hnever h, hflatten]
        rfl
  · refine Or.inr ⟨hunresolved, ?_⟩
    rw [builtFromNode, hnone, Option.map_none]

theorem covers_of_hashable (hnode : node.isEmpty = false) (h : Hashable node) :
    Covers node splitStrategy base64EncodedSha1 := by
  have hvisited := leavesUnless_of_followed h.1
  rcases builtFromNode_spec splitStrategy base64EncodedSha1 hnode with
    ⟨builder, ranges, hbuilt, hflatten, hne, hpaths, hstrings, hhashes, -⟩ | ⟨⟨leaf, hleaf, hunresolved⟩, -⟩
  · rw [hvisited] at hflatten
    have hlength : builder.currentHashes.length = builder.currentPaths.length + 1 := by
      rw [hhashes, hstrings, hpaths, List.length_append, List.length_map, List.length_map, List.length_map,
        List.length_singleton]
    refine ⟨ranges, ⟨builder.currentPaths, builder.currentHashes⟩, ?_, hflatten, hne, hflatten ▸ h.2, ?_, ?_, hpaths, ?_, hlength⟩
    · rw [fromNode, hnode, if_neg (by decide), hbuilt, Option.bind_eq_bind, Option.bind_some, if_pos hlength.symm]
    · rw [hashedStrings, hbuilt, Option.map_some, hstrings]
    · rw [hhashes, hstrings, List.map_map]
      rfl
    · show builder.currentPaths.Pairwise _
      rw [hpaths]
      refine lastPaths_pairwise hne ?_
      rw [hflatten]
      exact leavesUnless_pairwise _ node.wellFormed
  · rw [hvisited] at hleaf
    exact absurd (h.2 leaf hleaf) hunresolved

theorem All.readable {form : LeafForm} (hresolved : form.Resolved)
    (hliteral : form.All fun v => ∀ string, v = .string string → FSnapshotUtilities.EscapesLiterally string) :
    form.All ValueForm.Readable := by
  induction form with
  | notLeaf => trivial
  | value v => exact ⟨hresolved, hliteral⟩
  | withPriority priority v ih => exact ⟨ih hresolved.1 hliteral.1, hresolved.2, hliteral.2⟩

/-- What is hashed of a leaf that is escaped literally can be read. -/
theorem readableLeaf_of_mem (hliteral : EscapedLiterally node) {skips : List (K × NodeData K V) → Bool}
    {leaf : FPath K × NodeData K V} (h : leaf ∈ node.data.leavesUnless skips)
    (hresolved : (LeafForm.ofNode leaf.2).Resolved) : ReadableLeaf (Prod.map id LeafForm.ofNode leaf) := by
  obtain ⟨hkeys, hstrings⟩ := hliteral leaf (mem_leavesInOrder node.wellFormed h)
  refine ⟨hkeys, ?_, All.readable hresolved hstrings⟩
  obtain ⟨value, priority, hleaf⟩ := exists_leaf_of_mem node.wellFormed h
  show LeafForm.ofNode leaf.2 ≠ .notLeaf
  rw [hleaf, LeafForm.ofNode]
  split_ifs <;> exact nofun

/-- The forms of the leaves in ranges can be read from their texts. -/
theorem leafForms_flatten_eq {ranges ranges' : List (List (FPath K × NodeData K V))}
    {skips skips' : List (K × NodeData K V) → Bool}
    (hliteral : EscapedLiterally node) (hliteral' : EscapedLiterally node')
    (hflatten : ranges.flatten = node.data.leavesUnless skips)
    (hflatten' : ranges'.flatten = node'.data.leavesUnless skips')
    (hresolved : ∀ leaf ∈ ranges.flatten, (LeafForm.ofNode leaf.2).Resolved)
    (hresolved' : ∀ leaf ∈ ranges'.flatten, (LeafForm.ofNode leaf.2).Resolved)
    (htexts : (ranges.map fun range => rangeText (leafForms range)) =
      ranges'.map fun range => rangeText (leafForms range)) :
    leafForms (node.data.leavesUnless skips) = leafForms (node'.data.leavesUnless skips') := by
  have hforms : ∀ ranges : List (List (FPath K × NodeData K V)),
      (ranges.map leafForms).flatten = leafForms ranges.flatten := fun ranges => List.map_flatten.symm
  have hreadable : ∀ {node : FNode K V} {ranges : List (List (FPath K × NodeData K V))}
      {skips : List (K × NodeData K V) → Bool}, EscapedLiterally node →
        ranges.flatten = node.data.leavesUnless skips →
          (∀ leaf ∈ ranges.flatten, (LeafForm.ofNode leaf.2).Resolved) →
            ∀ leaf ∈ (ranges.map leafForms).flatten, ReadableLeaf leaf := by
    intro node ranges skips hliteral hflatten hresolved leaf hleaf
    rw [hforms] at hleaf
    obtain ⟨inner, hinner, rfl⟩ := List.mem_map.mp hleaf
    exact readableLeaf_of_mem hliteral (hflatten ▸ hinner) (hresolved inner hinner)
  have hranges : ranges.map leafForms = ranges'.map leafForms := by
    refine ranges_inj (hreadable hliteral hflatten hresolved) (hreadable hliteral' hflatten' hresolved') ?_
    rw [List.map_map, List.map_map]
    exact htexts
  rw [← hflatten, ← hflatten', ← hforms, ← hforms, hranges]

theorem hashable_of_covers (hnode : node.isEmpty = false) (hliteral : EscapedLiterally node)
    (h : Covers node splitStrategy base64EncodedSha1) : Hashable node := by
  obtain ⟨ranges, hash, hcovers⟩ := h
  have hstrings := hcovers.strings
  rcases builtFromNode_spec splitStrategy base64EncodedSha1 hnode with
    ⟨builder, visited, hbuilt, hflatten, -, -, htexts, -, hresolved, -⟩ | ⟨-, hnone⟩
  · rw [hashedStrings, hbuilt, Option.map_some, htexts, Option.some_inj] at hstrings
    have hforms := leafForms_flatten_eq hliteral hliteral hflatten hcovers.leaves (hflatten ▸ hresolved)
      hcovers.resolved hstrings
    have hlength := congrArg List.length hforms
    rw [leafForms, leafForms, List.length_map, List.length_map] at hlength
    refine ⟨?_, hcovers.leaves ▸ hcovers.resolved⟩
    by_contra hnot
    exact absurd hlength ((length_leavesUnless node.wellFormed).2 (Bool.not_eq_true _ ▸ hnot)).ne
  · rw [hashedStrings, hnone] at hstrings
    cases hstrings

/-- With one range the text is the one of the leaves. -/
theorem hashedStrings_of_never (hnode : node.isEmpty = false) (h : Hashable node) :
    hashedStrings node (fun _ => false) base64EncodedSha1 =
      some [rangeText (leafForms node.data.leavesInOrder)] := by
  have hvisited := leavesUnless_of_followed h.1
  rcases builtFromNode_spec (fun _ => false) base64EncodedSha1 hnode with
    ⟨builder, ranges, hbuilt, -, -, -, hstrings, -, -, hnever⟩ | ⟨⟨leaf, hleaf, hunresolved⟩, -⟩
  · rw [hashedStrings, hbuilt, Option.map_some, hstrings, hnever fun _ => rfl, hvisited]
    rfl
  · rw [hvisited] at hleaf
    exact absurd (h.2 leaf hleaf) hunresolved

/-- Compound hashes cover their nodes with all split strategies, and different leaves feed different strings, if
and only if the nodes are hashable and their leaves differ in what is hashed of them. -/
theorem covers_iff (base64EncodedSha1 : List Char → List Char) (hnode : node.isEmpty = false)
    (hnode' : node'.isEmpty = false) (hliteral : EscapedLiterally node) (hliteral' : EscapedLiterally node') :
    (∀ splitStrategy splitStrategy', Covers node splitStrategy base64EncodedSha1 ∧
      Covers node' splitStrategy' base64EncodedSha1 ∧
        (node.data.leavesInOrder ≠ node'.data.leavesInOrder →
          hashedStrings node splitStrategy base64EncodedSha1 ≠
            hashedStrings node' splitStrategy' base64EncodedSha1)) ↔
      Hashable node ∧ Hashable node' ∧
        (leafForms node.data.leavesInOrder = leafForms node'.data.leavesInOrder →
          node.data.leavesInOrder = node'.data.leavesInOrder) := by
  constructor
  · intro h
    obtain ⟨hcovers, hcovers', hdiffer⟩ := h (fun _ => false) fun _ => false
    have hhashable := hashable_of_covers hnode hliteral hcovers
    have hhashable' := hashable_of_covers hnode' hliteral' hcovers'
    refine ⟨hhashable, hhashable', fun hforms => ?_⟩
    by_contra hleaves
    refine hdiffer hleaves ?_
    rw [hashedStrings_of_never hnode hhashable, hashedStrings_of_never hnode' hhashable', hforms]
  · rintro ⟨hhashable, hhashable', hforms⟩ splitStrategy splitStrategy'
    have hcovers : Covers node splitStrategy base64EncodedSha1 := covers_of_hashable hnode hhashable
    have hcovers' : Covers node' splitStrategy' base64EncodedSha1 := covers_of_hashable hnode' hhashable'
    refine ⟨hcovers, hcovers', fun hleaves hstrings => hleaves (hforms ?_)⟩
    obtain ⟨ranges, hash, hranges⟩ := hcovers
    obtain ⟨ranges', hash', hranges'⟩ := hcovers'
    rw [hranges.strings, hranges'.strings, Option.some_inj] at hstrings
    exact leafForms_flatten_eq hliteral hliteral' hranges.leaves hranges'.leaves hranges.resolved
      hranges'.resolved hstrings

end Coverage

/-! ### Two examples -/

def one : NodeData String ValueForm := .leaf (.number 0x3FF0000000000000) .empty

/-- A priority before a child -/
def followed (value : Bool) : FNode String ValueForm :=
  ⟨.children [("a", .leaf (.boolean value) .empty)] one, by cases value <;> decide⟩

/-- A pushed child before the priority -/
def pushed : FNode String ValueForm := ⟨.children [("-K", .leaf (.boolean true) .empty)] one, by decide⟩

theorem escapedLiterally_of_ascii [UnicodeVersion] {node : FNode String ValueForm}
    (hkeys : ∀ leaf ∈ node.data.leavesInOrder, ∀ key ∈ leaf.1,
      (key.toList.all fun c => decide (IsAscii c ∧ c ≠ '\r')) = true) (hvalues : ∀ leaf ∈ node.data.leavesInOrder,
      ∃ v, LeafForm.ofNode leaf.2 = .value v ∧ ∀ string, v ≠ .string string) : EscapedLiterally node := by
  intro leaf hleaf
  refine ⟨fun key hkey => FSnapshotUtilities.escapesLiterally_of_isAscii fun c hc => ?_, ?_⟩
  · exact of_decide_eq_true (List.all_eq_true.mp (hkeys leaf hleaf key hkey) c hc)
  obtain ⟨v, hform, hstring⟩ := hvalues leaf hleaf
  rw [hform]
  exact fun string hv => absurd hv (hstring string)

theorem leaves_followed (value : Bool) : (followed value).data.leavesInOrder =
    [([".priority"], one), (["a"], .leaf (.boolean value) .empty)] := rfl

theorem leaves_pushed : pushed.data.leavesInOrder =
    [(["-K"], .leaf (.boolean true) .empty), ([".priority"], one)] := rfl

theorem escapedLiterally_followed [UnicodeVersion] (value : Bool) : EscapedLiterally (followed value) := by
  refine escapedLiterally_of_ascii ?_ ?_
  · rw [leaves_followed]
    cases value <;> decide
  · rw [leaves_followed, List.forall_mem_cons, List.forall_mem_singleton]
    exact ⟨⟨_, rfl, nofun⟩, ⟨_, rfl, nofun⟩⟩

theorem escapedLiterally_pushed [UnicodeVersion] : EscapedLiterally pushed := by
  refine escapedLiterally_of_ascii ?_ ?_
  · rw [leaves_pushed]
    decide
  · rw [leaves_pushed, List.forall_mem_cons, List.forall_mem_singleton]
    exact ⟨⟨_, rfl, nofun⟩, ⟨_, rfl, nofun⟩⟩

theorem hashable_followed (value : Bool) : Hashable (followed value) := by
  refine ⟨by cases value <;> decide, ?_⟩
  rw [leaves_followed, List.forall_mem_cons, List.forall_mem_singleton]
  exact ⟨nofun, nofun⟩

/-- The leaf and the priority of two nodes are covered, and the nodes feed different strings. -/
theorem covers_followed :
    let _ := marksOnly
    ∀ splitStrategy splitStrategy', Covers (followed true) splitStrategy id ∧
      Covers (followed false) splitStrategy' id ∧
        ((followed true).data.leavesInOrder ≠ (followed false).data.leavesInOrder →
          hashedStrings (followed true) splitStrategy id ≠ hashedStrings (followed false) splitStrategy' id) := by
  intro _
  refine (covers_iff id rfl rfl (escapedLiterally_followed true) (escapedLiterally_followed false)).mpr
    ⟨hashable_followed true, hashable_followed false, fun hforms => ?_⟩
  rw [leaves_followed, leaves_followed] at hforms
  cases hforms

/-- The priority after a pushed child is in no hashed string. -/
theorem not_covers_pushed :
    let _ := marksOnly
    ¬∀ (node : FNode String ValueForm) splitStrategy base64EncodedSha1, node.isEmpty = false →
      Covers node splitStrategy base64EncodedSha1 := by
  intro _ hall
  have hhashable := hashable_of_covers rfl escapedLiterally_pushed (hall pushed (fun _ => false) id rfl)
  exact absurd hhashable.1 (by decide)

end FCompoundHash

end FirebaseSwift.Database
