import FirebaseSwift.Database.CompoundHash

/-! The text of a hashed range of leaves. From one leaf to the next the text closes what is left and opens
what is entered. The leaves can be read from it, with their paths. -/

namespace FirebaseSwift.Database

open UnicodeStrings PrefixCodes

/-- The path of the last leaf -/
def lastPath {K L : Type} (leaves : List (FPath K × L)) : FPath K :=
  (leaves.getLast?.map Prod.fst).getD []

theorem lastPath_append {K L : Type} {leaves : List (FPath K × L)} (h : leaves ≠ [])
    (before : List (FPath K × L)) : lastPath (before ++ leaves) = lastPath leaves := by
  unfold lastPath
  rw [List.getLast?_append_of_ne_nil before h]

theorem lastPath_concat {K L : Type} (leaves : List (FPath K × L)) (leaf : FPath K × L) :
    lastPath (leaves ++ [leaf]) = leaf.1 :=
  lastPath_append (List.cons_ne_nil _ _) leaves

theorem lastPath_map {K L L' : Type} (f : L → L') (leaves : List (FPath K × L)) :
    lastPath (leaves.map (Prod.map id f)) = lastPath leaves := by
  unfold lastPath
  rw [List.getLast?_map, Option.map_map]
  rfl

/-- The closing parentheses at the start -/
def closings (text : List Char) : Nat := (text.takeWhile (· = ')')).length

theorem closings_replicate_append (n : Nat) (text : List Char) :
    closings (List.replicate n ')' ++ text) = n + closings text := by
  unfold closings
  rw [List.takeWhile_append_of_pos fun c hc => by simp [List.eq_of_mem_replicate hc], List.length_append,
    List.length_replicate]

theorem closings_of_head? {text : List Char} {c : Char} (h : text.head? = some c) (hc : c ≠ ')') :
    closings text = 0 := by
  obtain ⟨rest, rfl⟩ := List.head?_eq_some_iff.mp h
  unfold closings
  rw [List.takeWhile_cons_of_neg (by simpa using hc)]
  rfl

theorem closings_comma (text : List Char) : closings (',' :: text) = 0 := closings_of_head? rfl (by decide)

section Texts

variable {K : Type} [KeyText K] [UnicodeVersion]

/-- Opens the keys of a path. -/
def openText (path : FPath K) : List Char := path.flatMap FCompoundHashBuilder.keyText

theorem openText_concat (path : FPath K) (key : K) :
    openText (path ++ [key]) = openText path ++ FCompoundHashBuilder.keyText key := by
  unfold openText
  rw [List.flatMap_append, List.flatMap_singleton]

/-! ### Opened paths -/

/-- The keys of the path and the strings of the leaf are escaped literally, and the leaf has a text. -/
def ReadableLeaf (leaf : FPath K × LeafForm) : Prop :=
  (∀ key ∈ leaf.1, FSnapshotUtilities.EscapesLiterally (KeyText.text key)) ∧ leaf.2 ≠ .notLeaf ∧
    leaf.2.All ValueForm.Readable

theorem keyText_eq {key : K} (h : FSnapshotUtilities.EscapesLiterally (KeyText.text key)) :
    FCompoundHashBuilder.keyText key = quoted '\\' '"' (KeyText.text key) ++ [':', '('] := by
  rw [FCompoundHashBuilder.keyText, FSnapshotUtilities.appendHashV2Representation_eq h, List.nil_append]

variable {form : LeafForm} {path : FPath K} (current : FPath K)

/-- A leaf starts with a letter. -/
theorem head?_text_of_readable (hform : form ≠ .notLeaf) (h : form.All ValueForm.Readable) (rest : List Char) :
    ∃ c ∈ ['b', 'n', 's', 'p'], (form.text ++ rest).head? = some c := by
  cases form with
  | notLeaf => exact absurd rfl hform
  | value v =>
      rw [LeafForm.text, head?_valueText h.1]
      cases v with
      | boolean v => exact ⟨'b', by decide, rfl⟩
      | number bits => exact ⟨'n', by decide, rfl⟩
      | string v => exact ⟨'s', by decide, rfl⟩
      | deferredValue => exact absurd rfl h.1
  | withPriority priority v =>
      refine ⟨'p', by decide, ?_⟩
      rw [LeafForm.text, List.append_assoc, List.append_assoc, List.append_assoc]
      rfl

theorem head?_openText_append (hne : path ≠ [])
    (h : ∀ key ∈ path, FSnapshotUtilities.EscapesLiterally (KeyText.text key)) (rest : List Char) :
    (openText path ++ rest).head? = some '"' := by
  cases path with
  | nil => exact absurd rfl hne
  | cons key path =>
      rw [openText, List.flatMap_cons, keyText_eq (h key List.mem_cons_self), List.append_assoc, List.append_assoc]
      rfl

variable {path' : FPath K} {form' : LeafForm}

theorem openText_append_inj (h : ReadableLeaf (path, form)) (h' : ReadableLeaf (path', form'))
    {rest rest' : List Char}
    (htext : openText path ++ (form.text ++ rest) = openText path' ++ (form'.text ++ rest')) :
    path = path' ∧ form = form' ∧ rest = rest' := by
  induction path generalizing path' with
  | nil =>
      cases path' with
      | nil => exact ⟨rfl, text_append_inj h.2.1 h'.2.1 h.2.2 h'.2.2 htext⟩
      | cons key' path' =>
          have hhead := congrArg List.head? htext
          rw [head?_openText_append (List.cons_ne_nil _ _) h'.1] at hhead
          obtain ⟨c, hc, hletter⟩ := head?_text_of_readable h.2.1 h.2.2 rest
          rw [openText, List.flatMap_nil, List.nil_append, hletter] at hhead
          cases hhead
          exact absurd hc (by decide)
  | cons key path ih =>
      cases path' with
      | nil =>
          have hhead := congrArg List.head? htext
          rw [head?_openText_append (List.cons_ne_nil _ _) h.1] at hhead
          obtain ⟨c, hc, hletter⟩ := head?_text_of_readable h'.2.1 h'.2.2 rest'
          rw [openText, List.flatMap_nil, List.nil_append, hletter] at hhead
          cases hhead
          exact absurd hc (by decide)
      | cons key' path' =>
          rw [openText, openText, List.flatMap_cons, List.flatMap_cons, keyText_eq (h.1 key List.mem_cons_self),
            keyText_eq (h'.1 key' List.mem_cons_self)] at htext
          simp only [List.append_assoc] at htext
          obtain ⟨hkey, hopen⟩ := selfDelimiting_quoted (by decide) _ _ _ _ htext
          obtain ⟨hpath, hrest⟩ := ih ⟨fun k hk => h.1 k (List.mem_cons_of_mem _ hk), h.2⟩
            ⟨fun k hk => h'.1 k (List.mem_cons_of_mem _ hk), h'.2⟩ (List.append_cancel_left hopen)
          rw [KeyText.text_injective hkey, hpath]
          exact ⟨rfl, hrest⟩

theorem closings_openText_append (h : ReadableLeaf (path, form)) (rest : List Char) :
    closings (openText path ++ (form.text ++ rest)) = 0 := by
  cases path with
  | nil =>
      obtain ⟨c, hc, hletter⟩ := head?_text_of_readable h.2.1 h.2.2 rest
      exact closings_of_head? hletter fun hparenthesis => absurd (hparenthesis ▸ hc) (by decide)
  | cons key path =>
      exact closings_of_head? (head?_openText_append (List.cons_ne_nil key path) h.1 _) (by decide)

/-! ### Moves -/

variable [DecidableEq K]

/-- From the end of a leaf to the start of the next one. Before the first leaf of a range nothing is open. -/
def moveText : FPath K → FPath K → List Char
  | [], next => openText next
  | key :: current, [] => List.replicate (key :: current).length ')' ++ [',']
  | key :: current, nextKey :: next =>
      if key = nextKey then moveText current next
      else List.replicate (key :: current).length ')' ++ ',' :: openText (nextKey :: next)

/-- The text of leaves without the end of the last one. -/
def leavesText : FPath K → List (FPath K × LeafForm) → List Char
  | _, [] => []
  | current, (path, form) :: rest => moveText current path ++ (form.text ++ leavesText path rest)

def rangeText (leaves : List (FPath K × LeafForm)) : List Char :=
  '(' :: leavesText [] leaves ++ List.replicate ((lastPath leaves).length + 1) ')'

theorem leavesText_concat (leaves : List (FPath K × LeafForm)) (leaf : FPath K × LeafForm) :
    leavesText current (leaves ++ [leaf]) = leavesText current leaves ++
      (moveText ((leaves.getLast?.map Prod.fst).getD current) leaf.1 ++ leaf.2.text) := by
  induction leaves generalizing current with
  | nil => exact congrArg (moveText current leaf.1 ++ ·) (List.append_nil _)
  | cons head rest ih =>
      obtain ⟨path, form⟩ := head
      rw [List.cons_append, leavesText, leavesText, ih, List.append_assoc, List.append_assoc, List.getLast?_cons]
      cases hlast : rest.getLast? with
      | none => rfl
      | some last => rfl

theorem moveText_concat {current : FPath K} (h : current = [] ∨ ¬path <+: current) (key : K) :
    moveText current (path ++ [key]) = moveText current path ++ FCompoundHashBuilder.keyText key := by
  induction current generalizing path with
  | nil => exact openText_concat path key
  | cons front current ih =>
      have hprefixed : ¬path <+: front :: current := h.resolve_left (List.cons_ne_nil _ _)
      cases path with
      | nil => exact absurd List.nil_prefix hprefixed
      | cons nextFront path =>
          rw [List.cons_append, moveText, moveText]
          by_cases hfront : front = nextFront
          · subst hfront
            rw [if_pos rfl, if_pos rfl]
            exact ih (Or.inr fun hbelow => hprefixed (List.cons_prefix_cons.mpr ⟨rfl, hbelow⟩))
          · rw [if_neg hfront, if_neg hfront, ← List.cons_append, openText_concat, List.append_assoc]
            rfl

/-- To a sibling -/
theorem moveText_sibling (path rest : FPath K) {key nextKey : K} (h : key ≠ nextKey) :
    moveText (path ++ key :: rest) (path ++ [nextKey]) =
      List.replicate (rest.length + 1) ')' ++ ',' :: FCompoundHashBuilder.keyText nextKey := by
  induction path with
  | nil =>
      rw [List.nil_append, List.nil_append, moveText, if_neg h, List.length_cons]
      exact congrArg (List.replicate (rest.length + 1) ')' ++ ',' :: ·) (List.append_nil _)
  | cons front path ih =>
      rw [List.cons_append, List.cons_append, moveText, if_pos rfl]
      exact ih

/-! ### Reading -/

/-- A move that leaves its first key -/
theorem moveText_of_left {key : K} {current : FPath K} (h : ¬[key] <+: path) :
    moveText (key :: current) path = List.replicate (key :: current).length ')' ++ ',' :: openText path := by
  cases path with
  | nil => rfl
  | cons nextKey next =>
      rw [moveText, if_neg]
      exact fun hkey => h (List.cons_prefix_cons.mpr ⟨hkey, List.nil_prefix⟩)

theorem closings_moveText_le (h : ReadableLeaf (path, form)) (rest : List Char) :
    closings (moveText current path ++ (form.text ++ rest)) ≤ current.length := by
  induction current generalizing path with
  | nil =>
      rw [moveText, closings_openText_append h]
      exact le_rfl
  | cons key current ih =>
      by_cases hfront : [key] <+: path
      · obtain ⟨next, rfl⟩ := hfront
        rw [List.singleton_append, moveText, if_pos rfl, List.length_cons]
        exact (ih ⟨fun k hk => h.1 k (List.mem_cons_of_mem _ hk), h.2⟩).trans (Nat.le_succ _)
      · rw [moveText_of_left hfront, List.append_assoc, closings_replicate_append, List.cons_append, closings_comma]
        exact le_rfl

/-- A move ends by itself with the leaf after it. -/
theorem moveText_append_inj (h : ReadableLeaf (path, form)) (h' : ReadableLeaf (path', form'))
    {rest rest' : List Char}
    (htext : moveText current path ++ (form.text ++ rest) = moveText current path' ++ (form'.text ++ rest')) :
    path = path' ∧ form = form' ∧ rest = rest' := by
  induction current generalizing path path' with
  | nil => exact openText_append_inj h h' htext
  | cons key current ih =>
      have hstays : ∀ {next : FPath K} {form : LeafForm} {rest : List Char},
          ReadableLeaf (key :: next, form) →
            closings (moveText current next ++ (form.text ++ rest)) ≠ (key :: current).length :=
        fun hleaf hclosed => absurd hclosed
          (Nat.lt_succ_of_le (closings_moveText_le current ⟨fun k hk => hleaf.1 k (List.mem_cons_of_mem _ hk),
            hleaf.2⟩ _)).ne
      have hleaves : ∀ (path : FPath K) (text : List Char),
          closings (List.replicate (key :: current).length ')' ++ ',' :: openText path ++ text) =
            (key :: current).length := by
        intro path text
        rw [List.append_assoc, closings_replicate_append, List.cons_append, closings_comma]
        rfl
      by_cases hfront : [key] <+: path
      · obtain ⟨next, rfl⟩ := hfront
        by_cases hfront' : [key] <+: path'
        · obtain ⟨next', rfl⟩ := hfront'
          rw [List.singleton_append, List.singleton_append, moveText, moveText, if_pos rfl, if_pos rfl] at htext
          obtain ⟨rfl, hrest⟩ := ih ⟨fun k hk => h.1 k (List.mem_cons_of_mem _ hk), h.2⟩
            ⟨fun k hk => h'.1 k (List.mem_cons_of_mem _ hk), h'.2⟩ htext
          exact ⟨rfl, hrest⟩
        · rw [List.singleton_append, moveText, if_pos rfl, moveText_of_left hfront'] at htext
          exact absurd ((congrArg closings htext).trans (hleaves _ _)) (hstays h)
      · by_cases hfront' : [key] <+: path'
        · obtain ⟨next', rfl⟩ := hfront'
          rw [List.singleton_append, moveText_of_left hfront, moveText, if_pos rfl] at htext
          exact absurd ((congrArg closings htext).symm.trans (hleaves _ _)) (hstays h')
        · rw [moveText_of_left hfront, moveText_of_left hfront', List.append_assoc, List.append_assoc] at htext
          exact openText_append_inj h h' (List.cons.inj (List.append_cancel_left htext)).2

theorem leavesText_append_inj {leaves leaves' : List (FPath K × LeafForm)}
    (h : ∀ leaf ∈ leaves, ReadableLeaf leaf) (h' : ∀ leaf ∈ leaves', ReadableLeaf leaf)
    (htext : leavesText current leaves ++
        List.replicate (((leaves.getLast?.map Prod.fst).getD current).length + 1) ')' =
      leavesText current leaves' ++
        List.replicate (((leaves'.getLast?.map Prod.fst).getD current).length + 1) ')') : leaves = leaves' := by
  have hend : ∀ {current : FPath K} {leaf : FPath K × LeafForm} {text : List Char}, ReadableLeaf leaf →
      List.replicate (current.length + 1) ')' ≠
        moveText current leaf.1 ++ (leaf.2.text ++ text) := by
    intro current leaf text hleaf hends
    have hclosed := closings_moveText_le current hleaf text
    rw [← hends, ← List.append_nil (List.replicate _ _), closings_replicate_append] at hclosed
    omega
  induction leaves generalizing current leaves' with
  | nil =>
      cases leaves' with
      | nil => rfl
      | cons leaf' leaves' =>
          refine absurd htext ?_
          rw [leavesText, leavesText, List.append_assoc, List.append_assoc]
          exact hend (h' leaf' List.mem_cons_self)
  | cons leaf leaves ih =>
      cases leaves' with
      | nil =>
          refine absurd htext.symm ?_
          rw [leavesText, leavesText, List.append_assoc, List.append_assoc]
          exact hend (h leaf List.mem_cons_self)
      | cons leaf' leaves' =>
          have hlast : ∀ (leaf : FPath K × LeafForm) (leaves : List (FPath K × LeafForm)),
              ((leaf :: leaves).getLast?.map Prod.fst).getD current =
                (leaves.getLast?.map Prod.fst).getD leaf.1 := by
            intro leaf leaves
            rw [List.getLast?_cons]
            cases leaves.getLast? <;> rfl
          rw [leavesText, leavesText, List.append_assoc, List.append_assoc, List.append_assoc,
            List.append_assoc, hlast, hlast] at htext
          obtain ⟨hpath, hform, hrest⟩ := moveText_append_inj current (h leaf List.mem_cons_self)
            (h' leaf' List.mem_cons_self) htext
          rw [← hpath] at hrest
          rw [Prod.ext hpath hform, ih leaf.1 (fun l hl => h l (List.mem_cons_of_mem _ hl))
            (fun l hl => h' l (List.mem_cons_of_mem _ hl)) hrest]

/-- The leaves of a range can be read from its text. -/
theorem rangeText_inj {leaves leaves' : List (FPath K × LeafForm)} (h : ∀ leaf ∈ leaves, ReadableLeaf leaf)
    (h' : ∀ leaf ∈ leaves', ReadableLeaf leaf) (htext : rangeText leaves = rangeText leaves') : leaves = leaves' :=
  leavesText_append_inj [] h h' (List.cons.inj htext).2

theorem ranges_inj {ranges ranges' : List (List (FPath K × LeafForm))}
    (h : ∀ leaf ∈ ranges.flatten, ReadableLeaf leaf) (h' : ∀ leaf ∈ ranges'.flatten, ReadableLeaf leaf)
    (htexts : ranges.map rangeText = ranges'.map rangeText) : ranges = ranges' := by
  induction ranges generalizing ranges' with
  | nil => exact (List.map_eq_nil_iff.mp htexts.symm).symm
  | cons range ranges ih =>
      cases ranges' with
      | nil => cases htexts
      | cons range' ranges' =>
          obtain ⟨hrange, hranges⟩ := List.cons.inj htexts
          rw [List.flatten_cons] at h h'
          rw [rangeText_inj (fun leaf hleaf => h leaf (List.mem_append_left _ hleaf))
            (fun leaf hleaf => h' leaf (List.mem_append_left _ hleaf)) hrange,
            ih (fun leaf hleaf => h leaf (List.mem_append_right _ hleaf))
              (fun leaf hleaf => h' leaf (List.mem_append_right _ hleaf)) hranges]

end Texts

end FirebaseSwift.Database
