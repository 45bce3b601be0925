import FirebaseSwift.Library.LoneSeparators
import Mathlib.Data.List.DropRight
import Mathlib.Data.List.TakeWhile

/-! Paths of objects in a bucket. However a path was made, its object is standardized: no slash is at its ends, and
no two slashes follow each other. The root of a bucket has no object where it was given none, and an empty one where
it is a parent. A path is read back from its text, and is the parent of its children, exactly if its object is not
one of these. -/

namespace FirebaseSwift.Storage

/-- Which scalars join with others to one character. A slash does not by itself. -/
structure SlashRules extends Joining Char where
  slash : extending '/' = false ∧ prepending '/' = false

inductive StoragePathError where
  | storagePathError (message : String)
deriving DecidableEq

/-! ### Strings -/

section Strings

variable (rules : SlashRules)

/-- A prefix ends where a character ends. -/
def hasPrefix (start text : List Char) : Bool :=
  start.isPrefixOf text && rules.startsApart (text.drop start.length)

def containsSlash (text : List Char) : Bool := (rules.splitFirst '/' false text).isSome

/-- Slashes before the first part -/
def dropSlashes : Bool → List Char → List Char
  | _, [] => []
  | joined, c :: rest =>
      if rules.IsLone '/' joined c rest then dropSlashes (rules.prepending c) rest else c :: rest

/-- `split(separator: "/", maxSplits: 1)`, which leaves out empty parts -/
def splitOnce (text : List Char) : List (List Char) :=
  match rules.splitFirst '/' false (dropSlashes rules false text) with
  | some split => if split.2 = [] then [split.1] else [split.1, split.2]
  | none => if dropSlashes rules false text = [] then [] else [dropSlashes rules false text]

/-- `replacingOccurrences(of: "//", with: "/")` -/
def replaceDoubled : Bool → List Char → List Char
  | _, [] => []
  | _, [c] => [c]
  | joined, c :: c' :: rest =>
      if c = '/' ∧ c' = '/' ∧ joined = false ∧ rules.startsApart rest = true then
        '/' :: replaceDoubled (rules.prepending '/') rest
      else c :: replaceDoubled (rules.prepending c) (c' :: rest)

def trimSlashes (text : List Char) : List Char := (text.dropWhile (· = '/')).rdropWhile (· = '/')

/-- `NSString.appendingPathComponent` -/
def appendingPathComponent (text component : List Char) : List Char :=
  if text = [] then component
  else if text.getLast? = some '/' then text ++ component
  else text ++ '/' :: component

/-- `NSString.deletingLastPathComponent` -/
def deletingLastPathComponent (text : List Char) : List Char :=
  let parent := ((text.rdropWhile (· = '/')).rdropWhile (· ≠ '/')).rdropWhile (· = '/')
  if parent = [] ∧ text.head? = some '/' then ['/'] else parent

/-! ### Doubled slashes -/

def Doubled (joined : Bool) (text : List Char) : Prop :=
  ∃ before after, text = before ++ '/' :: '/' :: after ∧ rules.joinsAfter joined before = false ∧
    rules.startsApart after = true

variable {rules}
variable {joined : Bool} {text : List Char}

theorem not_doubled_nil : ¬Doubled rules joined [] := by
  rintro ⟨before, after, htext, -⟩
  exact absurd htext.symm (List.append_ne_nil_of_right_ne_nil _ (List.cons_ne_nil _ _))

theorem doubled_cons {c : Char} {rest : List Char} : Doubled rules joined (c :: rest) ↔
    (c = '/' ∧ joined = false ∧ ∃ after, rest = '/' :: after ∧ rules.startsApart after = true) ∨
      Doubled rules (rules.prepending c) rest := by
  constructor
  · rintro ⟨before, after, htext, hbefore, hafter⟩
    cases before with
    | nil =>
        obtain ⟨hc, hrest⟩ := List.cons.inj htext
        exact .inl ⟨hc, hbefore, after, hrest, hafter⟩
    | cons c' before =>
        obtain ⟨rfl, hrest⟩ := List.cons.inj htext
        exact .inr ⟨before, after, hrest, by rw [← Joining.joinsAfter_cons _ joined, hbefore], hafter⟩
  · rintro (⟨rfl, hjoined, after, rfl, hafter⟩ | ⟨before, after, rfl, hbefore, hafter⟩)
    · exact ⟨[], after, rfl, hjoined, hafter⟩
    · exact ⟨c :: before, after, rfl, by rw [Joining.joinsAfter_cons, hbefore], hafter⟩

theorem length_replaceDoubled_le (joined : Bool) (text : List Char) :
    (replaceDoubled rules joined text).length ≤ text.length := by
  induction joined, text using replaceDoubled.induct rules with
  | case1 => exact Nat.le_refl _
  | case2 => exact Nat.le_refl _
  | case3 joined c c' rest hdoubled ih =>
      rw [replaceDoubled, if_pos hdoubled, List.length_cons, List.length_cons, List.length_cons]
      omega
  | case4 joined c c' rest hdoubled ih =>
      rw [replaceDoubled, if_neg hdoubled, List.length_cons, List.length_cons]
      omega

theorem replaceDoubled_of_not (h : ¬Doubled rules joined text) : replaceDoubled rules joined text = text := by
  induction joined, text using replaceDoubled.induct rules with
  | case1 => rfl
  | case2 => rfl
  | case3 joined c c' rest hdoubled ih =>
      exact absurd (doubled_cons.mpr (.inl ⟨hdoubled.1, hdoubled.2.2.1, rest, by rw [hdoubled.2.1], hdoubled.2.2.2⟩)) h
  | case4 joined c c' rest hdoubled ih =>
      rw [doubled_cons, not_or] at h
      rw [replaceDoubled, if_neg hdoubled, ih h.2]

/-- Where a pair of slashes is left nothing was replaced. -/
theorem length_replaceDoubled_lt (h : Doubled rules joined text) :
    (replaceDoubled rules joined text).length < text.length := by
  induction joined, text using replaceDoubled.induct rules with
  | case1 => exact absurd h not_doubled_nil
  | case2 joined c =>
      rcases doubled_cons.mp h with ⟨-, -, after, hrest, -⟩ | hrest
      · cases hrest
      · exact absurd hrest not_doubled_nil
  | case3 joined c c' rest hdoubled ih =>
      have hle := @length_replaceDoubled_le rules (rules.prepending '/') rest
      rw [replaceDoubled, if_pos hdoubled, List.length_cons, List.length_cons, List.length_cons]
      omega
  | case4 joined c c' rest hdoubled ih =>
      rw [replaceDoubled, if_neg hdoubled, List.length_cons, List.length_cons]
      rcases doubled_cons.mp h with ⟨hc, hjoined, after, hrest, hafter⟩ | hrest
      · obtain ⟨hc', rfl⟩ := List.cons.inj hrest
        exact absurd ⟨hc, hc', hjoined, hafter⟩ hdoubled
      · have hlt := ih hrest
        omega

variable (rules)

/-- The loop that replaces until nothing changes -/
def compressSlashes (output : List Char) : List Char :=
  if replaceDoubled rules false output = output then output else compressSlashes (replaceDoubled rules false output)
termination_by output.length
decreasing_by
  rename_i hchanged
  exact length_replaceDoubled_lt (not_imp_comm.mp replaceDoubled_of_not hchanged)

def standardizedPathForString (string : List Char) : List Char := trimSlashes (compressSlashes rules string)

/-- No slash at the ends, and no two slashes that follow each other -/
structure IsStandardized (object : List Char) : Prop where
  head : object.head? ≠ some '/'
  last : object.getLast? ≠ some '/'
  single : ¬Doubled rules false object

variable {rules}

theorem not_doubled_compressSlashes (output : List Char) : ¬Doubled rules false (compressSlashes rules output) := by
  induction output using compressSlashes.induct rules with
  | case1 output hsame =>
      rw [compressSlashes, if_pos hsame]
      intro hdoubled
      have hlt := length_replaceDoubled_lt hdoubled
      rw [hsame] at hlt
      exact lt_irrefl _ hlt
  | case2 output hchanged ih =>
      rw [compressSlashes, if_neg hchanged]
      exact ih

theorem compressSlashes_of_not {output : List Char} (h : ¬Doubled rules false output) :
    compressSlashes rules output = output := by
  rw [compressSlashes, if_pos (replaceDoubled_of_not h)]

variable {slashes : List Char}

theorem joinsAfter_slashes (h : ∀ c ∈ slashes, c = '/') : rules.joinsAfter false slashes = false := by
  cases hlast : slashes.getLast? with
  | none =>
      rw [Joining.joinsAfter, hlast]
      rfl
  | some c =>
      rw [Joining.joinsAfter, hlast, h c (List.mem_of_getLast? hlast)]
      exact rules.slash.2

theorem startsApart_slashes (h : ∀ c ∈ slashes, c = '/') (htext : rules.startsApart text = true) :
    rules.startsApart (text ++ slashes) = true := by
  cases slashes with
  | nil =>
      rw [List.append_nil]
      exact htext
  | cons c slashes =>
      rw [h c List.mem_cons_self, Joining.startsApart_append rules.slash.1]
      exact htext

/-- Slashes around a text join with nothing. -/
theorem Doubled.around {left right : List Char} (hleft : ∀ c ∈ left, c = '/') (hright : ∀ c ∈ right, c = '/')
    (h : Doubled rules false text) : Doubled rules false (left ++ (text ++ right)) := by
  obtain ⟨before, after, rfl, hbefore, hafter⟩ := h
  refine ⟨left ++ before, after ++ right, ?_, ?_, startsApart_slashes hright hafter⟩
  · simp only [List.append_assoc, List.cons_append]
  · rw [Joining.joinsAfter_append, joinsAfter_slashes hleft, hbefore]

theorem isStandardized_standardizedPathForString (string : List Char) :
    IsStandardized rules (standardizedPathForString rules string) := by
  have hsingle := @not_doubled_compressSlashes rules string
  rw [standardizedPathForString]
  generalize compressSlashes rules string = text at hsingle
  have hlast : (trimSlashes text).getLast? ≠ some '/' := by
    intro hlast
    have hne : trimSlashes text ≠ [] := by
      intro hnil
      rw [hnil] at hlast
      cases hlast
    have hnot := List.rdropWhile_last_not _ _ hne
    rw [List.getLast?_eq_getLast_of_ne_nil hne, Option.some_inj] at hlast
    exact hnot (decide_eq_true hlast)
  have hhead : (trimSlashes text).head? ≠ some '/' := by
    intro hhead
    have hprefix : (trimSlashes text).IsPrefix (text.dropWhile (· = '/')) := List.rdropWhile_prefix _ _
    obtain ⟨rest, hrest⟩ := hprefix
    have hdropped : (text.dropWhile (· = '/')).head? = some '/' := by
      rw [← hrest, List.head?_append, hhead]
      rfl
    have hnot := List.head?_dropWhile_not (· = '/') text
    rw [hdropped] at hnot
    exact absurd hnot (by decide)
  refine ⟨hhead, hlast, fun hdoubled => hsingle ?_⟩
  have hleft : ∀ c ∈ text.takeWhile (· = '/'), c = '/' := by
    intro c hc
    have hslash := List.mem_takeWhile_imp hc
    exact of_decide_eq_true hslash
  have hright : ∀ c ∈ (text.dropWhile (· = '/')).rtakeWhile (· = '/'), c = '/' := by
    intro c hc
    have hslash := List.mem_rtakeWhile_imp hc
    exact of_decide_eq_true hslash
  have haround := hdoubled.around hleft hright
  rw [trimSlashes, List.rdropWhile_append_rtakeWhile, List.takeWhile_append_dropWhile] at haround
  exact haround

theorem rdropWhile_slash (h : text.getLast? ≠ some '/') : text.rdropWhile (· = '/') = text := by
  rw [List.rdropWhile_eq_self_iff]
  intro hne heq
  apply h
  rw [List.getLast?_eq_getLast_of_ne_nil hne, of_decide_eq_true heq]

theorem standardizedPathForString_of_isStandardized {object : List Char} (h : IsStandardized rules object) :
    standardizedPathForString rules object = object := by
  rw [standardizedPathForString, compressSlashes_of_not h.single, trimSlashes]
  have hdrop : object.dropWhile (· = '/') = object := by
    cases object with
    | nil => rfl
    | cons c object => exact List.dropWhile_cons_of_neg fun heq => h.head (by rw [of_decide_eq_true heq]; rfl)
  rw [hdrop, rdropWhile_slash h.last]

end Strings

/-! ### Paths -/

structure StoragePath where
  bucket : List Char
  object : Option (List Char)
deriving DecidableEq

namespace StoragePath

section Operations

variable (rules : SlashRules)

/-- `init(with:object:)` -/
def make (bucket : List Char) (object : Option (List Char)) : StoragePath :=
  { bucket, object := object.map (standardizedPathForString rules) }

def child (base : StoragePath) (path : List Char) : StoragePath :=
  if path = [] then base
  else
    match base.object with
    | some object => make rules base.bucket (some (appendingPathComponent object path))
    | none => make rules base.bucket (some path)

/-- The root has no parent. -/
def parent (base : StoragePath) : Option StoragePath :=
  match base.object with
  | none => none
  | some object =>
      if object = [] then none else some (make rules base.bucket (some (deletingLastPathComponent object)))

def root (base : StoragePath) : StoragePath := make rules base.bucket none

def stringValue (base : StoragePath) : List Char := "gs://".toList ++ base.bucket ++ '/' :: base.object.getD []

def pathGSURI (aURIString : List Char) : Except StoragePathError StoragePath :=
  let malformed := .error (.storagePathError "Internal error: URI must be in the form of gs://<bucket>/<path/to/object>")
  if hasPrefix rules "gs://".toList aURIString then
    let bucketObject := aURIString.drop 5
    if containsSlash rules bucketObject then
      match splitOnce rules bucketObject with
      | bucketName :: object => .ok (make rules bucketName object.head?)
      | [] => malformed
    else if bucketObject ≠ [] then .ok (make rules bucketObject none)
    else malformed
  else malformed

/-- The components are those of `URL`, decoded and with the first slash. -/
def pathHTTPURL (pathComponents : List Char → Option (List (List Char))) (aURLString : List Char) :
    Except StoragePathError StoragePath :=
  let malformed := .error (.storagePathError
    "Internal error: URL must be in the form of http[s]://<host>/v0/b/<bucket>/o/<path/to/object>[?token=signed_url_params]")
  match pathComponents aURLString with
  | some (_ :: version :: b :: bucketName :: rest) =>
      if version = "v0".toList ∧ b = "b".toList then
        match rest with
        | [] => .ok (make rules bucketName none)
        | o :: names =>
            if o = "o".toList then
              if names = [] then .ok (make rules bucketName none)
              else .ok (make rules bucketName (some (['/'].intercalate names)))
            else malformed
      else malformed
  | _ => malformed

/-- `path(string:)` -/
def path (pathComponents : List Char → Option (List (List Char))) (string : List Char) :
    Except StoragePathError StoragePath :=
  if hasPrefix rules "gs://".toList string then pathGSURI rules string
  else if hasPrefix rules "http://".toList string || hasPrefix rules "https://".toList string then
    pathHTTPURL rules pathComponents string
  else .error (.storagePathError "Internal error: URL scheme must be one of gs://, http://, or https://")

/-- The paths that can be made -/
inductive Reached (pathComponents : List Char → Option (List (List Char))) : StoragePath → Prop where
  | parsed {string : List Char} {base : StoragePath} (h : path rules pathComponents string = .ok base) :
      Reached pathComponents base
  | made (bucket : List Char) (object : Option (List Char)) : Reached pathComponents (make rules bucket object)
  | child {base : StoragePath} (h : Reached pathComponents base) (path : List Char) :
      Reached pathComponents (base.child rules path)
  | parent {base above : StoragePath} (h : Reached pathComponents base) (habove : base.parent rules = some above) :
      Reached pathComponents above
  | root {base : StoragePath} (h : Reached pathComponents base) : Reached pathComponents (base.root rules)

/-- The object, if there is one, is standardized. -/
def IsClean (base : StoragePath) : Prop := ∀ object ∈ base.object, IsStandardized rules object

end Operations

variable {rules : SlashRules} {pathComponents : List Char → Option (List (List Char))} {base : StoragePath}

theorem isClean_make (bucket : List Char) (object : Option (List Char)) : (make rules bucket object).IsClean rules := by
  intro standardized hstandardized
  obtain ⟨string, -, rfl⟩ := Option.map_eq_some_iff.mp hstandardized
  exact isStandardized_standardizedPathForString string

theorem isClean_path {string : List Char} (h : path rules pathComponents string = .ok base) : base.IsClean rules := by
  rw [path] at h
  split at h
  · rw [pathGSURI] at h
    dsimp only at h
    split_ifs at h
    · split at h
      · cases h
        exact isClean_make _ _
      · cases h
    · cases h
      exact isClean_make _ _
  · split at h
    · rw [pathHTTPURL] at h
      split at h
      · split_ifs at h
        split at h
        · cases h
          exact isClean_make _ _
        · split_ifs at h <;> cases h <;> exact isClean_make _ _
      · cases h
    · cases h

/-- However a path is made, its object is standardized. -/
theorem Reached.isClean (h : Reached rules pathComponents base) : base.IsClean rules := by
  induction h with
  | parsed hpath => exact isClean_path hpath
  | made bucket object => exact isClean_make bucket object
  | @child base _ path ih =>
      rw [StoragePath.child]
      split
      · exact ih
      · split <;> exact isClean_make _ _
  | @parent base above _ habove ih =>
      rw [StoragePath.parent] at habove
      split at habove
      · cases habove
      · split at habove
        · cases habove
        · cases habove
          exact isClean_make _ _
  | root _ => exact isClean_make _ _

variable {bucket text segment : List Char}

theorem make_of_isClean {object : Option (List Char)}
    (h : ∀ standardized ∈ object, IsStandardized rules standardized) :
    make rules bucket object = ⟨bucket, object⟩ := by
  cases object with
  | none => rfl
  | some object => rw [make, Option.map_some, standardizedPathForString_of_isStandardized (h object rfl)]

/-! ### A path and its text -/

theorem dropSlashes_of_head (h : text.head? ≠ some '/') : dropSlashes rules false text = text := by
  cases text with
  | nil => rfl
  | cons c rest =>
      rw [dropSlashes, if_neg]
      rintro ⟨rfl, -⟩
      exact h rfl

theorem not_separates_of_not_mem (h : '/' ∉ text) : ¬rules.Separates '/' false text := by
  rintro ⟨before, after, rfl, -⟩
  exact h (List.mem_append_right before List.mem_cons_self)

variable {object : List Char}

/-- The text of a path is read at its first slash if this is a character of its own. -/
theorem path_gs (hne : bucket ≠ []) (hslash : '/' ∉ bucket) (hstart : rules.startsApart bucket = true) :
    (rules.joinsAfter false bucket = false ∧ rules.startsApart object = true →
      path rules pathComponents ("gs://".toList ++ bucket ++ '/' :: object) =
        .ok (make rules bucket (if object = [] then none else some object))) ∧
    (¬(rules.joinsAfter false bucket = false ∧ rules.startsApart object = true) →
      ∀ result, path rules pathComponents ("gs://".toList ++ bucket ++ '/' :: object) = .ok result →
        result.bucket ≠ bucket) := by
  have hprefix : hasPrefix rules "gs://".toList ("gs://".toList ++ bucket ++ '/' :: object) = true := by
    rw [hasPrefix, List.append_assoc, List.drop_left, Joining.startsApart_append rules.slash.1, hstart, Bool.and_true]
    exact List.isPrefixOf_iff_prefix.mpr (List.prefix_append _ _)
  have hdrop : ("gs://".toList ++ bucket ++ '/' :: object).drop 5 = bucket ++ '/' :: object := by
    rw [List.append_assoc]
    exact @List.drop_left _ "gs://".toList (bucket ++ '/' :: object)
  have hhead : (bucket ++ '/' :: object).head? ≠ some '/' := by
    cases bucket with
    | nil => exact absurd rfl hne
    | cons c bucket =>
        intro heq
        exact hslash (Option.some.inj heq ▸ List.mem_cons_self)
  have hdrops := @dropSlashes_of_head rules _ hhead
  rw [path, if_pos hprefix, pathGSURI]
  dsimp only
  rw [if_pos hprefix, hdrop, splitOnce, hdrops]
  constructor
  · rintro ⟨hbucket, hobject⟩
    have hsplit : rules.splitFirst '/' false (bucket ++ '/' :: object) = some (bucket, object) :=
      (Joining.splitFirst_eq_some_iff rules.slash.1).mpr ⟨rfl, not_separates_of_not_mem hslash, hbucket, hobject⟩
    rw [containsSlash, hsplit, Option.isSome_some, if_pos rfl]
    dsimp only
    by_cases hempty : object = []
    · rw [if_pos hempty, if_pos hempty]
      rfl
    · rw [if_neg hempty, if_neg hempty]
      rfl
  · intro hjoined result hresult
    cases hsplit : rules.splitFirst '/' false (bucket ++ '/' :: object) with
    | none =>
        rw [containsSlash, hsplit, Option.isSome_none, if_neg Bool.false_ne_true,
          if_pos (List.append_ne_nil_of_left_ne_nil hne _)] at hresult
        cases hresult
        intro heq
        have hlength := congrArg List.length heq
        rw [make, List.length_append, List.length_cons] at hlength
        omega
    | some split =>
        obtain ⟨before, after⟩ := split
        obtain ⟨htext, -, hbefore, hafter⟩ := (Joining.splitFirst_eq_some_iff rules.slash.1).mp hsplit
        have hbucket : before ≠ bucket := by
          rintro rfl
          have hsame := (List.cons.inj (List.append_cancel_left htext)).2
          exact hjoined ⟨hbefore, hsame ▸ hafter⟩
        rw [containsSlash, hsplit, Option.isSome_some, if_pos rfl] at hresult
        dsimp only at hresult
        split at hresult
        · rename_i bucketName names heq
          cases hresult
          split_ifs at heq <;> cases heq <;> exact hbucket
        · cases hresult

theorem path_joined {rest : List Char} (hstart : rules.startsApart bucket = false) (hne : bucket ≠ []) :
    ∃ error, path rules pathComponents ("gs://".toList ++ bucket ++ rest) = .error error := by
  have hjoined : rules.startsApart (bucket ++ rest) = false := by
    cases bucket with
    | nil => exact absurd rfl hne
    | cons c bucket => exact hstart
  have hprefix : hasPrefix rules "gs://".toList ("gs://".toList ++ bucket ++ rest) = false := by
    rw [hasPrefix, List.append_assoc, List.drop_left, hjoined, Bool.and_false]
  rw [path, hprefix, if_neg Bool.false_ne_true]
  exact ⟨_, rfl⟩

/-- A path is read back exactly if its signs are characters of their own and its object is not empty. -/
theorem path_stringValue_iff (hclean : base.IsClean rules) (hne : base.bucket ≠ []) (hslash : '/' ∉ base.bucket) :
    path rules pathComponents base.stringValue = .ok base ↔
      rules.startsApart base.bucket = true ∧ rules.joinsAfter false base.bucket = false ∧
        rules.startsApart (base.object.getD []) = true ∧ base.object ≠ some [] := by
  obtain ⟨bucket, object⟩ := base
  rw [stringValue]
  cases hstart : rules.startsApart bucket with
  | false =>
      obtain ⟨error, herror⟩ := @path_joined rules pathComponents bucket ('/' :: object.getD []) hstart hne
      rw [herror]
      exact iff_of_false nofun fun h => Bool.false_ne_true h.1
  | true =>
      obtain ⟨hapart, hjoined⟩ := @path_gs rules pathComponents bucket (object.getD []) hne hslash hstart
      by_cases hsigns : rules.joinsAfter false bucket = false ∧ rules.startsApart (object.getD []) = true
      · rw [hapart hsigns, Except.ok.injEq]
        cases object with
        | none => exact iff_of_true rfl ⟨rfl, hsigns.1, hsigns.2, nofun⟩
        | some object =>
            rw [Option.getD_some] at hsigns ⊢
            by_cases hempty : object = []
            · rw [if_pos hempty, hempty]
              exact iff_of_false nofun fun h => h.2.2.2 rfl
            · rw [if_neg hempty, make_of_isClean hclean]
              exact iff_of_true rfl ⟨rfl, hsigns.1, hsigns.2, fun heq => hempty (Option.some.inj heq)⟩
      · refine iff_of_false (fun heq => hjoined hsigns _ heq rfl) fun h => hsigns ⟨h.2.1, h.2.2.1⟩

/-! ### A path and its children -/

theorem not_doubled_of_not_mem {joined : Bool} (h : '/' ∉ text) : ¬Doubled rules joined text := by
  rintro ⟨before, after, rfl, -⟩
  exact h (List.mem_append_right before List.mem_cons_self)

theorem not_doubled_append {joined : Bool} {left right : List Char} (hleft : ¬Doubled rules joined left)
    (hne : left ≠ []) (hlast : left.getLast? ≠ some '/') (hright : '/' ∉ right) :
    ¬Doubled rules joined (left ++ '/' :: right) := by
  induction left generalizing joined with
  | nil => exact absurd rfl hne
  | cons c left ih =>
      rw [doubled_cons, not_or] at hleft
      rw [List.cons_append, doubled_cons, not_or]
      cases left with
      | nil =>
          refine ⟨fun ⟨hc, _⟩ => hlast (by rw [hc]; rfl), ?_⟩
          rw [List.nil_append, doubled_cons, not_or]
          refine ⟨fun ⟨_, _, after, hafter, _⟩ => hright ?_, not_doubled_of_not_mem hright⟩
          rw [hafter]
          exact List.mem_cons_self
      | cons c' left =>
          refine ⟨fun ⟨hc, hjoined, after, hafter, hstart⟩ => hleft.1 ⟨hc, hjoined, left, ?_, ?_⟩, ?_⟩
          · rw [(List.cons.inj hafter).1]
          · have htail : left ++ '/' :: right = after := (List.cons.inj hafter).2
            rw [← htail, Joining.startsApart_append rules.slash.1] at hstart
            exact hstart
          · exact ih hleft.2 (List.cons_ne_nil _ _) hlast

/-- A child's object is that of the path, a slash and the segment. -/
theorem isStandardized_segment (hobject : IsStandardized rules object) (hne : object ≠ [])
    (hsegment : segment ≠ []) (hslash : '/' ∉ segment) : IsStandardized rules (object ++ '/' :: segment) := by
  refine ⟨?_, ?_, not_doubled_append hobject.single hne hobject.last hslash⟩
  · rw [List.head?_append_of_ne_nil _ hne]
    exact hobject.head
  · intro hlast
    rw [List.getLast?_append_of_ne_nil _ (List.cons_ne_nil _ _)] at hlast
    cases segment with
    | nil => exact hsegment rfl
    | cons c segment => exact hslash (List.mem_of_getLast? hlast)

theorem isStandardized_of_not_mem (hslash : '/' ∉ segment) : IsStandardized rules segment :=
  ⟨fun hhead => hslash (List.mem_of_head? hhead), fun hlast => hslash (List.mem_of_getLast? hlast),
    not_doubled_of_not_mem hslash⟩

/-- The last segment is dropped. -/
theorem rdropWhile_segment (hslash : '/' ∉ segment) (text : List Char) :
    (text ++ segment).rdropWhile (· ≠ '/') = text.rdropWhile (· ≠ '/') := by
  rw [List.rdropWhile, List.reverse_append, List.dropWhile_append_of_pos, List.rdropWhile]
  intro c hc
  rw [decide_eq_true_eq]
  rintro rfl
  exact hslash (List.mem_reverse.mp hc)

theorem deletingLastPathComponent_append (hobject : IsStandardized rules object) (hne : object ≠ [])
    (hsegment : segment ≠ []) (hslash : '/' ∉ segment) :
    deletingLastPathComponent (object ++ '/' :: segment) = object := by
  have hchild := isStandardized_segment hobject hne hsegment hslash
  have hsplit : object ++ '/' :: segment = object ++ ['/'] ++ segment := by
    rw [List.append_assoc]
    rfl
  have hparent : (((object ++ '/' :: segment).rdropWhile (· = '/')).rdropWhile (· ≠ '/')).rdropWhile (· = '/') =
      object := by
    rw [rdropWhile_slash hchild.last, hsplit, rdropWhile_segment hslash, List.rdropWhile_concat_neg _ _ _ (by decide),
      List.rdropWhile_concat_pos _ _ _ (by decide), rdropWhile_slash hobject.last]
  rw [deletingLastPathComponent, hparent]
  exact if_neg fun hempty => hne hempty.1

theorem deletingLastPathComponent_segment (hslash : '/' ∉ segment) : deletingLastPathComponent segment = [] := by
  have hlast : segment.getLast? ≠ some '/' := fun hlast => hslash (List.mem_of_getLast? hlast)
  have hdrop := rdropWhile_segment hslash []
  rw [List.nil_append] at hdrop
  rw [deletingLastPathComponent, rdropWhile_slash hlast, hdrop]
  exact if_neg fun hhead => hslash (List.mem_of_head? hhead.2)

theorem parent_make (hobject : IsStandardized rules object) (hne : object ≠ []) :
    (make rules bucket (some object)).parent rules =
      some (make rules bucket (some (deletingLastPathComponent object))) := by
  rw [make, Option.map_some, standardizedPathForString_of_isStandardized hobject, parent]
  exact if_neg hne

/-- The parent of a child is the path itself, or the root with an empty object. -/
theorem parent_child (hclean : base.IsClean rules) (hsegment : segment ≠ []) (hslash : '/' ∉ segment) :
    (base.child rules segment).parent rules = some { base with object := some (base.object.getD []) } := by
  obtain ⟨bucket, object⟩ := base
  rw [child, if_neg hsegment]
  have hempty : IsStandardized rules [] := isStandardized_of_not_mem List.not_mem_nil
  have halone : ∀ standardized, standardized = some [] →
      (make rules bucket (some segment)).parent rules = some ⟨bucket, standardized⟩ := by
    rintro _ rfl
    rw [parent_make (isStandardized_of_not_mem hslash) hsegment, deletingLastPathComponent_segment hslash,
      make_of_isClean fun standardized heq => Option.some.inj heq ▸ hempty]
  cases object with
  | none => exact halone _ rfl
  | some object =>
      dsimp only
      rw [appendingPathComponent]
      by_cases hne : object = []
      · rw [if_pos hne, hne]
        exact halone _ rfl
      · have hobject := hclean object rfl
        rw [if_neg hne, if_neg hobject.last, parent_make (isStandardized_segment hobject hne hsegment hslash)
          (List.append_ne_nil_of_left_ne_nil hne _), deletingLastPathComponent_append hobject hne hsegment hslash,
          make_of_isClean hclean]
        rfl

/-- The parent of each child is the path itself exactly if the path has an object, which may be empty. -/
theorem parent_child_iff (hclean : base.IsClean rules) :
    (∀ segment : List Char, segment ≠ [] → '/' ∉ segment → (base.child rules segment).parent rules = some base) ↔
      base.object ≠ none := by
  constructor
  · intro h hnone
    have hparent := h ['a'] (List.cons_ne_nil _ _) (by decide)
    rw [parent_child hclean (List.cons_ne_nil _ _) (by decide), Option.some_inj] at hparent
    have hobject : some (base.object.getD []) = base.object := congrArg StoragePath.object hparent
    rw [hnone] at hobject
    cases hobject
  · intro h segment hsegment hslash
    rw [parent_child hclean hsegment hslash]
    obtain ⟨bucket, object⟩ := base
    cases object with
    | none => exact absurd rfl h
    | some object => rfl

/-- A path that was made is read back from its text and is the parent of its children exactly if it has an object
that is not empty, and the slashes around the bucket and the object are characters of their own. -/
theorem Reached.laws_iff (h : Reached rules pathComponents base) (hne : base.bucket ≠ []) (hslash : '/' ∉ base.bucket) :
    (base.IsClean rules ∧ path rules pathComponents base.stringValue = .ok base ∧
        ∀ segment : List Char, segment ≠ [] → '/' ∉ segment →
          (base.child rules segment).parent rules = some base) ↔
      base.object ≠ none ∧ base.object ≠ some [] ∧ rules.startsApart base.bucket = true ∧
        rules.joinsAfter false base.bucket = false ∧ rules.startsApart (base.object.getD []) = true := by
  rw [and_iff_right h.isClean, path_stringValue_iff h.isClean hne hslash, parent_child_iff h.isClean]
  constructor
  · rintro ⟨⟨hstart, hjoins, hobject, hempty⟩, hnone⟩
    exact ⟨hnone, hempty, hstart, hjoins, hobject⟩
  · rintro ⟨hnone, hempty, hstart, hjoins, hobject⟩
    exact ⟨⟨hstart, hjoins, hobject, hempty⟩, hnone⟩

/-- Scalars that all stand alone -/
def plainRules : SlashRules where
  extending := fun _ => false
  prepending := fun _ => false
  slash := ⟨rfl, rfl⟩

theorem laws_iff_object :
    ((make plainRules ['b'] (some ['o'])).IsClean plainRules ∧
        path plainRules (fun _ => none) (make plainRules ['b'] (some ['o'])).stringValue =
          .ok (make plainRules ['b'] (some ['o'])) ∧
        ∀ segment : List Char, segment ≠ [] → '/' ∉ segment →
          ((make plainRules ['b'] (some ['o'])).child plainRules segment).parent plainRules =
            some (make plainRules ['b'] (some ['o']))) ↔
      (make plainRules ['b'] (some ['o'])).object ≠ none ∧ (make plainRules ['b'] (some ['o'])).object ≠ some [] ∧
        plainRules.startsApart (make plainRules ['b'] (some ['o'])).bucket = true ∧
        plainRules.joinsAfter false (make plainRules ['b'] (some ['o'])).bucket = false ∧
        plainRules.startsApart ((make plainRules ['b'] (some ['o'])).object.getD []) = true :=
  (Reached.made ['b'] (some ['o'])).laws_iff (by decide) (by decide)

/-- The parent of a child of the root is not the root. -/
theorem parent_of_child_of_root : ¬∀ (rules : SlashRules) (pathComponents : List Char → Option (List (List Char)))
    (base : StoragePath), Reached rules pathComponents base → base.bucket ≠ [] → '/' ∉ base.bucket →
      base.IsClean rules ∧ path rules pathComponents base.stringValue = .ok base ∧
        ∀ segment : List Char, segment ≠ [] → '/' ∉ segment →
          (base.child rules segment).parent rules = some base := by
  intro hall
  have hlaws := hall plainRules (fun _ => none) (make plainRules ['b'] none) (Reached.made ['b'] none)
    (by decide) (by decide)
  have hclean : (make plainRules ['b'] none).IsClean plainRules := isClean_make ['b'] none
  exact (parent_child_iff hclean).mp hlaws.2.2 rfl

end StoragePath

end FirebaseSwift.Storage
