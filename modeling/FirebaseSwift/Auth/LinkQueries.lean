import FirebaseSwift.Library.LoneSeparators
import FirebaseSwift.Library.PercentEncoding
import FirebaseSwift.Library.UnicodeStrings
import Mathlib.Algebra.BigOperators.Group.List.Basic
import Mathlib.Data.List.Chain
import Mathlib.Data.List.Perm.Basic
import Mathlib.Data.List.TakeWhile

/-! The queries of links. `URLComponents` gives a query with its encoding removed; it is split at the signs that are
a character of their own after that, and the encoding is removed once more. A dictionary comes back exactly if its
texts have no such signs and no percent signs. -/

namespace FirebaseSwift.Auth

open PercentEncoding UnicodeStrings

/-- Which scalars join with others to one character, the signs of a query not being among them -/
structure CharacterRules extends Joining Char where
  equals : extending '=' = false ∧ prepending '=' = false
  ampersand : extending '&' = false ∧ prepending '&' = false

abbrev QueryItem := List Char × List Char

/-- The `query` of `URLComponents` -/
def urlQuery (link : List Char) : Option (List Char) :=
  match (link.takeWhile (· ≠ '#')).dropWhile (· ≠ '?') with
  | [] => none
  | _ :: query => removing query

def decodeItem (key value : List Char) : Option QueryItem :=
  match removing key, removing value with
  | some key, some value => some (key, value)
  | _, _ => none

section Parsing

variable [UnicodeVersion] (rules : CharacterRules)

/-- Keys are compared by canonical equivalence. The key that was there stays. -/
def assign : List QueryItem → QueryItem → List QueryItem
  | [], item => [item]
  | present :: items, item =>
      if Equivalent present.1 item.1 then (present.1, item.2) :: items else present :: assign items item

/-- The loop over the components, given how an item is read -/
def parseQuery (readItem : List Char → Option QueryItem) (query : List Char) : List QueryItem :=
  (rules.parts '&' false query).foldl (fun items component =>
    match readItem component with
    | some item => assign items item
    | none => items) []

/-- An item is split at the first `=`. -/
def AuthWebUtils.readItem (component : List Char) : Option QueryItem :=
  match rules.splitFirst '=' false component with
  | some split => decodeItem split.1 split.2
  | none => none

def AuthWebUtils.parseURL (urlString : List Char) : List QueryItem :=
  match urlQuery urlString with
  | some query => parseQuery rules (AuthWebUtils.readItem rules) query
  | none => []

/-- An item is split at every `=`, and the first two parts that are not empty are taken. -/
def ActionCodeURL.readItem (component : List Char) : Option QueryItem :=
  match (rules.parts '=' false component).filter (· ≠ []) with
  | key :: value :: _ => decodeItem key value
  | _ => none

def ActionCodeURL.parseURL (urlString : List Char) : List QueryItem :=
  match urlQuery urlString with
  | some query => parseQuery rules (ActionCodeURL.readItem rules) query
  | none => []

end Parsing

/-! ### Links -/

/-- What of a link is before its query -/
structure LinkBase where
  text : List Char
  plain : '?' ∉ text ∧ '#' ∉ text

/-- What is not encoded in a query -/
structure QueryEncoding extends Allowed where
  signs : allows '#' = false ∧ allows '&' = false ∧ allows '=' = false

/-- A dictionary, in the order in which it is written -/
structure LinkDictionary [UnicodeVersion] where
  items : List QueryItem
  distinct : items.Pairwise fun left right => ¬Equivalent left.1 right.1
  nonempty : ∀ item ∈ items, item.1 ≠ [] ∧ item.2 ≠ []

def QueryItem.text (item : QueryItem) : List Char := item.1 ++ '=' :: item.2

def QueryItem.encoded (encoding : QueryEncoding) (item : QueryItem) : List Char :=
  adding encoding.toAllowed item.1 ++ '=' :: adding encoding.toAllowed item.2

def queryText (items : List QueryItem) : List Char := ['&'].intercalate (items.map QueryItem.text)

def linkTo (base : LinkBase) (encoding : QueryEncoding) (items : List QueryItem) : List Char :=
  base.text ++ '?' :: ['&'].intercalate (items.map (QueryItem.encoded encoding))

variable (encoding : QueryEncoding)
variable (item : QueryItem)

theorem writes_encoded : Writes (item.encoded encoding) item.text :=
  (writes_adding _ item.1).append ((writes_char (by decide)).append (writes_adding _ item.2))

theorem not_mem_encoded (items : List QueryItem) :
    '#' ∉ ['&'].intercalate (items.map (QueryItem.encoded encoding)) := by
  induction items with
  | nil => exact List.not_mem_nil
  | cons item items ih =>
      have hitem : '#' ∉ item.encoded encoding := by
        rw [QueryItem.encoded, List.mem_append, List.mem_cons]
        rintro (hkey | hsign | hvalue)
        · exact not_mem_adding encoding.signs.1 item.1 hkey
        · exact absurd hsign (by decide)
        · exact not_mem_adding encoding.signs.1 item.2 hvalue
      cases items with
      | nil =>
          rw [List.map_singleton, List.intercalate_singleton]
          exact hitem
      | cons next items =>
          rw [List.map_cons] at ih ⊢
          rw [List.map_cons, List.intercalate_cons_cons, List.mem_append, List.mem_append, List.mem_singleton]
          rintro ((hmem | hsign) | hmem)
          · exact hitem hmem
          · exact absurd hsign (by decide)
          · exact ih hmem

/-- The query of a link is the text of the dictionary, with nothing encoded. -/
theorem urlQuery_linkTo (base : LinkBase) (encoding : QueryEncoding) (items : List QueryItem) :
    urlQuery (linkTo base encoding items) = some (queryText items) := by
  have hsharp : ∀ c ∈ linkTo base encoding items, decide (c ≠ '#') = true := by
    intro c hc
    rw [linkTo, List.mem_append, List.mem_cons] at hc
    rw [decide_eq_true_eq]
    rintro rfl
    rcases hc with hbase | hsign | hquery
    · exact base.plain.2 hbase
    · exact absurd hsign (by decide)
    · exact not_mem_encoded encoding items hquery
  have hbase : ∀ c ∈ base.text, decide (c ≠ '?') = true := by
    intro c hc
    rw [decide_eq_true_eq]
    rintro rfl
    exact base.plain.1 hc
  rw [urlQuery, List.takeWhile_eq_self_iff.mpr hsharp, linkTo, List.dropWhile_append_of_pos hbase,
    List.dropWhile_cons_of_neg (by decide)]
  exact (writes_intercalate (by decide) items fun item _ => writes_encoded encoding item).removing

/-! ### What the texts weigh -/

def QueryItem.cost (item : QueryItem) : Nat := size item.1 + size item.2 + 2

/-- How an item is read: what is read is no longer than the component, and as long only if nothing is lost. -/
structure ReadsItems (readItem : List Char → Option QueryItem) : Prop where
  cost_le : ∀ {component item}, readItem component = some item → item.cost ≤ size component + 1
  text_eq : ∀ {component item}, readItem component = some item → item.cost = size component + 1 →
    component = item.text

theorem size_append (left right : List Char) : size (left ++ right) = size left + size right := by
  rw [size, List.map_append, List.sum_append]
  rfl

theorem size_text : size item.text + 1 = item.cost := by
  have hsign : size ('=' :: item.2) = 1 + size item.2 := rfl
  rw [QueryItem.text, size_append, hsign, QueryItem.cost]
  omega

theorem size_queryText {items : List QueryItem} (h : items ≠ []) :
    size (queryText items) + 1 = (items.map QueryItem.cost).sum := by
  induction items with
  | nil => exact absurd rfl h
  | cons item items ih =>
      cases items with
      | nil =>
          rw [queryText, List.map_singleton, List.intercalate_singleton, size_text]
          rfl
      | cons next items =>
          have hrest := ih (List.cons_ne_nil _ _)
          have hitem := size_text item
          have hcons : queryText (item :: next :: items) = item.text ++ ['&'] ++ queryText (next :: items) := by
            rw [queryText, List.map_cons, List.map_cons, List.intercalate_cons_cons]
            rfl
          have hsign : size ['&'] = 1 := rfl
          rw [hcons, size_append, size_append, hsign, List.map_cons, List.sum_cons]
          omega

/-! ### Items that are components -/

section Items

variable {rules : CharacterRules}

/-- Each item is a component of the query. -/
structure Splits (rules : CharacterRules) (items : List QueryItem) : Prop where
  whole : ∀ item ∈ items, ¬rules.Separates '&' false item.text
  apart : items.IsChain fun left right =>
    rules.joinsAfter false left.2 = false ∧ rules.startsApart right.1 = true

theorem joinsAfter_text (item : QueryItem) : rules.joinsAfter false item.text = rules.joinsAfter false item.2 := by
  obtain ⟨key, value⟩ := item
  show rules.joinsAfter false (key ++ '=' :: value) = rules.joinsAfter false value
  rw [Joining.joinsAfter_append, Joining.joinsAfter_cons, rules.equals.2]

theorem separates_text {item : QueryItem} : rules.Separates '&' false item.text ↔
      rules.Separates '&' false item.1 ∨ rules.Separates '&' false item.2 :=
  Joining.separates_append (by decide) rules.equals.1 rules.equals.2

theorem isChain_texts {items : List QueryItem} : (items.map QueryItem.text).IsChain (fun left right =>
      rules.joinsAfter false left = false ∧ rules.startsApart right = true) ↔
    items.IsChain fun left right => rules.joinsAfter false left.2 = false ∧ rules.startsApart right.1 = true := by
  rw [List.isChain_map]
  simp only [joinsAfter_text]
  simp only [QueryItem.text, Joining.startsApart_append rules.equals.1]

theorem decodeItem_eq_some {key value : List Char} {item : QueryItem} (h : decodeItem key value = some item) :
    size item.1 ≤ size key ∧ size item.2 ≤ size value ∧ (size item.1 + size item.2 = size key + size value →
      ('%' ∉ key ∧ '%' ∉ value) ∧ item = (key, value)) := by
  rw [decodeItem] at h
  cases hkey : removing key with
  | none =>
      rw [hkey] at h
      cases h
  | some decodedKey =>
      cases hvalue : removing value with
      | none =>
          rw [hkey, hvalue] at h
          cases h
      | some decodedValue =>
          rw [hkey, hvalue] at h
          cases h
          obtain ⟨hkeyLe, hkeyEq⟩ := removing_size hkey
          obtain ⟨hvalueLe, hvalueEq⟩ := removing_size hvalue
          dsimp only
          refine ⟨hkeyLe, hvalueLe, fun heq => ?_⟩
          obtain ⟨hkeyPlain, rfl⟩ := hkeyEq (by omega)
          obtain ⟨hvaluePlain, rfl⟩ := hvalueEq (by omega)
          exact ⟨⟨hkeyPlain, hvaluePlain⟩, rfl⟩

theorem decodeItem_of_not_mem {item : QueryItem} (hkey : '%' ∉ item.1) (hvalue : '%' ∉ item.2) :
    decodeItem item.1 item.2 = some item := by
  rw [decodeItem, removing_of_not_mem hkey, removing_of_not_mem hvalue]

/-! ### Reading at the first sign -/

/-- The first `=` of the item stands between its key and its value, and nothing is decoded. -/
structure QueryItem.IsPlain (rules : CharacterRules) (item : QueryItem) : Prop where
  percent : '%' ∉ item.1 ∧ '%' ∉ item.2
  key : ¬rules.Separates '=' false item.1
  apart : rules.joinsAfter false item.1 = false ∧ rules.startsApart item.2 = true

variable {component : List Char}

theorem AuthWebUtils.readItem_eq_some {item : QueryItem} (h : AuthWebUtils.readItem rules component = some item) :
    item.cost ≤ size component + 1 ∧
      (item.cost = size component + 1 → component = item.text ∧ item.IsPlain rules) := by
  rw [AuthWebUtils.readItem] at h
  cases hsplit : rules.splitFirst '=' false component with
  | none =>
      rw [hsplit] at h
      cases h
  | some split =>
      rw [hsplit] at h
      obtain ⟨key, value⟩ := split
      obtain ⟨hkey, hvalue, heq⟩ := decodeItem_eq_some h
      obtain ⟨rfl, hnone, hjoins, hstarts⟩ := (Joining.splitFirst_eq_some_iff rules.equals.1).mp hsplit
      have htext := size_text (key, value)
      rw [QueryItem.cost] at htext ⊢
      dsimp only [QueryItem.text] at htext hkey hvalue
      refine ⟨by omega, fun hcost => ?_⟩
      obtain ⟨hpercent, rfl⟩ := heq (by dsimp only; omega)
      exact ⟨rfl, hpercent, hnone, hjoins, hstarts⟩

theorem AuthWebUtils.readsItems : ReadsItems (AuthWebUtils.readItem rules) where
  cost_le h := (AuthWebUtils.readItem_eq_some h).1
  text_eq h hcost := ((AuthWebUtils.readItem_eq_some h).2 hcost).1

theorem AuthWebUtils.readItem_text_iff {item : QueryItem} :
    AuthWebUtils.readItem rules item.text = some item ↔ item.IsPlain rules := by
  constructor
  · intro h
    exact ((AuthWebUtils.readItem_eq_some h).2 (size_text item).symm).2
  · intro h
    have hsplit : rules.splitFirst '=' false item.text = some item :=
      (Joining.splitFirst_eq_some_iff rules.equals.1).mpr ⟨rfl, h.key, h.apart⟩
    rw [AuthWebUtils.readItem, hsplit]
    exact decodeItem_of_not_mem h.percent.1 h.percent.2

/-! ### Reading at every sign -/

/-- Parts that are left out weigh something. -/
theorem sum_sublist {kept all : List (List Char)} (h : kept.Sublist all) :
    (kept.map fun part => size part + 1).sum + all.length ≤ (all.map fun part => size part + 1).sum + kept.length := by
  induction h with
  | slnil => exact Nat.le_refl _
  | cons part _ ih =>
      rw [List.map_cons, List.sum_cons, List.length_cons]
      omega
  | cons_cons part _ ih =>
      rw [List.map_cons, List.sum_cons, List.length_cons, List.map_cons, List.sum_cons, List.length_cons]
      omega

theorem parts_item_iff {item : QueryItem} : rules.parts '=' false component = [item.1, item.2] ↔
      component = item.text ∧ ¬rules.Separates '=' false item.1 ∧ ¬rules.Separates '=' false item.2 ∧
        rules.joinsAfter false item.1 = false ∧ rules.startsApart item.2 = true := by
  have htext : ['='].intercalate [item.1, item.2] = item.text := by
    rw [List.intercalate_cons_cons, List.intercalate_singleton, QueryItem.text, List.append_assoc]
    rfl
  have hpair : ∀ left right : List Char, [left, right].IsChain (fun left right =>
      rules.joinsAfter false left = false ∧ rules.startsApart right = true) ↔
        rules.joinsAfter false left = false ∧ rules.startsApart right = true := by
    intro left right
    rw [List.isChain_cons_cons, and_iff_left (List.IsChain.singleton _)]
  constructor
  · intro h
    have hcomponent : component = item.text := by
      rw [← htext, ← h, Joining.intercalate_parts]
    have hwhole : ∀ text ∈ [item.1, item.2], rules.parts '=' false text = [text] := by
      intro text hmem
      rw [← h] at hmem
      exact Joining.parts_of_mem rules.equals.1 rules.equals.2 hmem
    have hchain := (Joining.parts_intercalate rules.equals.1 rules.equals.2 _ (List.cons_ne_nil _ _) hwhole).2.1
    rw [htext, ← hcomponent, h, hpair] at hchain
    exact ⟨hcomponent, Joining.parts_eq_singleton_iff.mp (hwhole _ List.mem_cons_self),
      Joining.parts_eq_singleton_iff.mp (hwhole _ (List.mem_cons_of_mem _ List.mem_cons_self)), hchain.mp rfl⟩
  · rintro ⟨rfl, hkey, hvalue, hapart⟩
    have hwhole : ∀ text ∈ [item.1, item.2], rules.parts '=' false text = [text] := by
      intro text hmem
      rcases List.mem_pair.mp hmem with rfl | rfl
      · exact Joining.parts_eq_singleton_iff.mpr hkey
      · exact Joining.parts_eq_singleton_iff.mpr hvalue
    have hparts := (Joining.parts_intercalate rules.equals.1 rules.equals.2 _ (List.cons_ne_nil _ _) hwhole).2.2
      ((hpair _ _).mpr hapart)
    rw [htext] at hparts
    exact hparts

theorem ActionCodeURL.readItem_eq_some {item : QueryItem} (h : ActionCodeURL.readItem rules component = some item) :
    item.cost ≤ size component + 1 ∧ (item.cost = size component + 1 →
      component = item.text ∧ item.IsPlain rules ∧ ¬rules.Separates '=' false item.2) := by
  rw [ActionCodeURL.readItem] at h
  split at h
  · rename_i key value rest hfilter
    have hsublist : (key :: value :: rest).Sublist (rules.parts '=' false component) := by
      rw [← hfilter]
      exact List.filter_sublist
    have hsum := sum_sublist hsublist
    have hall : ((rules.parts '=' false component).map fun part => size part + 1).sum = size component + 1 :=
      Joining.sum_parts Char.utf8Size rfl
    have hrest := sum_sublist (List.nil_sublist rest)
    have hlength := hsublist.length_le
    rw [hall, List.map_cons, List.map_cons, List.sum_cons, List.sum_cons] at hsum
    rw [List.map_nil, List.sum_nil, List.length_nil] at hrest
    rw [List.length_cons, List.length_cons] at hsum hlength
    obtain ⟨hkey, hvalue, heq⟩ := decodeItem_eq_some h
    rw [QueryItem.cost]
    refine ⟨by omega, fun hcost => ?_⟩
    obtain ⟨hpercent, rfl⟩ := heq (by omega)
    have hnone : rest = [] := List.length_eq_zero_iff.mp (by omega)
    rw [hnone] at hsublist
    have hparts : [key, value] = rules.parts '=' false component := by
      apply hsublist.eq_of_length
      rw [List.length_cons, List.length_cons, List.length_nil]
      omega
    obtain ⟨hcomponent, hkeyNone, hvalueNone, hapart⟩ := (@parts_item_iff rules component (key, value)).mp hparts.symm
    exact ⟨hcomponent, ⟨hpercent, hkeyNone, hapart⟩, hvalueNone⟩
  · cases h

theorem ActionCodeURL.readsItems : ReadsItems (ActionCodeURL.readItem rules) where
  cost_le h := (ActionCodeURL.readItem_eq_some h).1
  text_eq h hcost := ((ActionCodeURL.readItem_eq_some h).2 hcost).1

theorem ActionCodeURL.readItem_text_iff {item : QueryItem} (hne : item.1 ≠ [] ∧ item.2 ≠ []) :
    ActionCodeURL.readItem rules item.text = some item ↔
      item.IsPlain rules ∧ ¬rules.Separates '=' false item.2 := by
  constructor
  · intro h
    exact ((ActionCodeURL.readItem_eq_some h).2 (size_text item).symm).2
  · rintro ⟨hplain, hvalue⟩
    have hfilter : [item.1, item.2].filter (fun part => decide (part ≠ [])) = [item.1, item.2] := by
      rw [List.filter_eq_self]
      intro part hpart
      rcases List.mem_pair.mp hpart with rfl | rfl
      · exact decide_eq_true hne.1
      · exact decide_eq_true hne.2
    rw [ActionCodeURL.readItem, parts_item_iff.mpr ⟨rfl, hplain.key, hvalue, hplain.apart⟩, hfilter]
    exact decodeItem_of_not_mem hplain.percent.1 hplain.percent.2

end Items

section Costs

variable [UnicodeVersion] {rules : CharacterRules} {readItem : List Char → Option QueryItem}

/-- An assignment that replaces nothing appends. -/
theorem cost_assign (items : List QueryItem) (item : QueryItem) :
    ((assign items item).map QueryItem.cost).sum ≤ (items.map QueryItem.cost).sum + item.cost ∧
      (((assign items item).map QueryItem.cost).sum = (items.map QueryItem.cost).sum + item.cost →
        assign items item = items ++ [item]) := by
  induction items with
  | nil => exact ⟨by simp [assign], fun _ => rfl⟩
  | cons present items ih =>
      rw [assign]
      split
      · have hcost : QueryItem.cost (present.1, item.2) < present.cost + item.cost := by
          show size present.1 + size item.2 + 2 < (size present.1 + size present.2 + 2) + (size item.1 + size item.2 + 2)
          omega
        simp only [List.map_cons, List.sum_cons]
        exact ⟨by omega, fun heq => by omega⟩
      · simp only [List.map_cons, List.sum_cons]
        exact ⟨by omega, fun heq => by rw [ih.2 (by omega)]; rfl⟩

/-- If the items that were read weigh what the components weigh, each component was read and appended. -/
theorem cost_parse (hreads : ReadsItems readItem) (components : List (List Char)) (items : List QueryItem) :
    let result := components.foldl (fun items component =>
      match readItem component with
      | some item => assign items item
      | none => items) items
    (result.map QueryItem.cost).sum ≤
        (items.map QueryItem.cost).sum + (components.map fun component => size component + 1).sum ∧
      ((result.map QueryItem.cost).sum =
          (items.map QueryItem.cost).sum + (components.map fun component => size component + 1).sum →
        ∃ read, result = items ++ read ∧ components = read.map QueryItem.text ∧
          ∀ item ∈ read, readItem item.text = some item) := by
  induction components generalizing items with
  | nil => exact ⟨Nat.le_refl _, fun _ => ⟨[], (List.append_nil items).symm, rfl, nofun⟩⟩
  | cons component components ih =>
      rw [List.map_cons, List.sum_cons, List.foldl_cons]
      cases hread : readItem component with
      | none =>
          dsimp only
          have hle := (ih items).1
          exact ⟨by omega, fun heq => by omega⟩
      | some item =>
          dsimp only
          obtain ⟨hle, hiff⟩ := ih (assign items item)
          obtain ⟨hassign, hassigned⟩ := cost_assign items item
          have hitem := hreads.cost_le hread
          refine ⟨by omega, fun heq => ?_⟩
          have happended := hassigned (by omega)
          have htext := hreads.text_eq hread (by omega)
          obtain ⟨read, hall, hcomponents, hitems⟩ := hiff (by omega)
          refine ⟨item :: read, ?_, ?_, List.forall_mem_cons.mpr ⟨htext ▸ hread, hitems⟩⟩
          · rw [hall, happended, List.append_assoc]
            rfl
          · rw [htext, hcomponents]
            rfl

theorem assign_of_distinct {items : List QueryItem} {item : QueryItem}
    (h : ∀ present ∈ items, ¬Equivalent present.1 item.1) : assign items item = items ++ [item] := by
  induction items with
  | nil => rfl
  | cons present items ih =>
      obtain ⟨hpresent, hitems⟩ := List.forall_mem_cons.mp h
      rw [assign, if_neg hpresent, ih hitems]
      rfl

/-- Components that are read to items with distinct keys -/
theorem parse_texts {items read : List QueryItem} (hread : ∀ item ∈ read, readItem item.text = some item)
    (hdistinct : (items ++ read).Pairwise fun left right => ¬Equivalent left.1 right.1) :
    (read.map QueryItem.text).foldl (fun items component =>
      match readItem component with
      | some item => assign items item
      | none => items) items = items ++ read := by
  induction read generalizing items with
  | nil => exact (List.append_nil items).symm
  | cons item read ih =>
      obtain ⟨hitem, hrest⟩ := List.forall_mem_cons.mp hread
      have hassoc : items ++ item :: read = (items ++ [item]) ++ read := by
        rw [List.append_assoc]
        rfl
      have hfresh : ∀ present ∈ items, ¬Equivalent present.1 item.1 := fun present hpresent =>
        (List.pairwise_append.mp hdistinct).2.2 present hpresent item List.mem_cons_self
      rw [List.map_cons, List.foldl_cons]
      simp only [hitem]
      rw [assign_of_distinct hfresh, hassoc]
      exact ih hrest (hassoc ▸ hdistinct)

/-- A dictionary comes back if each item is a component of the query, and is read from it. -/
theorem perm_parseQuery_iff (hreads : ReadsItems readItem) (dictionary : LinkDictionary) :
    (parseQuery rules readItem (queryText dictionary.items)).Perm dictionary.items ↔
      Splits rules dictionary.items ∧ ∀ item ∈ dictionary.items, readItem item.text = some item := by
  have hcost := cost_parse hreads (rules.parts '&' false (queryText dictionary.items)) []
  have hsize : ((rules.parts '&' false (queryText dictionary.items)).map fun part => size part + 1).sum =
      size (queryText dictionary.items) + 1 := Joining.sum_parts Char.utf8Size rfl
  rw [hsize] at hcost
  by_cases hitems : dictionary.items = []
  · rw [hitems]
    have hnone : readItem [] = none := by
      cases hread : readItem [] with
      | none => rfl
      | some item =>
          have hle : size item.1 + size item.2 + 2 ≤ 0 + 1 := hreads.cost_le hread
          omega
    have hparse : parseQuery rules readItem (queryText []) = [] := by
      show (match readItem [] with | some item => assign [] item | none => []) = []
      rw [hnone]
    rw [hparse]
    exact iff_of_true (List.Perm.refl []) ⟨⟨nofun, List.IsChain.nil⟩, nofun⟩
  · have hmap : dictionary.items.map QueryItem.text ≠ [] := fun hnil => hitems (List.map_eq_nil_iff.mp hnil)
    constructor
    · intro hperm
      have hsum : ((parseQuery rules readItem (queryText dictionary.items)).map QueryItem.cost).sum =
          (dictionary.items.map QueryItem.cost).sum := (hperm.map QueryItem.cost).sum_eq
      obtain ⟨read, hread, hparts, hitem⟩ := hcost.2 (by
        rw [size_queryText hitems, List.map_nil, List.sum_nil, Nat.zero_add]
        exact hsum)
      have hsame : read.Perm dictionary.items := by
        rw [List.nil_append] at hread
        rw [← hread]
        exact hperm
      have hwhole : ∀ text ∈ dictionary.items.map QueryItem.text, rules.parts '&' false text = [text] := by
        intro text htext
        have hpart : text ∈ rules.parts '&' false (queryText dictionary.items) := by
          rw [hparts]
          exact (hsame.map QueryItem.text).mem_iff.mpr htext
        exact Joining.parts_of_mem rules.ampersand.1 rules.ampersand.2 hpart
      have hlength : (rules.parts '&' false (queryText dictionary.items)).length =
          (dictionary.items.map QueryItem.text).length := by
        rw [hparts]
        exact (hsame.map QueryItem.text).length_eq
      have hchain := (Joining.parts_intercalate rules.ampersand.1 rules.ampersand.2 _ hmap hwhole).2.1.mp hlength
      refine ⟨⟨fun item hmem => ?_, isChain_texts.mp hchain⟩, fun item hmem => hitem item (hsame.mem_iff.mpr hmem)⟩
      exact Joining.parts_eq_singleton_iff.mp (hwhole item.text (List.mem_map_of_mem hmem))
    · rintro ⟨hsplits, hread⟩
      have hwhole : ∀ text ∈ dictionary.items.map QueryItem.text, rules.parts '&' false text = [text] := by
        intro text htext
        obtain ⟨item, hmem, rfl⟩ := List.mem_map.mp htext
        exact Joining.parts_eq_singleton_iff.mpr (hsplits.whole item hmem)
      have hparts := (Joining.parts_intercalate rules.ampersand.1 rules.ampersand.2 _ hmap hwhole).2.2
        (isChain_texts.mpr hsplits.apart)
      have hparse : parseQuery rules readItem (queryText dictionary.items) = [] ++ dictionary.items := by
        rw [parseQuery, queryText, hparts]
        exact parse_texts hread dictionary.distinct
      rw [hparse]
      exact List.Perm.refl _

end Costs

/-! ### When a dictionary comes back -/

section Links

variable [UnicodeVersion]

/-- No key or value has a percent sign, or a sign of the query that is a character of its own, and the signs that
are written between them are characters of their own. -/
structure LinkDictionary.IsPlain (rules : CharacterRules) (dictionary : LinkDictionary) : Prop where
  percent : ∀ item ∈ dictionary.items, '%' ∉ item.1 ∧ '%' ∉ item.2
  separators : ∀ item ∈ dictionary.items, ∀ sign ∈ ['&', '='],
    ¬rules.Separates sign false item.1 ∧ ¬rules.Separates sign false item.2
  equals : ∀ item ∈ dictionary.items, rules.joinsAfter false item.1 = false ∧ rules.startsApart item.2 = true
  ampersands : dictionary.items.IsChain fun left right =>
    rules.joinsAfter false left.2 = false ∧ rules.startsApart right.1 = true

/-- Both parsers give the dictionary that is written to a link exactly if the dictionary is plain. -/
theorem parseURL_linkTo_iff (rules : CharacterRules) (base : LinkBase) (encoding : QueryEncoding)
    (dictionary : LinkDictionary) :
    (AuthWebUtils.parseURL rules (linkTo base encoding dictionary.items)).Perm dictionary.items ∧
        (ActionCodeURL.parseURL rules (linkTo base encoding dictionary.items)).Perm dictionary.items ↔
      dictionary.IsPlain rules := by
  rw [AuthWebUtils.parseURL, ActionCodeURL.parseURL, urlQuery_linkTo]
  dsimp only
  rw [perm_parseQuery_iff AuthWebUtils.readsItems, perm_parseQuery_iff ActionCodeURL.readsItems]
  constructor
  · rintro ⟨⟨hsplits, -⟩, -, hread⟩
    have hplain := fun item hmem => (ActionCodeURL.readItem_text_iff (dictionary.nonempty item hmem)).mp (hread item hmem)
    refine ⟨fun item hmem => (hplain item hmem).1.percent, fun item hmem sign hsign => ?_,
      fun item hmem => (hplain item hmem).1.apart, hsplits.apart⟩
    rcases List.mem_pair.mp hsign with rfl | rfl
    · have hwhole := hsplits.whole item hmem
      rw [separates_text, not_or] at hwhole
      exact hwhole
    · exact ⟨(hplain item hmem).1.key, (hplain item hmem).2⟩
  · intro h
    have hequals := fun item hmem => h.separators item hmem '=' (by decide)
    have hplain : ∀ item ∈ dictionary.items, item.IsPlain rules := fun item hmem =>
      ⟨h.percent item hmem, (hequals item hmem).1, h.equals item hmem⟩
    have hsplits : Splits rules dictionary.items := by
      refine ⟨fun item hmem => ?_, h.ampersands⟩
      rw [separates_text, not_or]
      exact h.separators item hmem '&' (by decide)
    refine ⟨⟨hsplits, fun item hmem => AuthWebUtils.readItem_text_iff.mpr (hplain item hmem)⟩, hsplits,
      fun item hmem => ?_⟩
    exact (ActionCodeURL.readItem_text_iff (dictionary.nonempty item hmem)).mpr
      ⟨hplain item hmem, (hequals item hmem).2⟩

end Links

/-- Marks join with what is before them. -/
def markRules : CharacterRules where
  extending := isMark
  prepending := fun _ => false
  equals := ⟨by decide, rfl⟩
  ampersand := ⟨by decide, rfl⟩

section Links

variable [UnicodeVersion]

/-- A continue URL that has a query of its own -/
def continueDictionary : LinkDictionary where
  items := [("continueUrl".toList, "https://a/?b=c&d=e".toList)]
  distinct := List.pairwise_singleton _ _
  nonempty := by decide

theorem continue_url_is_cut_in_version : ¬∀ (rules : CharacterRules) (base : LinkBase) (encoding : QueryEncoding)
    (dictionary : LinkDictionary),
    (AuthWebUtils.parseURL rules (linkTo base encoding dictionary.items)).Perm dictionary.items ∧
      (ActionCodeURL.parseURL rules (linkTo base encoding dictionary.items)).Perm dictionary.items := by
  intro hall
  have hperm := (hall markRules ⟨"https://b/".toList, by decide⟩ ⟨⟨Char.isAlphanum, rfl⟩, rfl, rfl, rfl⟩
    continueDictionary).1
  rw [AuthWebUtils.parseURL, urlQuery_linkTo] at hperm
  obtain ⟨hsplits, -⟩ := (perm_parseQuery_iff AuthWebUtils.readsItems continueDictionary).mp hperm
  refine hsplits.whole _ List.mem_cons_self (separates_text.mpr (.inr ?_))
  exact ⟨"https://a/?b=c".toList, "d=e".toList, by decide, by decide, by decide⟩

end Links

/-- A value with an `&` is cut there. -/
theorem continue_url_is_cut : ¬∀ [UnicodeVersion] (rules : CharacterRules) (base : LinkBase)
    (encoding : QueryEncoding) (dictionary : LinkDictionary),
    (AuthWebUtils.parseURL rules (linkTo base encoding dictionary.items)).Perm dictionary.items ∧
      (ActionCodeURL.parseURL rules (linkTo base encoding dictionary.items)).Perm dictionary.items :=
  fun hall => @continue_url_is_cut_in_version marksOnly (@hall marksOnly)

end FirebaseSwift.Auth
