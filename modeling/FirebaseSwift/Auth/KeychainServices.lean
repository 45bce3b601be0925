import FirebaseSwift.Library.StepRuns
import Mathlib.Data.List.Basic

/-! The keychain store. Values are stored under a prefixed account with a service, and earlier versions stored them
under the key alone: a read moves such a legacy item to the current form, and a removal deletes both. Whether a
legacy item could be deleted is not looked at. What is read is what was stored last as long as the deletions of
legacy items work, and no key is the account of another item. -/

namespace FirebaseSwift.Auth

open StepRuns

/-- A generic password item -/
structure KeychainEntry where
  account : String
  service : Option String
  data : List UInt8

abbrev OSStatus := Int

def noErr : OSStatus := 0
def errSecItemNotFound : OSStatus := -25300
def errSecDuplicateItem : OSStatus := -25299
def errSecInteractionNotAllowed : OSStatus := -25308

/-- The status of a call that fails -/
structure FailureStatus where
  status : OSStatus
  fails : status ≠ noErr ∧ status ≠ errSecItemNotFound ∧ status ≠ errSecDuplicateItem

/-- How a lookup fails. While the device is locked it can say that there is no item. -/
inductive LookupFailure where
  | status (failure : FailureStatus)
  | notFoundWhileLocked

/-- Which keychain calls of an operation fail -/
structure KeychainCalls where
  lookup : Option LookupFailure := none
  check : Option FailureStatus := none
  legacyLookup : Option LookupFailure := none
  legacyCheck : Option FailureStatus := none
  add : Option FailureStatus := none
  update : Option FailureStatus := none
  delete : Option FailureStatus := none
  deleteLegacy : Option FailureStatus := none

structure KeychainError where
  function : String
  status : OSStatus
deriving DecidableEq

/-- A query for an account, and for a service if one is given -/
structure KeychainQuery where
  account : String
  service : Option String

def KeychainQuery.selects (query : KeychainQuery) (account : String) (service : Option String) : Bool :=
  account == query.account && (query.service.isNone || service == query.service)

/-- New data for an item that is selected -/
def KeychainQuery.update (query : KeychainQuery) (data : List UInt8) (entry : KeychainEntry) : KeychainEntry :=
  if query.selects entry.account entry.service then { entry with data := data } else entry

/-- A key that is not empty -/
abbrev KeychainKey := { key : String // key ≠ "" }

def kAccountPrefix : String := "firebase_auth_1_"

def accessibilityCheckKey : String := "firebase_auth_keychain_accessibility_check"

structure AuthKeychainServices where
  service : String
  keychain : List KeychainEntry
  legacyEntryDeletedForKey : List String := []

namespace AuthKeychainServices

section Operations

variable (self : AuthKeychainServices)

def genericPasswordQuery (key : String) : KeychainQuery := ⟨kAccountPrefix ++ key, some self.service⟩

def legacyGenericPasswordQuery (key : String) : KeychainQuery := ⟨key, none⟩

def selected (query : KeychainQuery) : List KeychainEntry :=
  self.keychain.filter fun entry => query.selects entry.account entry.service

/-- The check adds an item, unless it is there. -/
def isKeychainAccessible (check : Option FailureStatus) : Bool × AuthKeychainServices :=
  match check with
  | some failure => (decide (failure.status ≠ errSecInteractionNotAllowed), self)
  | none =>
      if self.selected ⟨accessibilityCheckKey, some self.service⟩ = [] then
        (true, { self with keychain := self.keychain ++ [⟨accessibilityCheckKey, some self.service, [0]⟩] })
      else (true, self)

/-- `item(query:)`. Of two items one with a service is taken. -/
def item (query : KeychainQuery) (lookup : Option LookupFailure) (check : Option FailureStatus) :
    Except KeychainError (Option (List UInt8)) × AuthKeychainServices :=
  match lookup with
  | some (.status failure) => (.error ⟨"SecItemCopyMatching", failure.status⟩, self)
  | some .notFoundWhileLocked => (.error ⟨"SecItemCopyMatching", errSecInteractionNotAllowed⟩, self)
  | none =>
      match (self.selected query).take 2 with
      | first :: rest =>
          (.ok (some (((first :: rest).find? fun entry => entry.service.isSome).getD first).data), self)
      | [] =>
          let accessible := self.isKeychainAccessible check
          if accessible.1 then (.ok none, accessible.2)
          else (.error ⟨"SecItemCopyMatching", errSecInteractionNotAllowed⟩, accessible.2)

/-- `setItem(query:attributes:)`, for the current form -/
def setItem (key : String) (data : List UInt8) (calls : KeychainCalls) :
    Except KeychainError Unit × AuthKeychainServices :=
  let query := self.genericPasswordQuery key
  match calls.add with
  | some failure => (.error ⟨"SecItemAdd", failure.status⟩, self)
  | none =>
      if self.selected query = [] then
        (.ok (), { self with keychain := self.keychain ++ [⟨kAccountPrefix ++ key, some self.service, data⟩] })
      else
        match calls.update with
        | some failure => (.error ⟨"SecItemUpdate", failure.status⟩, self)
        | none => (.ok (), { self with keychain := self.keychain.map (query.update data) })

def deleteItem (query : KeychainQuery) (delete : Option FailureStatus) :
    Except KeychainError Unit × AuthKeychainServices :=
  match delete with
  | some failure => (.error ⟨"SecItemDelete", failure.status⟩, self)
  | none =>
      (.ok (), { self with keychain := self.keychain.filter fun entry => !query.selects entry.account entry.service })

/-- Whether the deletion fails is not looked at. -/
def deleteLegacyItem (key : String) (deleteLegacy : Option FailureStatus) : AuthKeychainServices :=
  if key ∈ self.legacyEntryDeletedForKey then self
  else
    { (self.deleteItem (legacyGenericPasswordQuery key) deleteLegacy).2 with
      legacyEntryDeletedForKey := key :: self.legacyEntryDeletedForKey }

def setData (data : List UInt8) (key : KeychainKey) (calls : KeychainCalls) :
    Except KeychainError Unit × AuthKeychainServices := self.setItem key.1 data calls

def data (key : KeychainKey) (calls : KeychainCalls) :
    Except KeychainError (Option (List UInt8)) × AuthKeychainServices :=
  match self.item (self.genericPasswordQuery key.1) calls.lookup calls.check with
  | (.error error, self) => (.error error, self)
  | (.ok (some data), self) => (.ok (some data), self)
  | (.ok none, self) =>
      if key.1 ∈ self.legacyEntryDeletedForKey then (.ok none, self)
      else
        match self.item (legacyGenericPasswordQuery key.1) calls.legacyLookup calls.legacyCheck with
        | (.error error, self) => (.error error, self)
        | (.ok (some data), self) =>
            match self.setData data key calls with
            | (.error error, self) => (.error error, self)
            | (.ok (), self) => (.ok (some data), self.deleteLegacyItem key.1 calls.deleteLegacy)
        | (.ok none, self) =>
            (.ok none, { self with legacyEntryDeletedForKey := key.1 :: self.legacyEntryDeletedForKey })

def removeData (key : KeychainKey) (calls : KeychainCalls) : Except KeychainError Unit × AuthKeychainServices :=
  match self.deleteItem (self.genericPasswordQuery key.1) calls.delete with
  | (.error error, self) => (.error error, self)
  | (.ok (), self) => (.ok (), self.deleteLegacyItem key.1 calls.deleteLegacy)

/-- A new instance on the same keychain -/
def restart : AuthKeychainServices := { self with legacyEntryDeletedForKey := [] }

end Operations

/-! ### What is stored -/

/-- The data of the first item with an account and a service -/
def find (keychain : List KeychainEntry) (account : String) (service : Option String) : Option (List UInt8) :=
  (keychain.find? fun entry => entry.account == account && entry.service == service).map KeychainEntry.data

/-- The current form of a key's value -/
def current (self : AuthKeychainServices) (key : String) : Option (List UInt8) :=
  find self.keychain (kAccountPrefix ++ key) (some self.service)

def legacy (self : AuthKeychainServices) (key : String) : Option (List UInt8) := find self.keychain key none

/-- What is stored for a key -/
def value (self : AuthKeychainServices) (key : String) : Option (List UInt8) := (self.current key).or (self.legacy key)

section Finding

variable {keychain : List KeychainEntry} {account : String} {service : Option String}
variable (entry : KeychainEntry) (query : KeychainQuery)

theorem find_cons : find (entry :: keychain) account service =
    if entry.account = account ∧ entry.service = service then some entry.data else find keychain account service := by
  rw [find, List.find?_cons]
  by_cases hsame : entry.account = account ∧ entry.service = service
  · rw [if_pos hsame, hsame.1, hsame.2, beq_self_eq_true, beq_self_eq_true]
    rfl
  · rw [if_neg hsame]
    have hne : (entry.account == account && entry.service == service) = false := by
      rw [Bool.and_eq_false_iff]
      rcases not_and_or.mp hsame with haccount | hservice
      · exact .inl (beq_false_of_ne haccount)
      · exact .inr (beq_false_of_ne hservice)
    rw [hne]
    rfl

theorem find_append : find (keychain ++ [entry]) account service = (find keychain account service).or
      (if entry.account = account ∧ entry.service = service then some entry.data else none) := by
  induction keychain with
  | nil => exact find_cons entry
  | cons first keychain ih =>
      rw [List.cons_append, find_cons, find_cons, ih]
      split
      · rfl
      · rfl

theorem find_delete :
    find (keychain.filter fun entry => !query.selects entry.account entry.service) account service =
      if query.selects account service then none else find keychain account service := by
  induction keychain with
  | nil => exact (ite_self none).symm
  | cons first keychain ih =>
      rw [find_cons]
      cases hselects : query.selects first.account first.service with
      | true =>
          rw [List.filter_cons_of_neg (by rw [hselects]; exact Bool.false_ne_true), ih]
          split
          · rfl
          · rename_i hnot
            rw [if_neg]
            rintro ⟨rfl, rfl⟩
            exact hnot hselects
      | false =>
          rw [List.filter_cons_of_pos (by rw [hselects]; rfl), find_cons, ih]
          by_cases hsame : first.account = account ∧ first.service = service
          · have hnot : ¬query.selects account service = true := by
              rw [← hsame.1, ← hsame.2, hselects]
              exact Bool.false_ne_true
            rw [if_pos hsame, if_neg hnot, if_pos hsame]
          · rw [if_neg hsame, if_neg hsame]

theorem find_update (data : List UInt8) : find (keychain.map (query.update data)) account service =
      if query.selects account service then (find keychain account service).map fun _ => data
      else find keychain account service := by
  induction keychain with
  | nil => exact (ite_self none).symm
  | cons first keychain ih =>
      have hkept : (query.update data first).account = first.account ∧ (query.update data first).service = first.service := by
        rw [KeychainQuery.update]
        split <;> exact ⟨rfl, rfl⟩
      rw [List.map_cons, find_cons, find_cons, ih, hkept.1, hkept.2]
      by_cases hsame : first.account = account ∧ first.service = service
      · rw [if_pos hsame, if_pos hsame, KeychainQuery.update, hsame.1, hsame.2]
        split <;> rfl
      · rw [if_neg hsame, if_neg hsame]

/-- The first item that a query for a service selects -/
theorem head_selected (self : AuthKeychainServices) (account service : String) :
    (self.selected ⟨account, some service⟩).head?.map KeychainEntry.data = find self.keychain account (some service) := by
  rw [selected, List.head?_filter, find]
  rfl

end Finding

/-! ### What the steps of an operation do -/

/-- Nothing that is stored for a key is different, at most the item of the check is there. -/
structure Unchanging (before after : AuthKeychainServices) : Prop where
  service : after.service = before.service
  cache : after.legacyEntryDeletedForKey = before.legacyEntryDeletedForKey
  find : ∀ account service, account ≠ accessibilityCheckKey ∨ service = none →
    find after.keychain account service = find before.keychain account service

/-- Items are legacy items, or ours. -/
def Own (self : AuthKeychainServices) : Prop :=
  ∀ entry ∈ self.keychain, entry.service = none ∨ entry.service = some self.service ∧
    (entry.account = accessibilityCheckKey ∨ ∃ key, entry.account = kAccountPrefix ++ key)

variable {self : AuthKeychainServices}

theorem Unchanging.refl (self : AuthKeychainServices) : Unchanging self self := ⟨rfl, rfl, fun _ _ _ => rfl⟩

/-- The accounts of values and that of the check are different. -/
theorem account_ne_check (key : String) : kAccountPrefix ++ key ≠ accessibilityCheckKey := by
  intro heq
  have hlists := congrArg (fun text : String => (text.toList.take 15)) heq
  rw [String.toList_append, List.take_append_of_le_length (by decide)] at hlists
  exact absurd hlists (by decide)

variable {key : String} (query : KeychainQuery) {lookup : Option LookupFailure} {check : Option FailureStatus}
variable {result : Option (List UInt8)} {calls : KeychainCalls}

theorem account_injective {key' : String} (h : kAccountPrefix ++ key = kAccountPrefix ++ key') : key = key' := by
  have hlists := congrArg String.toList h
  rw [String.toList_append, String.toList_append] at hlists
  exact String.toList_injective (List.append_cancel_left hlists)

theorem Unchanging.current {before after : AuthKeychainServices} (h : Unchanging before after) (key : String) :
    after.current key = before.current key := by
  rw [AuthKeychainServices.current, AuthKeychainServices.current, h.service]
  exact h.find _ _ (.inl (account_ne_check key))

theorem Unchanging.legacy {before after : AuthKeychainServices} (h : Unchanging before after) (key : String) :
    after.legacy key = before.legacy key := h.find _ _ (.inr rfl)

theorem unchanging_isKeychainAccessible (check : Option FailureStatus) :
    Unchanging self (self.isKeychainAccessible check).2 := by
  cases check with
  | some failure => exact Unchanging.refl self
  | none =>
      rw [isKeychainAccessible]
      split
      · refine ⟨rfl, rfl, fun account service h => ?_⟩
        rw [find_append, if_neg, Option.or_none]
        rintro ⟨haccount, hservice⟩
        rcases h with hne | hnone
        · exact hne haccount.symm
        · rw [← hservice] at hnone
          cases hnone
      · exact Unchanging.refl self

theorem own_isKeychainAccessible (h : self.Own) (check : Option FailureStatus) :
    (self.isKeychainAccessible check).2.Own := by
  cases check with
  | some failure => exact h
  | none =>
      rw [isKeychainAccessible]
      split
      · intro entry hentry
        rcases List.mem_append.mp hentry with hmem | hmem
        · exact h entry hmem
        · rw [List.mem_singleton.mp hmem]
          exact .inr ⟨rfl, .inl rfl⟩
      · exact h

theorem head?_of_take {entries rest : List KeychainEntry} {first : KeychainEntry} (h : entries.take 2 = first :: rest) :
    entries.head? = some first := by
  have hhead := congrArg List.head? h
  rw [List.head?_take, if_neg (by decide)] at hhead
  exact hhead

/-- A lookup changes nothing, and gives the first item or the first one with a service. -/
theorem item_cases (lookup : Option LookupFailure) (check : Option FailureStatus) :
    (∃ error later, self.item query lookup check = (.error error, later) ∧
        (later = self ∨ later = (self.isKeychainAccessible check).2)) ∨
      (∃ first rest, (self.selected query).take 2 = first :: rest ∧ self.item query lookup check =
        (.ok (some (((first :: rest).find? fun entry => entry.service.isSome).getD first).data), self)) ∨
      (self.selected query = [] ∧
        self.item query lookup check = (.ok none, (self.isKeychainAccessible check).2)) := by
  rcases lookup with _ | ⟨failure⟩ | _
  · rw [item]
    cases hselected : (self.selected query).take 2 with
    | cons first rest => exact .inr (.inl ⟨first, rest, rfl, rfl⟩)
    | nil =>
        have hnil : self.selected query = [] := by
          rcases List.take_eq_nil_iff.mp hselected with htwo | hnil
          · cases htwo
          · exact hnil
        dsimp only
        split
        · exact .inr (.inr ⟨hnil, rfl⟩)
        · exact .inl ⟨_, _, rfl, .inr rfl⟩
  · exact .inl ⟨_, _, rfl, .inl rfl⟩
  · exact .inl ⟨_, _, rfl, .inl rfl⟩

theorem unchanging_item (lookup : Option LookupFailure) (check : Option FailureStatus) :
    Unchanging self (self.item query lookup check).2 := by
  rcases @item_cases self query lookup check with ⟨error, later, heq, rfl | rfl⟩ | ⟨first, rest, -, heq⟩ | ⟨-, heq⟩
  · rw [heq]
    exact Unchanging.refl _
  · rw [heq]
    exact unchanging_isKeychainAccessible check
  · rw [heq]
    exact Unchanging.refl self
  · rw [heq]
    exact unchanging_isKeychainAccessible check

theorem own_item (h : self.Own) (query : KeychainQuery) (lookup : Option LookupFailure) (check : Option FailureStatus) :
    (self.item query lookup check).2.Own := by
  rcases @item_cases self query lookup check with ⟨error, later, heq, rfl | rfl⟩ | ⟨first, rest, -, heq⟩ | ⟨-, heq⟩
  · rw [heq]
    exact h
  · rw [heq]
    exact own_isKeychainAccessible h check
  · rw [heq]
    exact h
  · rw [heq]
    exact own_isKeychainAccessible h check

/-- A lookup in the current form gives what is stored in it. -/
theorem item_current (h : (self.item (self.genericPasswordQuery key) lookup check).1 = .ok result) :
    result = self.current key := by
  have hhead := head_selected self (kAccountPrefix ++ key) self.service
  rw [current, ← hhead]
  rcases @item_cases self (self.genericPasswordQuery key) lookup check with
    ⟨error, later, heq, -⟩ | ⟨first, rest, htake, heq⟩ | ⟨hnil, heq⟩
  · rw [heq] at h
    cases h
  · rw [heq] at h
    cases h
    have hfirst := head?_of_take htake
    have hselected : first ∈ self.selected (self.genericPasswordQuery key) := List.mem_of_head? hfirst
    have hservice : first.service.isSome = true := by
      have hselects := (List.mem_filter.mp hselected).2
      rw [KeychainQuery.selects, genericPasswordQuery, Bool.and_eq_true] at hselects
      have hsame : first.service = some self.service := eq_of_beq hselects.2
      rw [hsame]
      rfl
    have hhead : (self.selected ⟨kAccountPrefix ++ key, some self.service⟩).head? = some first := hfirst
    have hfind : (first :: rest).find? (fun entry => entry.service.isSome) = some first :=
      List.find?_cons_of_pos hservice
    rw [hhead, hfind]
    rfl
  · rw [heq] at h
    cases h
    have hnil : self.selected ⟨kAccountPrefix ++ key, some self.service⟩ = [] := hnil
    rw [hnil]
    rfl

/-- A lookup without a service gives the legacy item if no other item has the account. -/
theorem item_legacy (hfree : ∀ entry ∈ self.keychain, entry.account = key → entry.service = none)
    (h : (self.item (legacyGenericPasswordQuery key) lookup check).1 = .ok result) : result = self.legacy key := by
  have hselects : ∀ entry ∈ self.keychain, (legacyGenericPasswordQuery key).selects entry.account entry.service =
      (entry.account == key && entry.service == none) := by
    intro entry hentry
    cases haccount : entry.account == key with
    | false =>
        show (entry.account == key && true) = _
        rw [haccount]
        rfl
    | true =>
        rw [hfree entry hentry (eq_of_beq haccount)]
        show (entry.account == key && true) = _
        rw [haccount]
        rfl
  have hselected : (self.selected (legacyGenericPasswordQuery key)).head?.map KeychainEntry.data = self.legacy key := by
    rw [selected, List.filter_congr hselects, List.head?_filter]
    rfl
  rw [← hselected]
  rcases @item_cases self (legacyGenericPasswordQuery key) lookup check with
    ⟨error, later, heq, -⟩ | ⟨first, rest, htake, heq⟩ | ⟨hnil, heq⟩
  · rw [heq] at h
    cases h
  · rw [heq] at h
    cases h
    have hfirst := head?_of_take htake
    have hnone : (first :: rest).find? (fun entry => entry.service.isSome) = none := by
      rw [List.find?_eq_none]
      intro entry hentry
      rw [← htake] at hentry
      obtain ⟨hmem, hselect⟩ := List.mem_filter.mp (List.mem_of_mem_take hentry)
      rw [hselects entry hmem, Bool.and_eq_true] at hselect
      rw [eq_of_beq hselect.2]
      exact Bool.false_ne_true
    rw [hfirst, hnone]
    rfl
  · rw [heq] at h
    cases h
    rw [hnil]
    rfl

/-- The current form of a key, as a place in the keychain -/
def IsCurrent (self : AuthKeychainServices) (key account : String) (service : Option String) : Prop :=
  account = kAccountPrefix ++ key ∧ service = some self.service

theorem selects_current {account : String} {service : Option String} :
    (self.genericPasswordQuery key).selects account service = true ↔ self.IsCurrent key account service := by
  rw [KeychainQuery.selects, genericPasswordQuery, Bool.and_eq_true, beq_iff_eq, IsCurrent]
  show _ ∧ (service == some self.service) = true ↔ _
  rw [beq_iff_eq]

theorem selects_legacy {account : String} {service : Option String} :
    (legacyGenericPasswordQuery key).selects account service = true ↔ account = key := by
  show (account == key && true) = true ↔ _
  rw [Bool.and_true, beq_iff_eq]

/-- A call that throws changes nothing, and one that does not stores the data for the key. -/
theorem setItem_cases (key : String) (data : List UInt8) (calls : KeychainCalls) :
    (∃ error, self.setItem key data calls = (.error error, self)) ∨
      ∃ keychain, self.setItem key data calls = (.ok (), { self with keychain := keychain }) ∧
        (∀ account service, (self.IsCurrent key account service → find keychain account service = some data) ∧
          (¬self.IsCurrent key account service → find keychain account service = find self.keychain account service)) ∧
        (self.Own → ({ self with keychain := keychain } : AuthKeychainServices).Own) := by
  rw [setItem]
  cases calls.add with
  | some failure => exact .inl ⟨_, rfl⟩
  | none =>
      dsimp only
      split
      · rename_i hnone
        refine .inr ⟨_, rfl, fun account service => ⟨?_, fun hnot => ?_⟩, fun hown entry hentry => ?_⟩
        · rintro ⟨rfl, rfl⟩
          have hmissing : find self.keychain (kAccountPrefix ++ key) (some self.service) = none := by
            have hnone : self.selected ⟨kAccountPrefix ++ key, some self.service⟩ = [] := hnone
            rw [← head_selected, hnone]
            rfl
          rw [find_append, hmissing, if_pos ⟨rfl, rfl⟩]
          rfl
        · rw [find_append, if_neg fun hsame => hnot ⟨hsame.1.symm, hsame.2.symm⟩, Option.or_none]
        · rcases List.mem_append.mp hentry with hmem | hmem
          · exact hown entry hmem
          · rw [List.mem_singleton.mp hmem]
            exact .inr ⟨rfl, .inr ⟨key, rfl⟩⟩
      · rename_i hsome
        cases calls.update with
        | some failure => exact .inl ⟨_, rfl⟩
        | none =>
            refine .inr ⟨_, rfl, fun account service => ⟨?_, fun hnot => ?_⟩, fun hown entry hentry => ?_⟩
            · rintro ⟨rfl, rfl⟩
              have hhead := head_selected self (kAccountPrefix ++ key) self.service
              rw [find_update, if_pos (selects_current.mpr ⟨rfl, rfl⟩), ← hhead]
              cases hfirst : (self.selected ⟨kAccountPrefix ++ key, some self.service⟩).head? with
              | none => exact absurd (List.head?_eq_none_iff.mp hfirst) hsome
              | some first => rfl
            · rw [find_update, if_neg fun hselects => hnot (selects_current.mp hselects)]
            · obtain ⟨old, hold, rfl⟩ := List.mem_map.mp hentry
              rw [KeychainQuery.update]
              split <;> exact hown old hold

theorem deleteItem_cases (delete : Option FailureStatus) :
    (∃ error, self.deleteItem query delete = (.error error, self) ∧ delete ≠ none) ∨
      delete = none ∧ ∃ keychain, self.deleteItem query delete = (.ok (), { self with keychain := keychain }) ∧
        (∀ account service, find keychain account service =
          if query.selects account service then none else find self.keychain account service) ∧
        (self.Own → ({ self with keychain := keychain } : AuthKeychainServices).Own) := by
  cases delete with
  | some failure => exact .inl ⟨_, rfl, Option.some_ne_none _⟩
  | none =>
      exact .inr ⟨rfl, _, rfl, fun account service => find_delete query, fun hown entry hentry =>
        hown entry (List.mem_filter.mp hentry).1⟩

/-- No item in the current form has the key as its account. -/
def KeyIsFree (self : AuthKeychainServices) (key : String) : Prop :=
  ∀ other, key = kAccountPrefix ++ other → self.current other = none

/-- Where legacy items are deleted as they should, no legacy item of the key is left and nothing else is gone. -/
theorem deleteLegacyItem_spec {deleteLegacy : Option FailureStatus} (hown : self.Own)
    (hcached : ∀ key ∈ self.legacyEntryDeletedForKey, self.legacy key = none)
    (hsafe : key ∉ self.legacyEntryDeletedForKey → (self.legacy key = none ∨ deleteLegacy = none) ∧ self.KeyIsFree key)
    : (∀ other, (self.deleteLegacyItem key deleteLegacy).current other = self.current other) ∧
      (∀ other, (self.deleteLegacyItem key deleteLegacy).legacy other = if other = key then none else self.legacy other) ∧
      (∀ other ∈ (self.deleteLegacyItem key deleteLegacy).legacyEntryDeletedForKey,
        (self.deleteLegacyItem key deleteLegacy).legacy other = none) ∧
      (self.deleteLegacyItem key deleteLegacy).Own := by
  by_cases hmem : key ∈ self.legacyEntryDeletedForKey
  · rw [deleteLegacyItem, if_pos hmem]
    refine ⟨fun _ => rfl, fun other => ?_, hcached, hown⟩
    split
    · rename_i hother
      rw [hother, hcached key hmem]
    · rfl
  · obtain ⟨hlegacy, hfree⟩ := hsafe hmem
    have hcurrent : ∀ other, (self.deleteLegacyItem key deleteLegacy).current other = self.current other := by
      intro other
      rw [deleteLegacyItem, if_neg hmem]
      rcases @deleteItem_cases self (legacyGenericPasswordQuery key) deleteLegacy with
        ⟨error, heq, -⟩ | ⟨-, keychain, heq, hfind, -⟩
      · rw [heq]
        rfl
      · rw [heq]
        show find keychain (kAccountPrefix ++ other) (some self.service) = _
        rw [hfind]
        split
        · rename_i hselects
          exact (hfree other (selects_legacy.mp hselects).symm).symm
        · rfl
    have hlegacies : ∀ other, (self.deleteLegacyItem key deleteLegacy).legacy other =
        if other = key then none else self.legacy other := by
      intro other
      rw [deleteLegacyItem, if_neg hmem]
      rcases @deleteItem_cases self (legacyGenericPasswordQuery key) deleteLegacy with
        ⟨error, heq, hfails⟩ | ⟨-, keychain, heq, hfind, -⟩
      · rw [heq]
        show self.legacy other = _
        split
        · rename_i hother
          rw [hother]
          exact hlegacy.resolve_right hfails
        · rfl
      · rw [heq]
        show find keychain other none = _
        rw [hfind]
        by_cases hother : other = key
        · rw [if_pos (selects_legacy.mpr hother), if_pos hother]
        · rw [if_neg fun hselects => hother (selects_legacy.mp hselects), if_neg hother]
          rfl
    refine ⟨hcurrent, hlegacies, fun other hother => ?_, ?_⟩
    · rw [hlegacies]
      split
      · rfl
      · rename_i hne
        rw [deleteLegacyItem, if_neg hmem] at hother
        have hold : other ∈ self.legacyEntryDeletedForKey := (List.mem_cons.mp hother).resolve_left hne
        exact hcached other hold
    · rw [deleteLegacyItem, if_neg hmem]
      rcases @deleteItem_cases self (legacyGenericPasswordQuery key) deleteLegacy with
        ⟨error, heq, -⟩ | ⟨-, keychain, heq, -, hkept⟩
      · rw [heq]
        exact hown
      · rw [heq]
        exact hkept hown

/-! ### What an operation does -/

/-- The items are legacy items or ours, and where a legacy item is known to be deleted there is none. -/
structure Sound (store : AuthKeychainServices) : Prop where
  own : store.Own
  cached : ∀ key ∈ store.legacyEntryDeletedForKey, store.legacy key = none

theorem Unchanging.value {before after : AuthKeychainServices} (h : Unchanging before after) (key : String) :
    after.value key = before.value key := by
  rw [AuthKeychainServices.value, AuthKeychainServices.value, h.current, h.legacy]

theorem Sound.of_unchanging {before after : AuthKeychainServices} (h : before.Sound) (hunchanging : Unchanging before after)
    (hown : after.Own) : after.Sound := by
  refine ⟨hown, fun key hkey => ?_⟩
  rw [hunchanging.legacy]
  exact h.cached key (hunchanging.cache ▸ hkey)

/-- The items with the account of a free key are legacy items. -/
theorem service_eq_none {before after : AuthKeychainServices} (hunchanging : Unchanging before after)
    (hown : after.Own) (hfree : before.KeyIsFree key) (hcheck : key ≠ accessibilityCheckKey) :
    ∀ entry ∈ after.keychain, entry.account = key → entry.service = none := by
  intro entry hentry haccount
  rcases hown entry hentry with hnone | ⟨hservice, hcheckKey | ⟨other, hother⟩⟩
  · exact hnone
  · exact absurd (haccount.symm.trans hcheckKey) hcheck
  · have hnone := hfree other (haccount.symm.trans hother)
    rw [← hunchanging.current, current, AuthKeychainServices.find, Option.map_eq_none_iff, List.find?_eq_none] at hnone
    refine absurd ?_ (hnone entry hentry)
    rw [hother, hservice, beq_self_eq_true, beq_self_eq_true]
    rfl

/-- What a successful `setItem` does to the values -/
theorem value_set {data : List UInt8} {keychain : List KeychainEntry}
    (hfind : ∀ account service, (self.IsCurrent key account service → find keychain account service = some data) ∧
      (¬self.IsCurrent key account service → find keychain account service = find self.keychain account service)) :
    (∀ other, ({ self with keychain := keychain } : AuthKeychainServices).current other =
        if other = key then some data else self.current other) ∧
      ∀ other, ({ self with keychain := keychain } : AuthKeychainServices).legacy other = self.legacy other := by
  constructor
  · intro other
    show find keychain (kAccountPrefix ++ other) (some self.service) = _
    by_cases hother : other = key
    · rw [if_pos hother]
      exact (hfind _ _).1 ⟨by rw [hother], rfl⟩
    · rw [if_neg hother]
      exact (hfind _ _).2 fun hcurrent => hother (account_injective hcurrent.1)
  · intro other
    exact (hfind other none).2 fun hcurrent => nomatch hcurrent.2

/-- What is safe to read: the legacy item, if it is looked for, can be deleted, and no other item is taken for it. -/
def SafeToRead (self : AuthKeychainServices) (key : String) (calls : KeychainCalls) : Prop :=
  self.current key = none → key ∉ self.legacyEntryDeletedForKey →
    ((self.legacy key = none ∨ calls.deleteLegacy = none) ∧ self.KeyIsFree key) ∧ key ≠ accessibilityCheckKey

def SafeToRemove (self : AuthKeychainServices) (key : String) (calls : KeychainCalls) : Prop :=
  calls.delete = none → key ∉ self.legacyEntryDeletedForKey →
    (self.legacy key = none ∨ calls.deleteLegacy = none) ∧ self.KeyIsFree key

theorem prefix_ne (key : String) : key ≠ kAccountPrefix ++ key := by
  intro heq
  have hlength := congrArg (fun text : String => text.toList.length) heq
  rw [String.toList_append, List.length_append] at hlength
  have hpos : 0 < kAccountPrefix.toList.length := by decide
  omega

/-- A read gives what is stored and keeps it. -/
theorem data_spec (hsound : self.Sound) {key : KeychainKey} (hsafe : self.SafeToRead key.1 calls) :
    (∀ result, (self.data key calls).1 = .ok result → result = self.value key.1) ∧
      (∀ other, (self.data key calls).2.value other = self.value other) ∧ (self.data key calls).2.Sound := by
  have hunchanging := @unchanging_item self (self.genericPasswordQuery key.1) calls.lookup calls.check
  have hown := own_item hsound.own (self.genericPasswordQuery key.1) calls.lookup calls.check
  have hresult := @item_current self key.1 calls.lookup calls.check
  rw [data]
  generalize self.item (self.genericPasswordQuery key.1) calls.lookup calls.check = looked at hunchanging hown hresult
  obtain ⟨error | _ | data, found⟩ := looked
  · exact ⟨nofun, hunchanging.value, hsound.of_unchanging hunchanging hown⟩
  · have hcurrent : self.current key.1 = none := (hresult rfl).symm
    dsimp only at hunchanging hown ⊢
    have hfound := hsound.of_unchanging hunchanging hown
    split
    · rename_i hcached
      refine ⟨fun result heq => ?_, hunchanging.value, hfound⟩
      cases heq
      rw [value, hcurrent, hsound.cached key.1 (hunchanging.cache ▸ hcached)]
      rfl
    · rename_i hasked
      obtain ⟨⟨hlegacy, hfree⟩, hcheck⟩ := hsafe hcurrent (hunchanging.cache ▸ hasked)
      have hunchanging' := @unchanging_item found (legacyGenericPasswordQuery key.1) calls.legacyLookup calls.legacyCheck
      have hown' := own_item hown (legacyGenericPasswordQuery key.1) calls.legacyLookup calls.legacyCheck
      have hresult' := @item_legacy found key.1 calls.legacyLookup calls.legacyCheck
      generalize found.item (legacyGenericPasswordQuery key.1) calls.legacyLookup calls.legacyCheck = looked
        at hunchanging' hown' hresult'
      have hvalues : ∀ other, looked.2.value other = self.value other := fun other =>
        (hunchanging'.value other).trans (hunchanging.value other)
      have hsound' := hfound.of_unchanging hunchanging' hown'
      have hnone := service_eq_none hunchanging hown hfree hcheck
      obtain ⟨error | _ | data, later⟩ := looked
      · exact ⟨nofun, hvalues, hsound'⟩
      · have hmissing : self.legacy key.1 = none := by
          rw [← hunchanging.legacy]
          exact (hresult' hnone rfl).symm
        refine ⟨fun result heq => ?_, hvalues, hown', fun other hother => ?_⟩
        · cases heq
          rw [value, hcurrent, hmissing]
          rfl
        · show later.legacy other = none
          rcases List.mem_cons.mp hother with rfl | hmem
          · exact (hunchanging'.legacy key.1).trans ((hunchanging.legacy key.1).trans hmissing)
          · exact hsound'.cached other hmem
      · have hstored : self.legacy key.1 = some data := by
          rw [← hunchanging.legacy]
          exact (hresult' hnone rfl).symm
        have hvalue : self.value key.1 = some data := by
          rw [value, hcurrent, hstored]
          rfl
        dsimp only at hunchanging' hown' hvalues hsound' ⊢
        rw [setData]
        rcases @setItem_cases later key.1 data calls with ⟨error, heq⟩ | ⟨keychain, heq, hfind, hkept⟩
        · rw [heq]
          exact ⟨nofun, hvalues, hsound'⟩
        · rw [heq]
          obtain ⟨hcurrents, hlegacies⟩ := value_set hfind
          have hlaterCurrent : ∀ other, later.current other = self.current other := fun other =>
            (hunchanging'.current other).trans (hunchanging.current other)
          have hlaterLegacy : ∀ other, later.legacy other = self.legacy other := fun other =>
            (hunchanging'.legacy other).trans (hunchanging.legacy other)
          obtain ⟨hcurrents', hlegacies', hcached', hown''⟩ := deleteLegacyItem_spec (hkept hown')
            (fun other hother => (hlegacies other).trans (hsound'.cached other hother))
            (fun _ => ⟨hlegacy.imp (fun hnone => (hlegacies key.1).trans ((hlaterLegacy key.1).trans hnone)) id,
              fun other hother => by
                rw [hcurrents other, if_neg, hlaterCurrent]
                · exact hfree other hother
                · rintro rfl
                  exact prefix_ne _ hother⟩)
          refine ⟨fun result hok => ?_, fun other => ?_, hown'', hcached'⟩
          · cases hok
            exact hvalue.symm
          · rw [value, hcurrents', hcurrents, hlegacies', hlegacies, hlaterCurrent, hlaterLegacy]
            by_cases hother : other = key.1
            · rw [if_pos hother, hother, hvalue]
              rfl
            · rw [if_neg hother, if_neg hother]
              rfl
  · refine ⟨fun result heq => ?_, hunchanging.value, hsound.of_unchanging hunchanging hown⟩
    cases heq
    rw [value, ← hresult rfl]
    rfl

/-- A call that throws changes nothing. -/
theorem setData_spec (hsound : self.Sound) (data : List UInt8) (key : KeychainKey) (calls : KeychainCalls) :
    (∃ error, self.setData data key calls = (.error error, self)) ∨
      (self.setData data key calls).1 = .ok () ∧ (self.setData data key calls).2.Sound ∧
        ∀ other, (self.setData data key calls).2.value other = if other = key.1 then some data else self.value other := by
  rw [setData]
  rcases @setItem_cases self key.1 data calls with herror | ⟨keychain, heq, hfind, hkept⟩
  · exact .inl herror
  · obtain ⟨hcurrents, hlegacies⟩ := value_set hfind
    rw [heq]
    refine .inr ⟨rfl, ⟨hkept hsound.own, fun other hother => ?_⟩, fun other => ?_⟩
    · exact (hlegacies other).trans (hsound.cached other hother)
    · rw [value, hcurrents, hlegacies]
      split <;> rfl

theorem removeData_spec (hsound : self.Sound) {key : KeychainKey} (hsafe : self.SafeToRemove key.1 calls) :
    (∃ error, self.removeData key calls = (.error error, self)) ∨
      (self.removeData key calls).1 = .ok () ∧ (self.removeData key calls).2.Sound ∧
        ∀ other, (self.removeData key calls).2.value other = if other = key.1 then none else self.value other := by
  rw [removeData]
  rcases @deleteItem_cases self (self.genericPasswordQuery key.1) calls.delete with
    ⟨error, heq, -⟩ | ⟨hdelete, keychain, heq, hfind, hkept⟩
  · rw [heq]
    exact .inl ⟨error, rfl⟩
  · have hcurrents : ∀ other, ({ self with keychain := keychain } : AuthKeychainServices).current other =
        if other = key.1 then none else self.current other := by
      intro other
      show find keychain (kAccountPrefix ++ other) (some self.service) = _
      rw [hfind]
      by_cases hother : other = key.1
      · rw [if_pos (selects_current.mpr ⟨by rw [hother], rfl⟩), if_pos hother]
      · rw [if_neg fun hselects => hother (account_injective (selects_current.mp hselects).1), if_neg hother]
        rfl
    have hlegacies : ∀ other, ({ self with keychain := keychain } : AuthKeychainServices).legacy other =
        self.legacy other := by
      intro other
      show find keychain other none = _
      have hnot : ¬(self.genericPasswordQuery key.1).selects other none = true := by
        intro hselects
        have hservice := (selects_current.mp hselects).2
        cases hservice
      rw [hfind, if_neg hnot]
      rfl
    obtain ⟨hcurrents', hlegacies', hcached', hown'⟩ := deleteLegacyItem_spec (hkept hsound.own)
      (fun other hother => (hlegacies other).trans (hsound.cached other hother))
      (fun hmem => (hsafe hdelete hmem).imp (Or.imp_left (hlegacies key.1).trans) fun hfree other hother => by
        rw [hcurrents]
        split
        · rfl
        · exact hfree other hother)
    rw [heq]
    refine .inr ⟨rfl, ⟨hown', hcached'⟩, fun other => ?_⟩
    rw [value, hcurrents', hcurrents, hlegacies', hlegacies]
    by_cases hother : other = key.1
    · rw [if_pos hother, if_pos hother, if_pos hother]
      rfl
    · rw [if_neg hother, if_neg hother, if_neg hother]
      rfl

theorem sound_restart (hsound : self.Sound) : self.restart.Sound := ⟨hsound.own, nofun⟩

end AuthKeychainServices

/-! ### Runs -/

/-- What is called on the store, with the keychain calls that fail, and the start of a new process -/
inductive KeychainOperation where
  | data (key : KeychainKey) (calls : KeychainCalls)
  | setData (data : List UInt8) (key : KeychainKey) (calls : KeychainCalls)
  | removeData (key : KeychainKey) (calls : KeychainCalls)
  | restart

/-- A store, and what should be read of each key, unless a call for it threw since -/
structure KeychainHistory where
  store : AuthKeychainServices
  expected : String → Option (Option (List UInt8))

namespace KeychainHistory

open AuthKeychainServices

/-- At the start, what should be read is what is there. -/
def start (service : String) (keychain : List KeychainEntry) : KeychainHistory :=
  { store := { service, keychain }, expected := fun key => some (({ service, keychain } : AuthKeychainServices).value key) }

/-- What should be read after a call that stores a value or none -/
def expectedAfter (history : KeychainHistory) (key : KeychainKey) (stored : Option (List UInt8))
    (result : Except KeychainError Unit) : String → Option (Option (List UInt8)) :=
  Function.update history.expected key.1 (match result with | .ok () => some stored | .error _ => none)

def step (history : KeychainHistory) : KeychainOperation → KeychainHistory
  | .data key calls => { history with store := (history.store.data key calls).2 }
  | .setData value key calls =>
      { store := (history.store.setData value key calls).2,
        expected := history.expectedAfter key (some value) (history.store.setData value key calls).1 }
  | .removeData key calls =>
      { store := (history.store.removeData key calls).2,
        expected := history.expectedAfter key none (history.store.removeData key calls).1 }
  | .restart => { history with store := history.store.restart }

/-- A read that does not throw gives what should be read. -/
def Answers (history : KeychainHistory) : KeychainOperation → Prop
  | .data key calls => ∀ result, (history.store.data key calls).1 = .ok result →
      ∀ value, history.expected key.1 = some value → result = value
  | _ => True

/-- The legacy item that a call looks for is deleted if it is there, and is not taken for another item. -/
def Safe (history : KeychainHistory) : KeychainOperation → Prop
  | .data key calls => history.store.SafeToRead key.1 calls
  | .removeData key calls => history.store.SafeToRemove key.1 calls
  | _ => True

/-- What should be read is what is stored. -/
structure Kept (history : KeychainHistory) : Prop where
  sound : history.store.Sound
  expected : ∀ key value, history.expected key = some value → history.store.value key = value

variable {history : KeychainHistory}
variable {store : AuthKeychainServices} {key : KeychainKey} {stored : Option (List UInt8)}
variable {operation : KeychainOperation}

theorem Kept.of_value (h : history.Kept) (hsound : store.Sound)
    (hvalue : ∀ key, store.value key = history.store.value key) : ({ history with store } : KeychainHistory).Kept :=
  ⟨hsound, fun key value hvalue' => (hvalue key).trans (h.expected key value hvalue')⟩

theorem Kept.of_update (h : history.Kept) (hsound : store.Sound)
    (hvalue : ∀ other, store.value other = if other = key.1 then stored else history.store.value other) :
    ({ store, expected := history.expectedAfter key stored (.ok ()) } : KeychainHistory).Kept := by
  refine ⟨hsound, fun other value hother => ?_⟩
  show store.value other = value
  rw [hvalue]
  by_cases hsame : other = key.1
  · have hexpected : history.expectedAfter key stored (.ok ()) other = some value := hother
    rw [hsame, expectedAfter, Function.update_self, Option.some_inj] at hexpected
    rw [if_pos hsame]
    exact hexpected
  · have hexpected : history.expectedAfter key stored (.ok ()) other = some value := hother
    rw [expectedAfter, Function.update_of_ne hsame] at hexpected
    rw [if_neg hsame]
    exact h.expected other value hexpected

theorem Kept.of_error {error : KeychainError} (h : history.Kept) :
    ({ store := history.store, expected := history.expectedAfter key stored (.error error) } : KeychainHistory).Kept := by
  refine ⟨h.sound, fun other value hother => ?_⟩
  have hexpected : history.expectedAfter key stored (.error error) other = some value := hother
  rw [expectedAfter] at hexpected
  by_cases hsame : other = key.1
  · rw [hsame, Function.update_self] at hexpected
    cases hexpected
  · rw [Function.update_of_ne hsame] at hexpected
    exact h.expected other value hexpected

theorem Kept.step (h : history.Kept) (hsafe : history.Safe operation) : (history.step operation).Kept := by
  cases operation with
  | data key calls =>
      obtain ⟨-, hvalue, hsound⟩ := data_spec h.sound hsafe
      exact h.of_value hsound hvalue
  | setData value key calls =>
      rw [KeychainHistory.step]
      rcases setData_spec h.sound value key calls with ⟨error, heq⟩ | ⟨hok, hsound, hvalue⟩
      · rw [heq]
        exact h.of_error
      · rw [hok]
        exact h.of_update hsound hvalue
  | removeData key calls =>
      rw [KeychainHistory.step]
      rcases removeData_spec h.sound hsafe with ⟨error, heq⟩ | ⟨hok, hsound, hvalue⟩
      · rw [heq]
        exact h.of_error
      · rw [hok]
        exact h.of_update hsound hvalue
  | restart => exact h.of_value (sound_restart h.sound) fun _ => rfl

theorem Kept.answers (h : history.Kept) (hsafe : history.Safe operation) : history.Answers operation := by
  cases operation with
  | data key calls =>
      intro result hresult value hvalue
      obtain ⟨hread, -, -⟩ := data_spec h.sound hsafe
      exact (hread result hresult).trans (h.expected key.1 value hvalue)
  | setData | removeData | restart => exact trivial

/-- The items of a keychain that are not legacy items are ours. -/
def OwnItems (service : String) (keychain : List KeychainEntry) : Prop := ({ service, keychain } : AuthKeychainServices).Own

/-- In a run whose legacy items are deleted as they should, and where no key is the account of another item, each
read gives what was stored last. -/
theorem reads_answer {service : String} {keychain : List KeychainEntry} (hown : OwnItems service keychain)
    {operations : List KeychainOperation}
    (hsafe : AllSteps (fun history operation => some (step history operation)) Safe (start service keychain) operations) :
    AllSteps (fun history operation => some (step history operation)) Answers (start service keychain) operations := by
  have hstart : (start service keychain).Kept := ⟨⟨hown, nofun⟩, fun key value hvalue => Option.some.inj hvalue⟩
  have hstep : ∀ history operation, Kept history → Safe history operation →
      ∀ later ∈ some (step history operation), later.Kept := by
    intro history operation hkept hsafe later hlater
    cases hlater
    exact hkept.step hsafe
  have hrun : ∀ (operations : List KeychainOperation) (history : KeychainHistory),
      (run (fun history operation => some (step history operation)) history operations).isSome = true := by
    intro operations
    induction operations with
    | nil => exact fun _ => rfl
    | cons operation operations ih => exact fun history => ih (step history operation)
  exact AllSteps.imp hstep (fun _ _ hkept hsafe _ => hkept.answers hsafe) hstart hsafe (hrun operations _)

def sessionKey : KeychainKey := ⟨"k", by decide⟩

theorem reads_answer_set :
    AllSteps (fun history operation => some (step history operation)) Answers (start "app" [])
      [.setData [1] sessionKey {}, .restart, .data sessionKey {}] :=
  reads_answer (fun _ hentry => absurd hentry List.not_mem_nil) ⟨trivial, fun _ hset => by
    cases hset
    refine ⟨trivial, fun _ hrestart => ?_⟩
    cases hrestart
    exact ⟨fun hnone => absurd hnone (by decide), fun _ _ => trivial⟩⟩

/-- A legacy item whose deletion fails comes back in the next process. -/
theorem removed_value_comes_back : ¬∀ (service : String) (keychain : List KeychainEntry)
    (operations : List KeychainOperation), OwnItems service keychain →
      AllSteps (fun history operation => some (step history operation)) Answers (start service keychain) operations := by
  intro hall
  have hanswers := hall "app" [⟨"k", none, [1]⟩]
    [.removeData sessionKey { deleteLegacy := some ⟨errSecInteractionNotAllowed, by decide⟩ }, .restart,
      .data sessionKey {}] (fun entry hentry => .inl (by rw [List.mem_singleton.mp hentry]))
  have hread := ((hanswers.2 _ rfl).2 _ rfl).1
  exact absurd (hread (some [1]) (by decide) none (by decide)) (by decide)

end KeychainHistory

end FirebaseSwift.Auth
