import FirebaseSwift.Database.KeyOrder
import FirebaseSwift.Library.DigitCounters
import Mathlib.Data.List.Induction

/-! Push ids, `FNextPushId.get`. An id has the digits of the time and twelve digits of chance, which a second
call in a millisecond increments. Ids are compared by their units, as they are too long for integers. The ids
of a run increase strictly exactly if no call in the millisecond of the call before finds all twelve digits
at 63: then they are all set to 0, the first is incremented, and the next id is less. -/

namespace FirebaseSwift.Database

open UnicodeStrings DigitCounters

namespace FNextPushId

def PUSH_CHARS : List Char := "-0123456789ABCDEFGHIJKLMNOPQRSTUVWXYZ_abcdefghijklmnopqrstuvwxyz".toList

/-- The offsets are below 64. -/
def pushChar (offset : Nat) : Char := PUSH_CHARS.getD offset '-'

/-! ### The digits of chance -/

/-- The loop from the last digit. It stops at the first that is not 63, and `j` is where it stops. -/
def carry : List Nat → Nat → List Nat → Nat × List Nat
  | [], j, digits => (j, digits)
  | i :: rest, _, digits => if digits.getD i 0 = 63 then carry rest i (digits.set i 0) else (i, digits)

def increment (digits : List Nat) : List Nat :=
  let carried := carry (List.range 12).reverse 0 digits
  carried.2.modify carried.1 (· + 1)

theorem modify_append (f : Nat → Nat) (before : List Nat) (d : Nat) (rest : List Nat) :
    (before ++ d :: rest).modify before.length f = before ++ f d :: rest := by
  induction before with
  | nil => rfl
  | cons b before ih => exact congrArg (b :: ·) ih

/-- The loop over the first digits. -/
theorem carry_cases (front back : List Nat) (j : Nat) :
    (∃ before d places, d ≠ 63 ∧ front = before ++ d :: List.replicate places 63 ∧
      carry (List.range front.length).reverse j (front ++ back) =
        (before.length, before ++ d :: List.replicate places 0 ++ back)) ∨
    (front = List.replicate front.length 63 ∧ carry (List.range front.length).reverse j (front ++ back) =
      (if front.length = 0 then j else 0, List.replicate front.length 0 ++ back)) := by
  induction front using List.reverseRecOn generalizing back j with
  | nil => exact Or.inr ⟨rfl, rfl⟩
  | append_singleton front x ih =>
      have hindices : (List.range (front ++ [x]).length).reverse =
          front.length :: (List.range front.length).reverse := by
        rw [List.length_append, List.length_singleton, List.range_succ, List.reverse_append,
          List.reverse_singleton, List.singleton_append]
      have hget : (front ++ [x] ++ back).getD front.length 0 = x := by
        rw [List.append_assoc, List.getD_eq_getElem?_getD, List.getElem?_append_right (le_refl _), Nat.sub_self]
        rfl
      rw [hindices, carry, hget]
      by_cases hx : x = 63
      · have hset : (front ++ [x] ++ back).set front.length 0 = front ++ 0 :: back := by
          rw [List.append_assoc, List.set_append_right _ _ (le_refl _), Nat.sub_self]
          rfl
        rw [if_pos hx, hset]
        rcases ih (0 :: back) front.length with ⟨before, d, places, hd, hfront, hcarry⟩ | ⟨hfront, hcarry⟩
        · refine Or.inl ⟨before, d, places + 1, hd, ?_, ?_⟩
          · rw [hfront, hx, List.replicate_succ', List.append_assoc, List.cons_append]
          · rw [hcarry, List.replicate_succ', List.append_assoc, List.append_assoc, List.cons_append,
              List.cons_append, List.append_assoc, List.singleton_append]
        · refine Or.inr ⟨?_, ?_⟩
          · rw [List.length_append, List.length_singleton, List.replicate_succ', ← hfront, hx]
          · rw [hcarry, List.length_append, List.length_singleton, List.replicate_succ', List.append_assoc,
              List.singleton_append, if_neg (Nat.succ_ne_zero _)]
            split_ifs with hzero
            · rw [hzero]
            · rfl
      · rw [if_neg hx]
        exact Or.inl ⟨front, x, 0, hx, rfl, rfl⟩

theorem increment_cases {digits : List Nat} (hlength : digits.length = 12) :
    Incremented 63 digits (increment digits) ∨
      digits = List.replicate 12 63 ∧ increment digits = 1 :: List.replicate 11 0 := by
  have hcases := carry_cases digits [] 0
  rw [hlength, List.append_nil] at hcases
  rcases hcases with ⟨before, d, places, hd, hdigits, hcarry⟩ | ⟨hdigits, hcarry⟩
  · left
    have hmodify : increment digits = before ++ (d + 1) :: List.replicate places 0 := by
      rw [increment, hcarry, List.append_nil, modify_append]
    rw [hmodify, hdigits]
    exact .carried before d places hd
  · right
    refine ⟨hdigits, ?_⟩
    rw [increment, hcarry]
    rfl

/-- Twelve digits to base 64. -/
structure RandChars where
  digits : List Nat
  length_eq : digits.length = 12
  lt_64 : ∀ d ∈ digits, d < 64
deriving DecidableEq

def RandChars.incremented (lastRandChars : RandChars) : RandChars where
  digits := increment lastRandChars.digits
  length_eq := by
    rcases increment_cases lastRandChars.length_eq with hincremented | ⟨-, hwrapped⟩
    · rw [hincremented.length_eq, lastRandChars.length_eq]
    · rw [hwrapped]
      rfl
  lt_64 := by
    rcases increment_cases lastRandChars.length_eq with hincremented | ⟨-, hwrapped⟩
    · exact fun d hd => Nat.lt_succ_of_le
        (hincremented.le_top (fun d hd => Nat.le_of_lt_succ (lastRandChars.lt_64 d hd)) d hd)
    · rw [hwrapped]
      decide

/-- The next digits are greater exactly if not all are 63. -/
theorem RandChars.lt_incremented_iff (lastRandChars : RandChars) :
    lastRandChars.digits < lastRandChars.incremented.digits ↔
      lastRandChars.digits ≠ List.replicate 12 63 := by
  constructor
  · intro hlt hall
    have hincrement : lastRandChars.digits < increment lastRandChars.digits := hlt
    rw [hall] at hincrement
    exact absurd hincrement (by decide)
  · intro hnot
    exact ((increment_cases lastRandChars.length_eq).resolve_right fun h => hnot h.1).lt

/-! ### The generator -/

structure State where
  lastPushTime : Nat
  lastRandChars : RandChars
deriving DecidableEq

def initial : State := ⟨0, List.replicate 12 0, rfl, by decide⟩

/-- The loop with the time that is left. The last digit comes first. -/
def timeStampChars : Nat → Nat → List Char
  | 0, _ => []
  | rounds + 1, now => pushChar (now % 64) :: timeStampChars rounds (now / 64)

def idOf (state : State) : List Char :=
  (timeStampChars 8 state.lastPushTime).reverse ++ state.lastRandChars.digits.map pushChar

/-- A call, with the time in milliseconds and what is drawn for the digits. -/
structure Call where
  currentTime : Nat
  draws : RandChars
deriving DecidableEq

def next (state : State) (call : Call) : State where
  lastPushTime := call.currentTime
  lastRandChars :=
    if call.currentTime = state.lastPushTime then state.lastRandChars.incremented else call.draws

/-- The id and the state that is left. -/
def get (call : Call) (state : State) : List Char × State := (idOf (next state call), next state call)

/-- What the calls return, one after the other. -/
def ids : State → List Call → List (List Char)
  | _, [] => []
  | state, call :: rest => (get call state).1 :: ids (get call state).2 rest

/-! ### The order of ids -/

theorem strictMonoOn_pushChar : StrictMonoOn pushChar {d | d < 64} := by
  have hsorted : PUSH_CHARS.Pairwise (· < ·) := List.isChain_iff_pairwise.mp (by decide +kernel)
  intro d hd d' hd' hlt
  have hlength : PUSH_CHARS.length = 64 := by decide
  rw [pushChar, pushChar, List.getD_eq_getElem?_getD, List.getD_eq_getElem?_getD,
    List.getElem?_eq_getElem (hlength ▸ hd), List.getElem?_eq_getElem (hlength ▸ hd')]
  exact List.pairwise_iff_getElem.mp hsorted d d' _ _ hlt

theorem timeStampChars_reverse (rounds now : Nat) :
    (timeStampChars rounds now).reverse = (digits 64 rounds now).map pushChar := by
  induction rounds generalizing now with
  | zero => rfl
  | succ rounds ih => rw [timeStampChars, List.reverse_cons, ih, digits, List.map_append]; rfl

variable (state : State)

theorem idOf_eq : idOf state = (digits 64 8 state.lastPushTime ++ state.lastRandChars.digits).map pushChar := by
  rw [idOf, timeStampChars_reverse, List.map_append]

theorem length_idOf : (idOf state).length = 20 := by
  rw [idOf_eq, List.length_map, List.length_append, length_digits, state.lastRandChars.length_eq]

theorem idOf_lt_idOf_iff {state state' : State} (htime : state.lastPushTime < 2 ^ 48)
    (htime' : state'.lastPushTime < 2 ^ 48) : idOf state < idOf state' ↔ state.lastPushTime < state'.lastPushTime ∨
      state.lastPushTime = state'.lastPushTime ∧ state.lastRandChars.digits < state'.lastRandChars.digits := by
  have hmembers : ∀ state : State, ∀ d ∈ digits 64 8 state.lastPushTime ++ state.lastRandChars.digits,
      d < 64 := by
    intro state d hd
    rcases List.mem_append.mp hd with htime | hrand
    · exact lt_of_mem_digits (by decide) htime
    · exact state.lastRandChars.lt_64 d hrand
  have hlength : (digits 64 8 state.lastPushTime).length = (digits 64 8 state'.lastPushTime).length := by
    rw [length_digits, length_digits]
  have hpow : 2 ^ 48 = 64 ^ 8 := by decide
  rw [hpow] at htime htime'
  rw [idOf_eq, idOf_eq, map_lt_map_iff strictMonoOn_pushChar (hmembers state) (hmembers state'),
    append_lt_append_iff hlength, digits_lt_digits_iff (by decide) htime htime',
    digits_inj (by decide) htime htime']

theorem isAscii_of_mem_idOf : ∀ c ∈ idOf state, IsAscii c ∧ c ≠ '\r' := by
  have hchars : ∀ offset, IsAscii (pushChar offset) ∧ pushChar offset ≠ '\r' := by
    intro offset
    have hmem : pushChar offset ∈ PUSH_CHARS := by
      unfold pushChar
      rw [List.getD_eq_getElem?_getD]
      cases hget : PUSH_CHARS[offset]? with
      | none => decide
      | some c => exact List.mem_of_getElem? hget
    have hall : (PUSH_CHARS.all fun c => decide (IsAscii c ∧ c ≠ '\r')) = true := by decide
    exact of_decide_eq_true (List.all_eq_true.mp hall _ hmem)
  intro c hc
  rw [idOf_eq] at hc
  obtain ⟨offset, -, rfl⟩ := List.mem_map.mp hc
  exact hchars offset

theorem utf16_of_isAscii {s : List Char} (h : ∀ c ∈ s, IsAscii c) : utf16 s = s.map Char.toNat := by
  induction s with
  | nil => rfl
  | cons c rest ih =>
      obtain ⟨hc, hrest⟩ := List.forall_mem_cons.mp h
      have hbelow : c.toNat < 0x10000 := lt_trans hc (by decide)
      rw [utf16, List.flatMap_cons, utf16Units, if_pos hbelow, List.map_cons, ← ih hrest]
      rfl

section Comparison

variable [UnicodeVersion]
variable (state : State)

theorem nfc_idOf : nfc (idOf state) = idOf state :=
  nfc_of_isAscii _ fun c hc => (isAscii_of_mem_idOf state c hc).1

/-- An id is no name, and it is too long for an integer. -/
theorem keyRank_idOf :
    FUtilities.keyRank (idOf state) = FUtilities.stringRank (idOf state) ∧ Scannable (idOf state) := by
  have hname : ∀ name : List Char, (∀ c ∈ name, IsAscii c) → name.length ≠ 20 →
      ¬Equivalent (idOf state) name := by
    intro name hascii hlength hequivalent
    rw [Equivalent, nfc_idOf, nfc_of_isAscii name hascii] at hequivalent
    rw [← hequivalent, length_idOf] at hlength
    exact hlength rfl
  have hnamed : ¬FUtilities.IsNamed (idOf state) := by
    rintro (hmin | hmax)
    · exact hname FUtilities.minName (isAscii_of_all (by decide)) (by decide) hmin
    · exact hname FUtilities.maxName (isAscii_of_all (by decide)) (by decide) hmax
  have hcharacters : (characters (idOf state)).length = 20 := by
    rw [characters_of_isAscii _ (isAscii_of_mem_idOf state), List.length_map, length_idOf]
  have hinteger : keyInteger (idOf state) = none := by
    refine if_neg fun h => ?_
    rw [hcharacters] at h
    exact absurd h.1 (by decide)
  refine ⟨?_, Or.inl ?_⟩
  · rw [FUtilities.keyRank_of_not_isNamed hnamed, hinteger]
  · rw [hcharacters]
    decide

theorem compareKey_idOf_iff (state' : State) :
    FUtilities.compareKey (idOf state) (idOf state') = .ok .lt ↔ idOf state < idOf state' := by
  by_cases hsame : Equivalent (idOf state) (idOf state')
  · have hcompare : FUtilities.compareKey (idOf state) (idOf state') = .ok .eq := if_pos hsame
    rw [Equivalent, nfc_idOf, nfc_idOf] at hsame
    rw [hcompare, hsame]
    exact iff_of_false (by simp) (List.lt_irrefl _)
  · obtain ⟨hrank, hscan⟩ := keyRank_idOf state
    obtain ⟨hrank', hscan'⟩ := keyRank_idOf state'
    have hascii : ∀ state : State, utf16 (idOf state) = (idOf state).map Char.toNat := fun state =>
      utf16_of_isAscii fun c hc => (isAscii_of_mem_idOf state c hc).1
    have hmono : StrictMonoOn Char.toNat Set.univ := fun c _ d _ hlt => hlt
    rw [FUtilities.compareKey_of_readable hsame (Or.inr ⟨hscan, hscan'⟩), hrank, hrank', Except.ok.injEq,
      compare_lt_iff_lt, FUtilities.stringRank_lt_iff, hascii, hascii,
      map_lt_map_iff hmono (fun _ _ => Set.mem_univ _) (fun _ _ => Set.mem_univ _)]

end Comparison

/-! ### Runs -/

/-- A call in the millisecond of the call before, when all digits are 63. -/
def Wraps (state : State) (call : Call) : Prop :=
  call.currentTime = state.lastPushTime ∧ state.lastRandChars.digits = List.replicate 12 63

instance decidableWraps (state : State) (call : Call) : Decidable (Wraps state call) :=
  inferInstanceAs (Decidable (_ ∧ _))

def NeverWraps : State → List Call → Prop
  | _, [] => True
  | state, call :: rest => ¬Wraps state call ∧ NeverWraps (next state call) rest

variable {state : State} {calls : List Call}

theorem idOf_lt_idOf_next_iff {call : Call} (hclock : state.lastPushTime ≤ call.currentTime)
    (hrange : call.currentTime < 2 ^ 48) : idOf state < idOf (next state call) ↔ ¬Wraps state call := by
  have hnext : (next state call).lastPushTime = call.currentTime := rfl
  rw [idOf_lt_idOf_iff (hclock.trans_lt hrange) (hnext ▸ hrange), hnext, Wraps, not_and]
  by_cases hsame : call.currentTime = state.lastPushTime
  · have hrand : (next state call).lastRandChars = state.lastRandChars.incremented := if_pos hsame
    rw [hrand, state.lastRandChars.lt_incremented_iff, hsame]
    constructor
    · exact fun h _ => (h.resolve_left (Nat.lt_irrefl _)).2
    · exact fun h => Or.inr ⟨rfl, h rfl⟩
  · exact iff_of_true (Or.inl (Nat.lt_of_le_of_ne hclock fun h => hsame h.symm)) fun h => absurd h hsame

/-- With the id of the state before, the ids increase exactly if no call wraps. -/
theorem pairwise_idOf_cons_iff (hclock : (state.lastPushTime :: calls.map Call.currentTime).Pairwise (· ≤ ·))
    (hrange : ∀ call ∈ calls, call.currentTime < 2 ^ 48) :
    (idOf state :: ids state calls).Pairwise (· < ·) ↔ NeverWraps state calls := by
  induction calls generalizing state with
  | nil => exact iff_of_true (List.pairwise_singleton _ _) trivial
  | cons call rest ih =>
      obtain ⟨hstate, hcalls⟩ := List.pairwise_cons.mp hclock
      obtain ⟨hcall, hrest⟩ := List.forall_mem_cons.mp hrange
      have hnext := @ih (next state call) hcalls hrest
      have hids : ids state (call :: rest) = idOf (next state call) :: ids (next state call) rest := rfl
      rw [← List.isChain_iff_pairwise] at hnext ⊢
      rw [hids, List.isChain_cons_cons, hnext, idOf_lt_idOf_next_iff (hstate _ List.mem_cons_self) hcall]
      rfl

/-- All ids of a run are ids of states. -/
theorem exists_of_mem_ids {id : List Char} (h : id ∈ ids state calls) : ∃ state', id = idOf state' := by
  induction calls generalizing state with
  | nil => cases h
  | cons call rest ih =>
      rcases List.mem_cons.mp h with rfl | hrest
      · exact ⟨_, rfl⟩
      · exact ih hrest

theorem not_wraps_initial (call : Call) : ¬Wraps initial call := fun h => absurd h.2 (by decide)

section Runs

variable [UnicodeVersion]

/-- The ids of a run of calls from the start, with a clock that does not go back, increase strictly and are
distinct exactly if no call wraps. -/
theorem ids_increase_iff {calls : List Call} (hclock : (calls.map Call.currentTime).Pairwise (· ≤ ·))
    (hrange : ∀ call ∈ calls, call.currentTime < 2 ^ 48) :
    ((ids initial calls).Pairwise (fun id id' => FUtilities.compareKey id id' = .ok .lt) ∧
      (ids initial calls).Nodup) ↔ NeverWraps initial calls := by
  have hcompare : (ids initial calls).Pairwise (fun id id' => FUtilities.compareKey id id' = .ok .lt) ↔
      (ids initial calls).Pairwise (· < ·) := by
    refine List.Pairwise.iff_of_mem fun hid hid' => ?_
    obtain ⟨state, rfl⟩ := exists_of_mem_ids hid
    obtain ⟨state', rfl⟩ := exists_of_mem_ids hid'
    exact compareKey_idOf_iff state state'
  have hnodup : (ids initial calls).Pairwise (· < ·) → (ids initial calls).Nodup := fun h =>
    h.imp fun hlt => hlt.ne
  rw [hcompare, and_iff_left_of_imp hnodup]
  cases calls with
  | nil => exact iff_of_true List.Pairwise.nil trivial
  | cons call rest =>
      -- the first call does not wrap, and its id is the one before the others
      have hnever : NeverWraps initial (call :: rest) ↔ NeverWraps (next initial call) rest :=
        and_iff_right (not_wraps_initial call)
      have hrest : ∀ call ∈ rest, call.currentTime < 2 ^ 48 := fun call hcall =>
        hrange call (List.mem_cons_of_mem _ hcall)
      have hids := @pairwise_idOf_cons_iff (next initial call) rest hclock hrest
      rw [hnever, ← hids]
      rfl

end Runs

def greatestDraws : RandChars := ⟨List.replicate 12 63, rfl, by decide⟩

def draws : RandChars := ⟨[7, 41, 0, 63, 12, 30, 5, 58, 22, 9, 0, 63], rfl, by decide⟩

/-- A carry in the second call of a millisecond. -/
theorem ids_increase_of_carry :
    ((ids initial [⟨1, draws⟩, ⟨1, draws⟩, ⟨1, draws⟩, ⟨2, draws⟩]).Pairwise
      (fun id id' => @FUtilities.compareKey marksOnly id id' = .ok .lt) ∧
      (ids initial [⟨1, draws⟩, ⟨1, draws⟩, ⟨1, draws⟩, ⟨2, draws⟩]).Nodup) :=
  (@ids_increase_iff marksOnly _ (by decide) (by decide)).mpr
    ⟨by decide, by decide, by decide, by decide, trivial⟩

/-- Twelve digits of 63 and a second call in the millisecond. -/
theorem ids_do_not_increase : ¬∀ calls : List Call, (calls.map Call.currentTime).Pairwise (· ≤ ·) →
    (∀ call ∈ calls, call.currentTime < 2 ^ 48) →
    (ids initial calls).Pairwise (fun id id' => @FUtilities.compareKey marksOnly id id' = .ok .lt) := by
  intro h
  have hids := h [⟨1, greatestDraws⟩, ⟨1, greatestDraws⟩] (by decide) (by decide)
  have hnext := (@compareKey_idOf_iff marksOnly _ _).mp ((List.pairwise_cons.mp hids).1 _ List.mem_cons_self)
  have hwraps : Wraps (next initial ⟨1, greatestDraws⟩) ⟨1, greatestDraws⟩ := by decide
  exact (idOf_lt_idOf_next_iff (le_refl 1) (by decide)).mp hnext hwraps

end FNextPushId

end FirebaseSwift.Database
