import FirebaseSwift.Library.UnicodeStrings
import Mathlib.Tactic.Ring.RingNF

/-! Keys that are integers, `tryParseStringToInt`. The characters of a key are compared with the digits,
and then the ASCII value of each is unwrapped. A character of several scalars that is in the order between
two digits has no ASCII value, and the program stops. On all other keys the parser is exact. -/

namespace FirebaseSwift.Database

open UnicodeStrings

/-- What stops the program. -/
inductive Trap where
  | unwrappedNil
  | arithmeticOverflow
deriving DecidableEq, Repr

theorem ok_bind {α β : Type} (a : α) (f : α → Except Trap β) : (Except.ok a >>= f) = f a := rfl

def subtractUnsigned (value other : Nat) : Except Trap Nat :=
  if value < other then .error .arithmeticOverflow else .ok (value - other)

def checkedInt64 (value : Int) : Except Trap Int :=
  if -2 ^ 63 ≤ value ∧ value < 2 ^ 63 then .ok value else .error .arithmeticOverflow

theorem checkedInt64_eq {value : Int} (hlower : -2 ^ 63 ≤ value) (hupper : value < 2 ^ 63) :
    checkedInt64 value = .ok value := if_pos ⟨hlower, hupper⟩

theorem singleton_lt_singleton_iff {c d : Char} : [c] < [d] ↔ c.toNat < d.toNat := by
  rw [List.cons_lt_cons_iff]
  constructor
  · rintro (hlt | ⟨-, hnil⟩)
    · exact hlt
    · exact absurd hnil (List.not_lt_nil [])
  · exact Or.inl

/-- What the digits add to the value so far. -/
def digitsFrom (value : Nat) (digits : List Char) : Nat :=
  digits.foldl (fun value c => value * 10 + (c.toNat - '0'.toNat)) value

variable {digits : List Char}

theorem digitsFrom_lt (hdigits : ∀ d ∈ digits, d.isDigit = true) (value : Nat) :
    digitsFrom value digits < (value + 1) * 10 ^ digits.length := by
  induction digits generalizing value with
  | nil => exact Nat.lt_of_lt_of_eq (Nat.lt_succ_self value) (Nat.mul_one _).symm
  | cons d digits ih =>
      have hd := (Char.isDigit_iff_toNat.mp (List.forall_mem_cons.mp hdigits).1).2
      have hnine : '9'.toNat = 57 := rfl
      have hzero : '0'.toNat = 48 := rfl
      have hnext : value * 10 + (d.toNat - '0'.toNat) + 1 ≤ (value + 1) * 10 := by omega
      calc digitsFrom value (d :: digits)
          = digitsFrom (value * 10 + (d.toNat - '0'.toNat)) digits := rfl
        _ < (value * 10 + (d.toNat - '0'.toNat) + 1) * 10 ^ digits.length :=
            ih (List.forall_mem_cons.mp hdigits).2 _
        _ ≤ (value + 1) * 10 * 10 ^ digits.length := Nat.mul_le_mul_right _ hnext
        _ = (value + 1) * 10 ^ (d :: digits).length := by rw [List.length_cons, pow_succ']; ring

def signed (negative : Bool) (value : Int) : Int := if negative then -value else value

/-- What is left after the loop: the sign, and the limits of 32 bits. -/
def finishInteger (negative : Bool) : Option Int → Except Trap (Option Int)
  | none => .ok none
  | some value => do
      let value ← checkedInt64 (signed negative value)
      if value < -2 ^ 31 ∨ 2 ^ 31 - 1 < value then .ok none else .ok (some value)

def digitsValue (digits : List Char) : Nat := digitsFrom 0 digits

theorem digitsValue_lt (hdigits : ∀ d ∈ digits, d.isDigit = true) (hlength : digits.length ≤ 11) :
    digitsValue digits < 10 ^ 11 := by
  have hlt := digitsFrom_lt hdigits 0
  rw [Nat.zero_add, Nat.one_mul] at hlt
  exact hlt.trans_le (Nat.pow_le_pow_right (by decide) hlength)

theorem finishInteger_eq {negative : Bool} {value : Nat} (hvalue : value < 10 ^ 11) :
    finishInteger negative (some value) =
      .ok (if -2 ^ 31 ≤ signed negative value ∧ signed negative value ≤ 2 ^ 31 - 1
        then some (signed negative value) else none) := by
  have hsigned : -10 ^ 11 < signed negative value ∧ signed negative value < 10 ^ 11 := by
    unfold signed
    split_ifs <;> omega
  rw [finishInteger, checkedInt64_eq (by omega) (by omega), ok_bind]
  split_ifs with houtside hinside hinside
  · omega
  · rfl
  · rfl
  · omega

theorem flatten_map_singleton (digits : List Char) : (digits.map ([·])).flatten = digits := by
  induction digits with
  | nil => rfl
  | cons d digits ih => rw [List.map_cons, List.flatten_cons, ih, List.singleton_append]

section Parser

variable [UnicodeVersion]

/-- `c < "0" || c > "9"` -/
def OutsideDigits (c : List Char) : Prop := Precedes c ['0'] ∨ Precedes ['9'] c

instance decidableOutsideDigits (c : List Char) : Decidable (OutsideDigits c) :=
  inferInstanceAs (Decidable (_ ∨ _))

def isBetweenDigits (c : List Char) : Bool := decide ¬OutsideDigits c

/-- The loop over the characters, with the value so far. -/
def scanDigits : List (List Char) → Int → Except Trap (Option Int)
  | [], value => .ok (some value)
  | c :: rest, value =>
      if OutsideDigits c then .ok none
      else
        match asciiValue c with
        | none => .error .unwrappedNil
        | some ascii => do
            let charValue ← subtractUnsigned ascii '0'.toNat
            let product ← checkedInt64 (value * 10)
            let value ← checkedInt64 (product + charValue)
            scanDigits rest value

def startsWithMinus (str : List Char) : Bool := decide (Equivalent ((characters str).headD []) ['-'])

/-- The characters that the loop is over. -/
def afterMinus (str : List Char) : List (List Char) :=
  if startsWithMinus str then (characters str).tail else characters str

def tryParseStringToInt (str : List Char) : Except Trap (Option Int) :=
  let length := (characters str).length
  if length > 11 ∨ length = 0 then .ok none
  else if startsWithMinus str = true ∧ length = 1 then .ok none
  else scanDigits (afterMinus str) 0 >>= finishInteger (startsWithMinus str)

/-! ### What should be accepted -/

def isNegative (s : List Char) : Bool := decide (s.head? = some '-')

def unsigned (s : List Char) : List Char := if isNegative s then s.tail else s

/-- The value of an integer key: at most 11 characters, a minus or none, and digits with a value of 32
bits. -/
def keyInteger (s : List Char) : Option Int :=
  let value := signed (isNegative s) (digitsValue (unsigned s))
  if (characters s).length ≤ 11 ∧ unsigned s ≠ [] ∧ (unsigned s).all Char.isDigit = true ∧
      -2 ^ 31 ≤ value ∧ value ≤ 2 ^ 31 - 1 then some value
  else none

/-! ### When the parser does not stop -/

/-- The characters that the loop looks at and that are between the digits. -/
def scannedDigits (s : List Char) : List (List Char) :=
  (afterMinus s).takeWhile isBetweenDigits

/-- The key is too long, or the characters that are taken for digits are ASCII. -/
def Scannable (s : List Char) : Prop :=
  11 < (characters s).length ∨ ∀ c ∈ scannedDigits s, (asciiValue c).isSome = true

instance decidableScannable (s : List Char) : Decidable (Scannable s) := inferInstanceAs (Decidable (_ ∨ _))

/-! ### Digits -/

theorem outsideDigits_singleton {c : Char} (h : IsAscii c) : OutsideDigits [c] ↔ ¬c.isDigit = true := by
  unfold OutsideDigits Precedes
  rw [nfc_singleton h, nfc_singleton (by decide : IsAscii '0'), nfc_singleton (by decide : IsAscii '9'),
    Char.isDigit_iff_toNat, singleton_lt_singleton_iff, singleton_lt_singleton_iff]
  omega

theorem asciiValue_singleton {c : Char} (h : IsAscii c) : asciiValue [c] = some c.toNat := by
  have hline : ¬Equivalent [c] ['\r', '\n'] := by
    unfold Equivalent
    rw [nfc_singleton h, nfc_of_isAscii ['\r', '\n'] (isAscii_of_all (by decide))]
    exact nofun
  unfold asciiValue
  rw [if_neg hline]
  exact if_pos h

/-- An ASCII character that is between the digits is a digit. -/
theorem digit_of_asciiValue {c : List Char} {ascii : Nat} (hinside : ¬OutsideDigits c)
    (h : asciiValue c = some ascii) : ∃ d : Char, c = [d] ∧ d.isDigit = true := by
  have hline : ¬Equivalent c ['\r', '\n'] := by
    intro hequivalent
    apply hinside
    left
    unfold Precedes
    rw [hequivalent, nfc_of_isAscii ['\r', '\n'] (isAscii_of_all (by decide)), nfc_singleton (by decide : IsAscii '0')]
    decide
  unfold asciiValue at h
  rw [if_neg hline] at h
  split at h
  · rename_i d
    split_ifs at h with hascii
    rw [outsideDigits_singleton hascii, not_not] at hinside
    exact ⟨d, rfl, hinside⟩
  · cases h

/-- Digits come first, and then nothing, a character outside, or one that has no ASCII value. -/
theorem leading_digits (chars : List (List Char)) :
    ∃ (digits : List Char) (rest : List (List Char)), chars = digits.map ([·]) ++ rest ∧ (∀ d ∈ digits, d.isDigit = true) ∧
      ∀ c ∈ rest.head?, OutsideDigits c ∨ asciiValue c = none := by
  induction chars with
  | nil => exact ⟨[], [], rfl, nofun, nofun⟩
  | cons c chars ih =>
      by_cases houtside : OutsideDigits c
      · refine ⟨[], c :: chars, rfl, nofun, fun d hd => ?_⟩
        cases hd
        exact Or.inl houtside
      · cases hascii : asciiValue c with
        | none =>
            refine ⟨[], c :: chars, rfl, nofun, fun d hd => ?_⟩
            cases hd
            exact Or.inr hascii
        | some ascii =>
            obtain ⟨d, rfl, hdigit⟩ := digit_of_asciiValue houtside hascii
            obtain ⟨digits, rest, rfl, hdigits, hrest⟩ := ih
            exact ⟨d :: digits, rest, rfl, List.forall_mem_cons.mpr ⟨hdigit, hdigits⟩, hrest⟩

/-! ### The loop -/

theorem scanDigits_digit {d : Char} {rest : List (List Char)} {value : Nat} (hdigit : d.isDigit = true)
    (hvalue : value < 10 ^ 11) :
    scanDigits ([d] :: rest) value = scanDigits rest (value * 10 + (d.toNat - '0'.toNat) : Nat) := by
  obtain ⟨hlower, hupper⟩ := Char.isDigit_iff_toNat.mp hdigit
  have hzero : '0'.toNat = 48 := rfl
  have hnine : '9'.toNat = 57 := rfl
  have hinside : ¬OutsideDigits [d] := by
    rw [outsideDigits_singleton (isAscii_of_isDigit hdigit), not_not]
    exact hdigit
  rw [scanDigits, if_neg hinside, asciiValue_singleton (isAscii_of_isDigit hdigit)]
  have hproduct : checkedInt64 ((value : Int) * 10) = .ok ((value : Int) * 10) :=
    checkedInt64_eq (by omega) (by omega)
  have hsum : checkedInt64 ((value : Int) * 10 + ((d.toNat - '0'.toNat : Nat) : Int)) =
      .ok ((value * 10 + (d.toNat - '0'.toNat) : Nat) : Int) := by
    rw [checkedInt64_eq (by omega) (by omega)]
    exact congrArg Except.ok (by omega)
  have hchar : subtractUnsigned d.toNat '0'.toNat = .ok (d.toNat - '0'.toNat) := if_neg (by omega)
  dsimp only
  rw [hchar, ok_bind, hproduct, ok_bind, hsum, ok_bind]

/-- At most eleven digits do not overflow. -/
theorem scanDigits_digits {digits : List Char} (hdigits : ∀ d ∈ digits, d.isDigit = true)
    (rest : List (List Char)) {value : Nat} (hvalue : (value + 1) * 10 ^ digits.length ≤ 10 ^ 11) :
    scanDigits (digits.map ([·]) ++ rest) value = scanDigits rest (digitsFrom value digits : Nat) := by
  induction digits generalizing value with
  | nil => rfl
  | cons d digits ih =>
      obtain ⟨hd, hdigits⟩ := List.forall_mem_cons.mp hdigits
      have hnine := (Char.isDigit_iff_toNat.mp hd).2
      have hnineValue : '9'.toNat = 57 := rfl
      have hzero : '0'.toNat = 48 := rfl
      have hpow : 1 ≤ 10 ^ digits.length := Nat.one_le_pow _ _ (by decide)
      rw [List.length_cons, pow_succ', ← Nat.mul_assoc] at hvalue
      have hsmall : (value + 1) * 10 ≤ 10 ^ 11 := (Nat.le_mul_of_pos_right _ hpow).trans hvalue
      rw [List.map_cons, List.cons_append, scanDigits_digit hd (by omega), ih hdigits]
      · rfl
      · exact (Nat.mul_le_mul_right _ (by omega)).trans hvalue

/-- What the loop returns for characters that do not overflow. -/
inductive ScanOutcome (chars : List (List Char)) : Except Trap (Option Int) → Prop where
  | integer (digits : List Char) (hchars : chars = digits.map ([·])) (hdigits : ∀ d ∈ digits, d.isDigit = true) :
      ScanOutcome chars (.ok (some (digitsValue digits)))
  | rejected (hchars : ∀ digits : List Char, (∀ d ∈ digits, d.isDigit = true) → chars ≠ digits.map ([·]))
      (hscanned : ∀ c ∈ chars.takeWhile isBetweenDigits, (asciiValue c).isSome = true) :
      ScanOutcome chars (.ok none)
  | stopped (c : List Char) (hscanned : c ∈ chars.takeWhile isBetweenDigits)
      (hascii : asciiValue c = none) : ScanOutcome chars (.error .unwrappedNil)

theorem inside_of_isDigit {d : Char} (hdigit : d.isDigit = true) :
    isBetweenDigits [d] = true ∧ (asciiValue [d]).isSome = true := by
  have hascii := isAscii_of_isDigit hdigit
  rw [isBetweenDigits, asciiValue_singleton hascii, decide_eq_true_eq, outsideDigits_singleton hascii, not_not]
  exact ⟨hdigit, rfl⟩

theorem takeWhile_digits {digits : List Char} (hdigits : ∀ d ∈ digits, d.isDigit = true) (rest : List (List Char)) :
    (digits.map ([·]) ++ rest).takeWhile isBetweenDigits =
      digits.map ([·]) ++ rest.takeWhile isBetweenDigits := by
  apply List.takeWhile_append_of_pos
  intro c hc
  obtain ⟨d, hd, rfl⟩ := List.mem_map.mp hc
  exact (inside_of_isDigit (hdigits d hd)).1

theorem scanOutcome {chars : List (List Char)} (hlength : chars.length ≤ 11) :
    ScanOutcome chars (scanDigits chars 0) := by
  obtain ⟨digits, rest, rfl, hdigits, hrest⟩ := leading_digits chars
  rw [List.length_append, List.length_map] at hlength
  have hbound : (0 + 1) * 10 ^ digits.length ≤ 10 ^ 11 := by
    rw [Nat.zero_add, Nat.one_mul]
    exact Nat.pow_le_pow_right (by decide) (by omega)
  have hscan := scanDigits_digits hdigits rest hbound
  rw [Nat.cast_zero] at hscan
  rw [hscan]
  cases rest with
  | nil => exact .integer digits (List.append_nil _) hdigits
  | cons c rest =>
      by_cases houtside : OutsideDigits c
      · rw [scanDigits, if_pos houtside]
        refine .rejected (fun other hother hchars => ?_) fun d hd => ?_
        · have hc : c ∈ other.map ([·]) := hchars ▸ List.mem_append_right _ List.mem_cons_self
          obtain ⟨d, hd, rfl⟩ := List.mem_map.mp hc
          exact of_decide_eq_true (inside_of_isDigit (hother d hd)).1 houtside
        · have hbetween : ¬isBetweenDigits c = true := fun hinside =>
            absurd houtside (of_decide_eq_true hinside)
          rw [takeWhile_digits hdigits, List.takeWhile_cons_of_neg hbetween, List.append_nil] at hd
          obtain ⟨digit, hdigit, rfl⟩ := List.mem_map.mp hd
          exact (inside_of_isDigit (hdigits digit hdigit)).2
      · have hascii := (hrest c rfl).resolve_left houtside
        rw [scanDigits, if_neg houtside, hascii]
        have hbetween : isBetweenDigits c = true := decide_eq_true houtside
        refine .stopped c ?_ hascii
        rw [takeWhile_digits hdigits, List.takeWhile_cons_of_pos hbetween]
        exact List.mem_append_right _ List.mem_cons_self

/-! ### The parser is exact -/

variable {s : List Char}

theorem startsWithMinus_iff : startsWithMinus s = true ↔ ∃ rest, characters s = ['-'] :: rest := by
  have hminus : nfc ['-'] = ['-'] := nfc_singleton (by decide)
  rw [startsWithMinus, decide_eq_true_eq, Equivalent, hminus]
  constructor
  · intro h
    cases hchars : characters s with
    | nil =>
        rw [hchars, List.headD_nil, nfc_of_isAscii [] nofun] at h
        cases h
    | cons c rest =>
        rw [hchars, List.headD_cons] at h
        exact ⟨rest, by rw [eq_of_nfc_eq c '-' (Or.inl rfl) h]⟩
  · rintro ⟨rest, hrest⟩
    rw [hrest]
    exact hminus

/-- Where the loop finds digits only, they are the string without its sign. -/
theorem unsigned_of_afterMinus {digits : List Char} (h : afterMinus s = digits.map ([·]))
    (hdigits : ∀ d ∈ digits, d.isDigit = true) : isNegative s = startsWithMinus s ∧ unsigned s = digits := by
  have hflatten := flatten_characters s
  cases hminus : startsWithMinus s with
  | true =>
      obtain ⟨rest, hrest⟩ := startsWithMinus_iff.mp hminus
      rw [afterMinus, hminus, if_pos rfl, hrest, List.tail_cons] at h
      rw [hrest, h, List.flatten_cons, flatten_map_singleton, List.singleton_append] at hflatten
      rw [← hflatten]
      exact ⟨rfl, rfl⟩
  | false =>
      rw [afterMinus, hminus, if_neg Bool.false_ne_true] at h
      rw [h, flatten_map_singleton] at hflatten
      rw [← hflatten]
      have hnegative : isNegative digits = false := by
        refine decide_eq_false fun hhead => ?_
        exact absurd (hdigits '-' (List.mem_of_head? hhead)) (by decide)
      rw [unsigned, hnegative, if_neg Bool.false_ne_true]
      exact ⟨rfl, rfl⟩

/-- The string without its sign is what the loop finds where it has digits only. -/
theorem afterMinus_of_unsigned (hdigits : ∀ d ∈ unsigned s, d.isDigit = true) :
    afterMinus s = (unsigned s).map ([·]) := by
  have hcharacters : characters s = s.map ([·]) := by
    refine characters_of_isAscii s fun c hc => ?_
    have hcase : c = '-' ∨ c.isDigit = true := by
      unfold unsigned isNegative at hdigits
      split_ifs at hdigits with hnegative
      · obtain ⟨rest, rfl⟩ := List.head?_eq_some_iff.mp (of_decide_eq_true hnegative)
        rcases List.mem_cons.mp hc with rfl | hrest
        · exact Or.inl rfl
        · exact Or.inr (hdigits c hrest)
      · exact Or.inr (hdigits c hc)
    rcases hcase with rfl | hdigit
    · decide
    · refine ⟨isAscii_of_isDigit hdigit, ?_⟩
      rintro rfl
      exact absurd hdigit (by decide)
  unfold afterMinus unsigned
  by_cases hnegative : isNegative s = true
  · obtain ⟨rest, rfl⟩ := List.head?_eq_some_iff.mp (of_decide_eq_true hnegative)
    rw [if_pos (startsWithMinus_iff.mpr ⟨_, hcharacters⟩), if_pos hnegative, hcharacters]
    rfl
  · have hminus : ¬startsWithMinus s = true := by
      intro hminus
      obtain ⟨rest, hrest⟩ := startsWithMinus_iff.mp hminus
      rw [hcharacters] at hrest
      obtain ⟨c, tail, rfl, hc, -⟩ := List.map_eq_cons_iff.mp hrest
      cases hc
      exact hnegative rfl
    rw [if_neg hminus, if_neg hnegative, hcharacters]

theorem keyInteger_eq_none_of_afterMinus
    (h : ∀ digits : List Char, (∀ d ∈ digits, d.isDigit = true) → afterMinus s ≠ digits.map ([·])) :
    keyInteger s = none := by
  refine if_neg ?_
  rintro ⟨-, -, hall, -⟩
  have hdigits := List.all_eq_true.mp hall
  exact h _ hdigits (afterMinus_of_unsigned hdigits)

theorem keyInteger_eq_none_of_nil (h : afterMinus s = []) : Scannable s ∧ keyInteger s = none := by
  refine ⟨Or.inr ?_, if_neg fun hkey => hkey.2.1 (@unsigned_of_afterMinus _ s [] h nofun).2⟩
  rw [scannedDigits, h]
  exact nofun

/-- The parser returns the integer of the key, or it unwraps a missing ASCII value. -/
theorem tryParseStringToInt_eq (s : List Char) :
    tryParseStringToInt s = if Scannable s then .ok (keyInteger s) else .error .unwrappedNil := by
  rw [tryParseStringToInt]
  by_cases hlength : (characters s).length > 11 ∨ (characters s).length = 0
  · rw [if_pos hlength]
    rcases hlength with hlong | hzero
    · have hscannable : Scannable s := Or.inl hlong
      rw [if_pos hscannable, keyInteger, if_neg fun h => absurd h.1 (Nat.not_le.mpr hlong)]
    · have hnil : afterMinus s = [] := by
        rw [afterMinus, List.length_eq_zero_iff.mp hzero]
        split_ifs <;> rfl
      obtain ⟨hscannable, hnone⟩ := keyInteger_eq_none_of_nil hnil
      rw [if_pos hscannable, hnone]
  rw [if_neg hlength]
  by_cases hminus : startsWithMinus s = true ∧ (characters s).length = 1
  · have hnil : afterMinus s = [] := by
      obtain ⟨rest, hrest⟩ := startsWithMinus_iff.mp hminus.1
      rw [hrest, List.length_cons, Nat.add_eq_right] at hminus
      rw [afterMinus, if_pos hminus.1, hrest]
      exact List.length_eq_zero_iff.mp hminus.2
    obtain ⟨hscannable, hnone⟩ := keyInteger_eq_none_of_nil hnil
    rw [if_pos hminus, if_pos hscannable, hnone]
  rw [if_neg hminus]
  have hshort : (characters s).length ≤ 11 := by omega
  have hle : (afterMinus s).length ≤ (characters s).length := by
    unfold afterMinus
    split_ifs
    · rw [List.length_tail]
      exact Nat.sub_le _ _
    · exact le_rfl
  have houtcome := scanOutcome (hle.trans hshort)
  generalize scanDigits (afterMinus s) 0 = outcome at houtcome
  cases houtcome with
  | integer digits hchars hdigits =>
      obtain ⟨hnegative, hunsigned⟩ := unsigned_of_afterMinus hchars hdigits
      have hscannable : Scannable s := by
        right
        intro c hc
        rw [scannedDigits, hchars] at hc
        obtain ⟨d, hd, rfl⟩ := List.mem_map.mp ((List.takeWhile_subset _) hc)
        exact (inside_of_isDigit (hdigits d hd)).2
      have hdigitsNe : digits ≠ [] := by
        rintro rfl
        unfold afterMinus at hchars
        split_ifs at hchars with hstarts
        · obtain ⟨rest, hrest⟩ := startsWithMinus_iff.mp hstarts
          rw [hrest] at hchars hminus
          cases hchars
          exact hminus ⟨hstarts, rfl⟩
        · exact hlength (Or.inr (congrArg List.length hchars))
      have hvalue : digitsValue digits < 10 ^ 11 := by
        refine digitsValue_lt hdigits ?_
        rw [hchars, List.length_map] at hle
        exact hle.trans hshort
      rw [ok_bind, finishInteger_eq hvalue, if_pos hscannable, keyInteger, hnegative, hunsigned]
      refine congrArg Except.ok (if_congr ?_ rfl rfl)
      exact ⟨fun hrange => ⟨hshort, hdigitsNe, List.all_eq_true.mpr hdigits, hrange⟩, fun h => h.2.2.2⟩
  | rejected hchars hscanned =>
      have hscannable : Scannable s := Or.inr hscanned
      rw [if_pos hscannable, keyInteger_eq_none_of_afterMinus hchars]
      rfl
  | stopped c hscanned hascii =>
      have hscannable : ¬Scannable s := by
        rintro (hlong | hall)
        · omega
        · have hsome := hall c hscanned
          rw [hascii] at hsome
          cases hsome
      rw [if_neg hscannable]
      rfl

end Parser

end FirebaseSwift.Database
