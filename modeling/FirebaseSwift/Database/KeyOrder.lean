import FirebaseSwift.Database.IntegerKeys
import Mathlib.Data.Int.ConditionallyCompleteOrder
import Mathlib.Data.Prod.Lex
import Mathlib.Data.Sum.Order
import Mathlib.Order.WithBot

/-! The order of keys, `FUtilities.compareKey`. It has four classes: the least name, integers, other
strings, and the greatest name. The rank of a key says where it is. The order is strict and total on a set
of keys exactly if the program does not stop in their comparisons and no two keys are the same to it:
equivalent strings are, and zero with a minus and with one more digit. -/

namespace FirebaseSwift.Database

open UnicodeStrings

namespace FUtilities

def minName : List Char := "[MIN_NAME]".toList

def maxName : List Char := "[MAX_NAME]".toList

def compareIntegers (aAsInt bAsInt : Int) (aCount bCount : Nat) : Ordering :=
  if aAsInt > bAsInt then .gt
  else if aAsInt < bAsInt then .lt
  else if aCount > bCount then .gt
  else if aCount < bCount then .lt
  else .eq

def compareUnits (a b : List Char) : Ordering :=
  if utf16 a < utf16 b then .lt else if utf16 b < utf16 a then .gt else .eq

/-! ### Ranks -/

/-- The least name, the integers with their lengths, the units of other strings, the greatest name. -/
abbrev KeyRank := WithBot (WithTop (Lex ((ℤ ×ₗ ℕ) ⊕ List ℕ)))

def integerRank (value : Int) (count : Nat) : KeyRank :=
  WithBot.some (WithTop.some (toLex (Sum.inl (toLex (value, count)))))

def stringRank (s : List Char) : KeyRank :=
  WithBot.some (WithTop.some (toLex (Sum.inr (utf16 s))))

theorem integerRank_lt_iff {value value' : Int} {count count' : Nat} :
    integerRank value count < integerRank value' count' ↔
      value < value' ∨ value = value' ∧ count < count' := by
  unfold integerRank
  rw [WithBot.coe_lt_coe, WithTop.coe_lt_coe, Sum.Lex.inl_lt_inl_iff, Prod.Lex.toLex_lt_toLex]

theorem integerRank_inj {value value' : Int} {count count' : Nat} :
    integerRank value count = integerRank value' count' ↔ value = value' ∧ count = count' := by
  unfold integerRank
  rw [WithBot.coe_inj, WithTop.coe_inj, toLex_inj, Sum.inl.injEq, toLex_inj, Prod.mk.injEq]

theorem stringRank_lt_iff {a b : List Char} : stringRank a < stringRank b ↔ utf16 a < utf16 b := by
  unfold stringRank
  rw [WithBot.coe_lt_coe, WithTop.coe_lt_coe, Sum.Lex.inr_lt_inr_iff]

theorem stringRank_inj {a b : List Char} : stringRank a = stringRank b ↔ a = b := by
  unfold stringRank
  rw [WithBot.coe_inj, WithTop.coe_inj, toLex_inj, Sum.inr.injEq]
  exact ⟨utf16_injective, congrArg utf16⟩

theorem integerRank_lt_stringRank (value : Int) (count : Nat) (s : List Char) :
    integerRank value count < stringRank s := by
  unfold integerRank stringRank
  rw [WithBot.coe_lt_coe, WithTop.coe_lt_coe]
  exact Sum.Lex.inl_lt_inr _ _

theorem compareIntegers_eq (value value' : Int) (count count' : Nat) :
    compareIntegers value value' count count' = compare (integerRank value count) (integerRank value' count') := by
  unfold compareIntegers
  symm
  split_ifs with hgt hlt hlonger hshorter
  · exact compare_gt_iff_gt.mpr (integerRank_lt_iff.mpr (Or.inl hgt))
  · exact compare_lt_iff_lt.mpr (integerRank_lt_iff.mpr (Or.inl hlt))
  · exact compare_gt_iff_gt.mpr (integerRank_lt_iff.mpr (Or.inr ⟨by omega, hlonger⟩))
  · exact compare_lt_iff_lt.mpr (integerRank_lt_iff.mpr (Or.inr ⟨by omega, hshorter⟩))
  · exact compare_eq_iff_eq.mpr (integerRank_inj.mpr ⟨by omega, by omega⟩)

theorem compareUnits_eq (a b : List Char) : compareUnits a b = compare (stringRank a) (stringRank b) := by
  unfold compareUnits
  symm
  split_ifs with hlt hgt
  · exact compare_lt_iff_lt.mpr (stringRank_lt_iff.mpr hlt)
  · exact compare_gt_iff_gt.mpr (stringRank_lt_iff.mpr hgt)
  · have hunits : utf16 a = utf16 b := le_antisymm (not_lt.mp hgt) (not_lt.mp hlt)
    exact compare_eq_iff_eq.mpr (congrArg stringRank (utf16_injective hunits))

/-! ### The comparison goes by ranks -/

section Comparison

variable [UnicodeVersion]

def compareKey (a b : List Char) : Except Trap Ordering :=
  if Equivalent a b then .ok .eq
  else if Equivalent a minName ∨ Equivalent b maxName then .ok .lt
  else if Equivalent a maxName ∨ Equivalent b minName then .ok .gt
  else do
    match ← tryParseStringToInt a, ← tryParseStringToInt b with
    | some aAsInt, some bAsInt =>
        .ok (compareIntegers aAsInt bAsInt (characters a).length (characters b).length)
    | some _, none => .ok .lt
    | none, some _ => .ok .gt
    | none, none => .ok (compareUnits a b)

def keyRank (s : List Char) : KeyRank :=
  if Equivalent s minName then ⊥
  else if Equivalent s maxName then ⊤
  else
    match keyInteger s with
    | some value => integerRank value (characters s).length
    | none => stringRank s

def IsNamed (s : List Char) : Prop := Equivalent s minName ∨ Equivalent s maxName

instance decidableIsNamed (s : List Char) : Decidable (IsNamed s) := inferInstanceAs (Decidable (_ ∨ _))

theorem not_equivalent_names : ¬Equivalent minName maxName := by
  unfold Equivalent
  rw [nfc_of_isAscii minName (isAscii_of_all (by decide)), nfc_of_isAscii maxName (isAscii_of_all (by decide))]
  decide

theorem keyRank_eq_bot_iff {s : List Char} : keyRank s = ⊥ ↔ Equivalent s minName := by
  unfold keyRank
  split_ifs with hmin hmax
  · exact iff_of_true rfl hmin
  · exact iff_of_false (WithBot.coe_ne_bot) hmin
  · cases keyInteger s with
    | none => exact iff_of_false WithBot.coe_ne_bot hmin
    | some value => exact iff_of_false WithBot.coe_ne_bot hmin

theorem keyRank_eq_top_iff {s : List Char} : keyRank s = ⊤ ↔ Equivalent s maxName := by
  unfold keyRank
  split_ifs with hmin hmax
  · exact iff_of_false nofun fun hmax => not_equivalent_names (hmin.symm.trans hmax)
  · exact iff_of_true rfl hmax
  · cases keyInteger s with
    | none => exact iff_of_false (fun h => WithTop.coe_ne_top (WithBot.coe_inj.mp h)) hmax
    | some value => exact iff_of_false (fun h => WithTop.coe_ne_top (WithBot.coe_inj.mp h)) hmax

theorem keyRank_of_not_isNamed {s : List Char} (h : ¬IsNamed s) : keyRank s = match keyInteger s with
      | some value => integerRank value (characters s).length
      | none => stringRank s := by
  unfold keyRank
  rw [if_neg fun hmin => h (Or.inl hmin), if_neg fun hmax => h (Or.inr hmax)]

/-- Of two keys that are not equivalent, one is a name, or both are read. -/
def Readable (a b : List Char) : Prop := (IsNamed a ∨ IsNamed b) ∨ (Scannable a ∧ Scannable b)

theorem compareKey_of_readable {a b : List Char} (hdistinct : ¬Equivalent a b) (hreadable : Readable a b) :
    compareKey a b = .ok (compare (keyRank a) (keyRank b)) := by
  unfold compareKey
  rw [if_neg hdistinct]
  by_cases hascending : Equivalent a minName ∨ Equivalent b maxName
  · rw [if_pos hascending]
    refine congrArg Except.ok (compare_lt_iff_lt.mpr ?_).symm
    rcases hascending with hmin | hmax
    · have hb : keyRank b ≠ ⊥ := fun hbot => hdistinct (hmin.trans (keyRank_eq_bot_iff.mp hbot).symm)
      rw [keyRank_eq_bot_iff.mpr hmin]
      exact bot_lt_iff_ne_bot.mpr hb
    · have ha : keyRank a ≠ ⊤ := fun htop => hdistinct ((keyRank_eq_top_iff.mp htop).trans hmax.symm)
      rw [keyRank_eq_top_iff.mpr hmax]
      exact lt_top_iff_ne_top.mpr ha
  rw [if_neg hascending]
  by_cases hdescending : Equivalent a maxName ∨ Equivalent b minName
  · rw [if_pos hdescending]
    refine congrArg Except.ok (compare_gt_iff_gt.mpr ?_).symm
    rcases hdescending with hmax | hmin
    · have hb : keyRank b ≠ ⊤ := fun htop => hdistinct (hmax.trans (keyRank_eq_top_iff.mp htop).symm)
      rw [keyRank_eq_top_iff.mpr hmax]
      exact lt_top_iff_ne_top.mpr hb
    · have ha : keyRank a ≠ ⊥ := fun hbot => hdistinct ((keyRank_eq_bot_iff.mp hbot).trans hmin.symm)
      rw [keyRank_eq_bot_iff.mpr hmin]
      exact bot_lt_iff_ne_bot.mpr ha
  rw [if_neg hdescending]
  have ha : ¬IsNamed a := fun h => h.elim (fun hmin => hascending (Or.inl hmin))
    fun hmax => hdescending (Or.inl hmax)
  have hb : ¬IsNamed b := fun h => h.elim (fun hmin => hdescending (Or.inr hmin))
    fun hmax => hascending (Or.inr hmax)
  obtain ⟨hscanA, hscanB⟩ := hreadable.resolve_left fun h => h.elim ha hb
  rw [tryParseStringToInt_eq, if_pos hscanA, ok_bind, tryParseStringToInt_eq, if_pos hscanB, ok_bind,
    keyRank_of_not_isNamed ha, keyRank_of_not_isNamed hb]
  cases keyInteger a with
  | none =>
      cases keyInteger b with
      | none => exact congrArg Except.ok (compareUnits_eq a b)
      | some value => exact congrArg Except.ok (compare_gt_iff_gt.mpr (integerRank_lt_stringRank _ _ _)).symm
  | some value =>
      cases keyInteger b with
      | none => exact congrArg Except.ok (compare_lt_iff_lt.mpr (integerRank_lt_stringRank _ _ _)).symm
      | some value' => exact congrArg Except.ok (compareIntegers_eq _ _ _ _)

/-- The program stops where it reads a key that it cannot scan. -/
theorem compareKey_of_not_readable {a b : List Char} (hdistinct : ¬Equivalent a b)
    (hreadable : ¬Readable a b) : compareKey a b = .error .unwrappedNil := by
  obtain ⟨hnamed, hscan⟩ := not_or.mp hreadable
  obtain ⟨ha, hb⟩ := not_or.mp hnamed
  unfold compareKey
  rw [if_neg hdistinct, if_neg fun h => h.elim (fun h => ha (Or.inl h)) fun h => hb (Or.inr h),
    if_neg fun h => h.elim (fun h => ha (Or.inr h)) fun h => hb (Or.inl h), tryParseStringToInt_eq]
  by_cases hscanA : Scannable a
  · rw [if_pos hscanA, ok_bind, tryParseStringToInt_eq, if_neg fun hscanB => hscan ⟨hscanA, hscanB⟩]
    rfl
  · rw [if_neg hscanA]
    rfl

/-- Two keys are parsed exactly and compared without a stop exactly if both can be scanned. -/
theorem tryParseStringToInt_exact_iff (a b : List Char) :
    (tryParseStringToInt a = .ok (keyInteger a) ∧ tryParseStringToInt b = .ok (keyInteger b) ∧
      ∃ ordering, compareKey a b = .ok ordering) ↔ Scannable a ∧ Scannable b := by
  have hexact : ∀ s : List Char, tryParseStringToInt s = .ok (keyInteger s) ↔ Scannable s := by
    intro s
    rw [tryParseStringToInt_eq]
    by_cases hscannable : Scannable s
    · rw [if_pos hscannable]
      exact iff_of_true rfl hscannable
    · rw [if_neg hscannable]
      exact iff_of_false nofun hscannable
  rw [hexact, hexact]
  constructor
  · exact fun h => ⟨h.1, h.2.1⟩
  · rintro ⟨ha, hb⟩
    refine ⟨ha, hb, ?_⟩
    by_cases hdistinct : Equivalent a b
    · exact ⟨.eq, if_pos hdistinct⟩
    · exact ⟨_, compareKey_of_readable hdistinct (Or.inr ⟨ha, hb⟩)⟩

end Comparison

/-- A digit in a keycap has no ASCII value. -/
theorem tryParseStringToInt_fails : ¬∀ s : List Char,
    @tryParseStringToInt marksOnly s = .ok (@keyInteger marksOnly s) := by
  intro h
  exact absurd (h ['1', '\u20E3']) (by decide)

end FUtilities

end FirebaseSwift.Database
