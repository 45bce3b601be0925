import FirebaseSwift.Database.KeyOrder
import FirebaseSwift.Database.Path

/-! Sets of keys. On a set of keys `FUtilities.compareKey` is a strict total order exactly if the program
reads any two of them, and no two are the same to it. Such a set is a type of database keys. -/

namespace FirebaseSwift.Database

open UnicodeStrings

theorem digitsFrom_inj {digits digits' : List Char} (hdigits : ∀ d ∈ digits, d.isDigit = true)
    (hdigits' : ∀ d ∈ digits', d.isDigit = true) (hlength : digits.length = digits'.length)
    {value value' : Nat} (h : digitsFrom value digits = digitsFrom value' digits') :
    value = value' ∧ digits = digits' := by
  induction digits generalizing digits' value value' with
  | nil =>
      cases List.length_eq_zero_iff.mp hlength.symm
      exact ⟨h, rfl⟩
  | cons d digits ih =>
      cases digits' with
      | nil => cases hlength
      | cons d' digits' =>
          obtain ⟨hd, hdigits⟩ := List.forall_mem_cons.mp hdigits
          obtain ⟨hd', hdigits'⟩ := List.forall_mem_cons.mp hdigits'
          have hboth := ih hdigits hdigits' (Nat.succ.inj hlength) h
          have hnext : value * 10 + (d.toNat - '0'.toNat) = value' * 10 + (d'.toNat - '0'.toNat) := hboth.1
          have hlower := Char.isDigit_iff_toNat.mp hd
          have hlower' := Char.isDigit_iff_toNat.mp hd'
          have hzero : '0'.toNat = 48 := rfl
          have hnine : '9'.toNat = 57 := rfl
          have hsame : d.toNat = d'.toNat := by omega
          rw [Char.toNat_inj.mp hsame, hboth.2]
          exact ⟨by omega, rfl⟩

theorem digitsValue_replicate (n : Nat) : digitsValue (List.replicate n '0') = 0 := by
  unfold digitsValue
  induction n with
  | zero => rfl
  | succ n ih => exact ih

/-- Zero with a minus, and zero with as many characters. -/
def SameZero (a b : List Char) : Prop :=
  ∃ n < 10, a = '-' :: List.replicate (n + 1) '0' ∧ b = List.replicate (n + 2) '0'

theorem eq_of_unsigned {s : List Char} (h : isNegative s = true) : s = '-' :: unsigned s := by
  obtain ⟨rest, rfl⟩ := List.head?_eq_some_iff.mp (of_decide_eq_true h)
  rfl

section Integers

variable [UnicodeVersion]
variable {s : List Char} {value : Int}

theorem keyInteger_eq_some_iff : keyInteger s = some value ↔
      (characters s).length ≤ 11 ∧ unsigned s ≠ [] ∧ (∀ c ∈ unsigned s, c.isDigit = true) ∧
        (-2 ^ 31 ≤ value ∧ value ≤ 2 ^ 31 - 1) ∧
          value = signed (isNegative s) (digitsValue (unsigned s)) := by
  rw [keyInteger]
  constructor
  · intro h
    split_ifs at h with hkey
    obtain ⟨hlength, hne, hdigits, hrange⟩ := hkey
    rw [Option.some.injEq] at h
    exact ⟨hlength, hne, List.all_eq_true.mp hdigits, h ▸ hrange, h.symm⟩
  · rintro ⟨hlength, hne, hdigits, hrange, rfl⟩
    exact if_pos ⟨hlength, hne, List.all_eq_true.mpr hdigits, hrange⟩

theorem mem_of_keyInteger (h : keyInteger s = some value) {c : Char} (hc : c ∈ s) : c = '-' ∨ c.isDigit = true := by
  obtain ⟨-, -, hdigits, -⟩ := keyInteger_eq_some_iff.mp h
  cases hnegative : isNegative s with
  | true =>
      rw [eq_of_unsigned hnegative] at hc
      exact (List.mem_cons.mp hc).imp id (hdigits c)
  | false =>
      rw [unsigned, hnegative] at hdigits
      exact Or.inr (hdigits c hc)

theorem isAscii_of_keyInteger (h : keyInteger s = some value) : ∀ c ∈ s, IsAscii c ∧ c ≠ '\r' := by
  intro c hc
  rcases mem_of_keyInteger h hc with rfl | hdigit
  · decide
  · refine ⟨isAscii_of_isDigit hdigit, ?_⟩
    rintro rfl
    exact absurd hdigit (by decide)

theorem length_characters_of_keyInteger (h : keyInteger s = some value) : (characters s).length = s.length := by
  rw [characters_of_isAscii s (isAscii_of_keyInteger h), List.length_map]

theorem sameZero_of_signs {a b : List Char} (ha : keyInteger a = some value) (hb : keyInteger b = some value)
    (hlength : a.length = b.length) (hnegative : isNegative a = true) (hpositive : isNegative b = false) :
    SameZero a b := by
  have hlengthA := length_characters_of_keyInteger ha
  obtain ⟨hshort, hne, hdigitsA, -, hvalueA⟩ := keyInteger_eq_some_iff.mp ha
  obtain ⟨-, -, hdigitsB, -, hvalueB⟩ := keyInteger_eq_some_iff.mp hb
  have hunsigned : unsigned b = b := by rw [unsigned, hpositive, if_neg Bool.false_ne_true]
  rw [hunsigned] at hdigitsB hvalueB
  rw [hnegative] at hvalueA
  rw [hpositive] at hvalueB
  have hvalues : -(digitsValue (unsigned a) : Int) = digitsValue b := hvalueA.symm.trans hvalueB
  have hzeros : ∀ digits : List Char, (∀ d ∈ digits, d.isDigit = true) → digitsValue digits = 0 →
      digits = List.replicate digits.length '0' := by
    intro digits hdigits hzero
    refine (digitsFrom_inj hdigits ?_ List.length_replicate.symm
      (hzero.trans (digitsValue_replicate digits.length).symm)).2
    intro d hd
    rw [List.eq_of_mem_replicate hd]
    rfl
  have hb := hzeros b hdigitsB (by omega)
  have ha := hzeros (unsigned a) hdigitsA (by omega)
  have hsplit := eq_of_unsigned hnegative
  have hcount : a.length = (unsigned a).length + 1 := by
    rw [hsplit]
    rfl
  have hpos : 0 < (unsigned a).length := List.length_pos_iff.mpr hne
  refine ⟨(unsigned a).length - 1, by omega, ?_, ?_⟩
  · rw [Nat.sub_add_cancel hpos, ← ha]
    exact hsplit
  · rw [hb, ← hlength, hcount]
    congr 1
    omega

/-- Different integer keys of one value and one length are both zero. -/
theorem sameZero_of_keyInteger {a b : List Char} (ha : keyInteger a = some value)
    (hb : keyInteger b = some value) (hlength : a.length = b.length) (hne : a ≠ b) :
    SameZero a b ∨ SameZero b a := by
  obtain ⟨-, -, hdigitsA, -, hvalueA⟩ := keyInteger_eq_some_iff.mp ha
  obtain ⟨-, -, hdigitsB, -, hvalueB⟩ := keyInteger_eq_some_iff.mp hb
  cases hsignA : isNegative a with
  | true =>
      cases hsignB : isNegative b with
      | true =>
          have hsplitA := eq_of_unsigned hsignA
          have hsplitB := eq_of_unsigned hsignB
          have hvalues : digitsValue (unsigned a) = digitsValue (unsigned b) := by
            rw [hsignA] at hvalueA
            rw [hsignB, hvalueA] at hvalueB
            have hsigned : -(digitsValue (unsigned a) : Int) = -digitsValue (unsigned b) := hvalueB
            omega
          have hlengths : (unsigned a).length = (unsigned b).length := by
            rw [hsplitA, hsplitB] at hlength
            exact Nat.succ.inj hlength
          have hsame := (digitsFrom_inj hdigitsA hdigitsB hlengths hvalues).2
          rw [hsplitA, hsplitB, hsame] at hne
          exact absurd rfl hne
      | false => exact Or.inl (sameZero_of_signs ha hb hlength hsignA hsignB)
  | false =>
      cases hsignB : isNegative b with
      | true => exact Or.inr (sameZero_of_signs hb ha hlength.symm hsignB hsignA)
      | false =>
          rw [unsigned, hsignA, if_neg Bool.false_ne_true] at hdigitsA hvalueA
          rw [unsigned, hsignB, if_neg Bool.false_ne_true] at hdigitsB hvalueB
          have hvalues : digitsValue a = digitsValue b := Int.ofNat.inj (hvalueA.symm.trans hvalueB)
          exact absurd (digitsFrom_inj hdigitsA hdigitsB hlength hvalues).2 hne

theorem scannable_of_keyInteger (h : keyInteger s = some value) : Scannable s := by
  obtain ⟨-, -, hdigits, -⟩ := keyInteger_eq_some_iff.mp h
  right
  intro c hc
  rw [scannedDigits, afterMinus_of_unsigned hdigits] at hc
  obtain ⟨d, hd, rfl⟩ := List.mem_map.mp ((List.takeWhile_subset _) hc)
  exact (inside_of_isDigit (hdigits d hd)).2

theorem keyInteger_of_sameZero {a b : List Char} (h : SameZero a b) :
    keyInteger a = some 0 ∧ keyInteger b = some 0 ∧ a.length = b.length ∧ a ≠ b := by
  obtain ⟨n, hn, rfl, rfl⟩ := h
  have hdigits : ∀ k, ∀ c ∈ List.replicate k '0', c.isDigit = true := by
    intro k c hc
    rw [List.eq_of_mem_replicate hc]
    rfl
  have hlength : ∀ s : List Char, (∀ c ∈ s, c = '-' ∨ c = '0') → s.length = n + 2 →
      (characters s).length ≤ 11 := by
    intro s hs hslength
    rw [characters_of_isAscii s, List.length_map, hslength]
    · omega
    · intro c hc
      rcases hs c hc with rfl | rfl <;> decide
  refine ⟨keyInteger_eq_some_iff.mpr ⟨hlength _ ?_ ?_, nofun, hdigits (n + 1), by decide, ?_⟩,
    keyInteger_eq_some_iff.mpr ⟨hlength _ ?_ ?_, nofun, hdigits (n + 2), by decide, ?_⟩, ?_, nofun⟩
  · intro c hc
    exact (List.mem_cons.mp hc).imp id List.eq_of_mem_replicate
  · rw [List.length_cons, List.length_replicate]
  · show 0 = -((digitsValue (List.replicate (n + 1) '0') : Nat) : Int)
    rw [digitsValue_replicate]
    rfl
  · exact fun c hc => Or.inr (List.eq_of_mem_replicate hc)
  · rw [List.length_replicate]
  · show 0 = ((digitsValue (List.replicate (n + 2) '0') : Nat) : Int)
    rw [digitsValue_replicate]
    rfl
  · rw [List.length_cons, List.length_replicate, List.length_replicate]

end Integers

namespace FUtilities

section KeySets

variable [UnicodeVersion]

/-- On the keys the comparison has a result, the opposite one the other way round, it is transitive, and it
is equal for the same units only. -/
structure StrictTotalOrderOn (keys : Set (List Char)) : Prop where
  opposite : ∀ a ∈ keys, ∀ b ∈ keys, ∃ ordering : Ordering,
    compareKey a b = .ok ordering ∧ compareKey b a = .ok ordering.swap
  transitive : ∀ a ∈ keys, ∀ b ∈ keys, ∀ c ∈ keys, compareKey a b = .ok .lt →
    compareKey b c = .ok .lt → compareKey a c = .ok .lt
  same_iff : ∀ a ∈ keys, ∀ b ∈ keys, compareKey a b = .ok .eq ↔ utf16 a = utf16 b

/-- Different keys are not equivalent, they can be read, and they are not both zero with the same length. -/
def IsKeySet (keys : Set (List Char)) : Prop :=
  ∀ a ∈ keys, ∀ b ∈ keys, a ≠ b → ¬Equivalent a b ∧ Readable a b ∧ ¬SameZero a b

theorem compareKey_self (a : List Char) : compareKey a a = .ok .eq := if_pos (Equivalent.refl a)

variable {keys : Set (List Char)}

theorem compareKey_of_isKeySet (h : IsKeySet keys) {a b : List Char} (ha : a ∈ keys) (hb : b ∈ keys) :
    compareKey a b = .ok (compare (keyRank a) (keyRank b)) := by
  by_cases hab : a = b
  · rw [hab, compareKey_self, compare_eq_iff_eq.mpr rfl]
  · obtain ⟨hdistinct, hreadable, -⟩ := h a ha b hb hab
    exact compareKey_of_readable hdistinct hreadable

/-- A key set has different ranks. -/
theorem keyRank_inj (h : IsKeySet keys) {a b : List Char} (ha : a ∈ keys) (hb : b ∈ keys)
    (hrank : keyRank a = keyRank b) : a = b := by
  by_contra hab
  obtain ⟨hdistinct, -, hzero⟩ := h a ha b hb hab
  obtain ⟨-, -, hzero'⟩ := h b hb a ha (Ne.symm hab)
  have hnamed : ¬IsNamed a := by
    rintro (hmin | hmax)
    · have hbot := keyRank_eq_bot_iff.mpr hmin
      rw [hrank] at hbot
      exact hdistinct (hmin.trans (keyRank_eq_bot_iff.mp hbot).symm)
    · have htop := keyRank_eq_top_iff.mpr hmax
      rw [hrank] at htop
      exact hdistinct (hmax.trans (keyRank_eq_top_iff.mp htop).symm)
  have hnamed' : ¬IsNamed b := by
    rintro (hmin | hmax)
    · have hbot := keyRank_eq_bot_iff.mpr hmin
      rw [← hrank] at hbot
      exact hnamed (Or.inl (keyRank_eq_bot_iff.mp hbot))
    · have htop := keyRank_eq_top_iff.mpr hmax
      rw [← hrank] at htop
      exact hnamed (Or.inr (keyRank_eq_top_iff.mp htop))
  rw [keyRank_of_not_isNamed hnamed, keyRank_of_not_isNamed hnamed'] at hrank
  cases hintA : keyInteger a with
  | none =>
      rw [hintA] at hrank
      cases hintB : keyInteger b with
      | none =>
          rw [hintB] at hrank
          exact hab (stringRank_inj.mp hrank)
      | some value =>
          rw [hintB] at hrank
          exact absurd hrank.symm (integerRank_lt_stringRank _ _ _).ne
  | some value =>
      rw [hintA] at hrank
      cases hintB : keyInteger b with
      | none =>
          rw [hintB] at hrank
          exact absurd hrank (integerRank_lt_stringRank _ _ _).ne
      | some value' =>
          rw [hintB] at hrank
          obtain ⟨rfl, hlength⟩ := integerRank_inj.mp hrank
          rw [length_characters_of_keyInteger hintA, length_characters_of_keyInteger hintB] at hlength
          rcases sameZero_of_keyInteger hintA hintB hlength hab with hsame | hsame
          · exact hzero hsame
          · exact hzero' hsame

theorem not_isNamed_of_keyInteger {s : List Char} {value : Int} (h : keyInteger s = some value) : ¬IsNamed s := by
  have hself : nfc s = s := nfc_of_isAscii s fun c hc => (isAscii_of_keyInteger h c hc).1
  rintro (hmin | hmax)
  · have hs : s = minName := hself.symm.trans (Eq.trans hmin (nfc_of_isAscii minName (isAscii_of_all (by decide))))
    subst hs
    exact absurd (mem_of_keyInteger h (by decide : 'M' ∈ minName)) (by decide)
  · have hs : s = maxName := hself.symm.trans (Eq.trans hmax (nfc_of_isAscii maxName (isAscii_of_all (by decide))))
    subst hs
    exact absurd (mem_of_keyInteger h (by decide : 'M' ∈ maxName)) (by decide)

theorem keyRank_of_keyInteger {s : List Char} {value : Int} (h : keyInteger s = some value) :
    keyRank s = integerRank value s.length := by
  rw [keyRank_of_not_isNamed (not_isNamed_of_keyInteger h), h, ← length_characters_of_keyInteger h]

theorem compareKey_of_sameZero {a b : List Char} (h : SameZero a b) : compareKey a b = .ok .eq := by
  obtain ⟨ha, hb, hlength, -⟩ := keyInteger_of_sameZero h
  by_cases hdistinct : Equivalent a b
  · exact if_pos hdistinct
  · rw [compareKey_of_readable hdistinct (Or.inr ⟨scannable_of_keyInteger ha, scannable_of_keyInteger hb⟩),
      keyRank_of_keyInteger ha, keyRank_of_keyInteger hb, hlength, compare_eq_iff_eq.mpr rfl]

theorem strictTotalOrderOn_iff (keys : Set (List Char)) : StrictTotalOrderOn keys ↔ IsKeySet keys := by
  constructor
  · intro h a ha b hb hab
    have hsame : ¬compareKey a b = .ok .eq := fun heq => hab (utf16_injective ((h.same_iff a ha b hb).mp heq))
    have hdistinct : ¬Equivalent a b := fun hequivalent => hsame (if_pos hequivalent)
    refine ⟨hdistinct, ?_, fun hzero => hsame (compareKey_of_sameZero hzero)⟩
    by_contra hreadable
    obtain ⟨ordering, hordering, -⟩ := h.opposite a ha b hb
    rw [compareKey_of_not_readable hdistinct hreadable] at hordering
    cases hordering
  · intro h
    constructor
    · intro a ha b hb
      refine ⟨_, compareKey_of_isKeySet h ha hb, ?_⟩
      rw [compareKey_of_isKeySet h hb ha]
      exact congrArg Except.ok Std.OrientedCmp.eq_swap
    · intro a ha b hb c hc hab hbc
      rw [compareKey_of_isKeySet h ha hb, Except.ok.injEq, compare_lt_iff_lt] at hab
      rw [compareKey_of_isKeySet h hb hc, Except.ok.injEq, compare_lt_iff_lt] at hbc
      rw [compareKey_of_isKeySet h ha hc, compare_lt_iff_lt.mpr (hab.trans hbc)]
    · intro a ha b hb
      rw [compareKey_of_isKeySet h ha hb, Except.ok.injEq, compare_eq_iff_eq]
      constructor
      · exact fun hrank => congrArg utf16 (keyRank_inj h ha hb hrank)
      · exact fun hunits => congrArg keyRank (utf16_injective hunits)

end KeySets

theorem not_strictTotalOrderOn_zeros :
    ¬@StrictTotalOrderOn marksOnly {['-', '0'], ['0', '0']} := by
  intro h
  let _ := marksOnly
  have hleft : ['-', '0'] ∈ ({['-', '0'], ['0', '0']} : Set (List Char)) := Or.inl rfl
  have hright : ['0', '0'] ∈ ({['-', '0'], ['0', '0']} : Set (List Char)) := Or.inr rfl
  exact absurd ((h.same_iff _ hleft _ hright).mp (by decide)) (by decide)

/-! ### Keys of a set -/

/-- On a key set with the key of priorities both orders of the keys are total. -/
@[reducible] def databaseKeyOf [UnicodeVersion] {keys : Set (List Char)} (h : IsKeySet keys)
    (hpriority : ".priority".toList ∈ keys) : DatabaseKey keys :=
  { LinearOrder.lift' (fun key : keys => nfc key.1) (by
      intro a b hab
      by_contra hne
      exact (h a.1 a.2 b.1 b.2 fun heq => hne (Subtype.ext heq)).1 hab) with
    priority := ⟨".priority".toList, hpriority⟩
    compareKey := fun a b => compareKey a.1 b.1 = .ok .lt
    decidableCompareKey := fun a b => inferInstanceAs (Decidable (compareKey a.1 b.1 = .ok .lt))
    strictCompareKey := by
      have hlt : ∀ a b : keys, compareKey a.1 b.1 = .ok .lt ↔ keyRank a.1 < keyRank b.1 := by
        intro a b
        rw [compareKey_of_isKeySet h a.2 b.2, Except.ok.injEq, compare_lt_iff_lt]
      exact
        { trichotomous := by
            intro a b hab hba
            rw [hlt] at hab hba
            exact Subtype.ext (keyRank_inj h a.2 b.2 (le_antisymm (not_lt.mp hba) (not_lt.mp hab)))
          irrefl := fun a ha => lt_irrefl _ ((hlt a a).mp ha)
          trans := fun a b c hab hbc =>
            (hlt a c).mpr (((hlt a b).mp hab).trans ((hlt b c).mp hbc)) } }

end FUtilities

end FirebaseSwift.Database
