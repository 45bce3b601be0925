import FirebaseSwift.Database.SnapshotUtilities

/-! The keys of an array. The loop over the children finds out whether all keys are integers without leading
zeros, and the greatest of them. An integer key that has no minus is the text of a position, an integer key
with a minus is not. -/

namespace FirebaseSwift.Database

open UnicodeStrings FUtilities SortedDictionary

/-! ### Decimal texts -/

theorem digitChar_of_isDigit {c : Char} (hc : c.isDigit = true) : Nat.digitChar (c.toNat - '0'.toNat) = c := by
  obtain ⟨hlower, hupper⟩ := Char.isDigit_iff_toNat.mp hc
  have hzero : '0'.toNat = 48 := rfl
  have hnine : '9'.toNat = 57 := rfl
  have hdigit : ∀ d < 10, (Nat.digitChar d).toNat = 48 + d := by decide
  apply Char.toNat_inj.mp
  rw [hdigit _ (by omega)]
  omega

theorem toDigits_digitsFrom {digits : List Char} (hdigits : ∀ d ∈ digits, d.isDigit = true) {value : Nat}
    (hvalue : 0 < value) : Nat.toDigits 10 (digitsFrom value digits) = Nat.toDigits 10 value ++ digits := by
  induction digits generalizing value with
  | nil => exact (List.append_nil _).symm
  | cons d digits ih =>
      obtain ⟨hd, hdigits⟩ := List.forall_mem_cons.mp hdigits
      have hupper := (Char.isDigit_iff_toNat.mp hd).2
      have hnine : '9'.toNat = 57 := rfl
      have hzero : '0'.toNat = 48 := rfl
      have hlt : d.toNat - '0'.toNat < 10 := by omega
      have happend := Nat.toDigits_append_toDigits (b := 10) (by decide) hvalue hlt
      rw [Nat.toDigits_of_lt_base hlt, digitChar_of_isDigit hd] at happend
      calc Nat.toDigits 10 (digitsFrom value (d :: digits))
          = Nat.toDigits 10 (digitsFrom (value * 10 + (d.toNat - '0'.toNat)) digits) := rfl
        _ = Nat.toDigits 10 (value * 10 + (d.toNat - '0'.toNat)) ++ digits := ih hdigits (by omega)
        _ = Nat.toDigits 10 value ++ [d] ++ digits := by rw [happend, Nat.mul_comm value]
        _ = Nat.toDigits 10 value ++ d :: digits := by rw [List.append_assoc, List.singleton_append]

/-- Digits without a leading zero are the text of their value. -/
theorem toDigits_digitsValue {d : Char} {digits : List Char} (hdigits : ∀ c ∈ d :: digits, c.isDigit = true)
    (hlead : d ≠ '0' ∨ digits = []) : Nat.toDigits 10 (digitsValue (d :: digits)) = d :: digits := by
  obtain ⟨hd, hrest⟩ := List.forall_mem_cons.mp hdigits
  obtain ⟨hlower, hupper⟩ := Char.isDigit_iff_toNat.mp hd
  have hnine : '9'.toNat = 57 := rfl
  have hzero : '0'.toNat = 48 := rfl
  have hfirst : Nat.toDigits 10 (d.toNat - '0'.toNat) = [d] := by
    rw [Nat.toDigits_of_lt_base (by omega), digitChar_of_isDigit hd]
  have hvalue : digitsValue (d :: digits) = digitsFrom (d.toNat - '0'.toNat) digits := by
    rw [digitsValue, digitsFrom, List.foldl_cons, Nat.zero_mul, Nat.zero_add]
    rfl
  rw [hvalue]
  rcases hlead with hlead | rfl
  · have hpos : 0 < d.toNat - '0'.toNat := by
      have hne : d.toNat ≠ '0'.toNat := fun heq => hlead (Char.toNat_inj.mp heq)
      omega
    rw [toDigits_digitsFrom hrest hpos, hfirst, List.singleton_append]
  · exact hfirst

section Keys

variable [UnicodeVersion]

theorem characters_of_isDigit {s : List Char} (hdigits : ∀ c ∈ s, c.isDigit = true) :
    characters s = s.map ([·]) := by
  refine characters_of_isAscii s fun c hc => ⟨isAscii_of_isDigit (hdigits c hc), ?_⟩
  rintro rfl
  exact absurd (hdigits _ hc) (by decide)

theorem equivalent_zero_iff {c : Char} (hc : c.isDigit = true) : Equivalent [c] ['0'] ↔ c = '0' := by
  have hzero : nfc ['0'] = ['0'] := nfc_of_isAscii _ fun d hd => by
    cases List.mem_singleton.mp hd
    decide
  rw [Equivalent, nfc_singleton (isAscii_of_isDigit hc), hzero, List.singleton_inj]

theorem hasLeadingZero_iff {d : Char} {digits : List Char} (hdigits : ∀ c ∈ d :: digits, c.isDigit = true) :
    hasLeadingZero (d :: digits) = true ↔ d = '0' ∧ digits ≠ [] := by
  rw [hasLeadingZero, characters_of_isDigit hdigits, Bool.and_eq_true, decide_eq_true_iff, decide_eq_true_iff,
    List.map_cons, List.headD_cons, equivalent_zero_iff (List.forall_mem_cons.mp hdigits).1,
    List.length_cons, List.length_map, ← List.length_pos_iff]
  exact and_congr_right fun _ => Nat.succ_lt_succ_iff

/-- The integer that the loop reads from a key: no leading zero, and within 32 bits. -/
def scannedInteger (key : List Char) : Option Int :=
  if hasLeadingZero key then none else keyInteger key

/-- The text of a position is the integer key without a minus that has its value. -/
theorem scannedInteger_eq_some {key : List Char} {value : Int} (hkey : scannedInteger key = some value) :
    (isNegative key = false ∧ 0 ≤ value ∧ key = Nat.toDigits 10 value.toNat) ∨
      (isNegative key = true ∧ value ≤ 0 ∧ ∀ i, key ≠ Nat.toDigits 10 i) := by
  unfold scannedInteger at hkey
  split_ifs at hkey with hzero
  obtain ⟨-, hne, hdigits, -, rfl⟩ := keyInteger_eq_some_iff.mp hkey
  cases hnegative : isNegative key with
  | false =>
      have hunsigned : unsigned key = key := by rw [unsigned, hnegative, if_neg Bool.false_ne_true]
      rw [hunsigned] at hne hdigits
      refine Or.inl ⟨rfl, ?_, ?_⟩
      · rw [signed, if_neg Bool.false_ne_true]
        exact Int.natCast_nonneg _
      · rw [signed, if_neg Bool.false_ne_true, hunsigned, Int.toNat_natCast]
        cases key with
        | nil => exact absurd rfl hne
        | cons d digits =>
            rw [hasLeadingZero_iff hdigits] at hzero
            refine (toDigits_digitsValue hdigits ?_).symm
            by_contra hboth
            obtain ⟨hd, hrest⟩ := not_or.mp hboth
            exact hzero ⟨not_not.mp hd, hrest⟩
  | true =>
      refine Or.inr ⟨rfl, ?_, fun i heq => ?_⟩
      · rw [signed, if_pos rfl]
        exact Int.neg_nonpos_of_nonneg (Int.natCast_nonneg _)
      · have hminus : '-' ∈ Nat.toDigits 10 i := by
          rw [← heq, eq_of_unsigned hnegative]
          exact List.mem_cons_self
        exact absurd (Nat.isDigit_of_mem_toDigits (by decide) (by decide) hminus) (by decide)

/-! ### The loop over the keys -/

/-- The loop stops at no key: it reads keys only up to the first that is no integer. -/
def ScansKeys : List (List Char) → Prop
  | [] => True
  | key :: rest => hasLeadingZero key = true ∨ (Scannable key ∧ (keyInteger key = none ∨ ScansKeys rest))

/-- All keys are integers, and not more than half of the positions would be empty. -/
def BecomesArray (keys : List (List Char)) : Prop :=
  ∀ key ∈ keys, ∃ value ∈ scannedInteger key, value < 2 * keys.length

def KeyScan.nextKeys (scan : KeyScan) (keys : List (List Char)) : Except Trap KeyScan :=
  keys.foldlM KeyScan.next scan

theorem KeyScan.nextKeys_cons (scan : KeyScan) (key : List Char) (rest : List (List Char)) :
    scan.nextKeys (key :: rest) = scan.next key >>= fun scan => scan.nextKeys rest := List.foldlM_cons

theorem KeyScan.nextKeys_of_not {scan : KeyScan} (hall : scan.allIntegerKeys = false) (keys : List (List Char)) :
    scan.nextKeys keys = .ok { scan with numKeys := scan.numKeys + keys.length } := by
  induction keys generalizing scan with
  | nil => rfl
  | cons key rest ih =>
      rw [nextKeys_cons, KeyScan.next, hall]
      simp only [Bool.not_false, if_true, ok_bind]
      rw [ih rfl]
      simp only [List.length_cons, Nat.add_assoc, Nat.add_comm 1]

/-- What the loop finds out. -/
structure KeyScan.Scanned (scan : KeyScan) (keys : List (List Char)) (result : KeyScan) : Prop where
  numKeys : result.numKeys = scan.numKeys + keys.length
  allIntegerKeys : result.allIntegerKeys = true ↔ ∀ key ∈ keys, (scannedInteger key).isSome = true
  maxKey_lt : result.allIntegerKeys = true → ∀ bound : Int,
    result.maxKey < bound ↔ scan.maxKey < bound ∧ ∀ key ∈ keys, ∀ value ∈ scannedInteger key, value < bound

theorem KeyScan.nextKeys_eq {scan : KeyScan} (hall : scan.allIntegerKeys = true) (keys : List (List Char)) :
    (ScansKeys keys ∧ ∃ result, scan.nextKeys keys = .ok result ∧ scan.Scanned keys result) ∨
      (¬ScansKeys keys ∧ ∃ trap, scan.nextKeys keys = .error trap) := by
  induction keys generalizing scan with
  | nil =>
      refine Or.inl ⟨trivial, scan, rfl, rfl, ?_, fun _ bound => ?_⟩
      · exact iff_of_true hall nofun
      · exact (and_iff_left nofun).symm
  | cons key rest ih =>
      rw [nextKeys_cons, KeyScan.next, hall]
      simp only [Bool.not_true, Bool.false_eq_true, if_false]
      -- After a key that is no integer the loop only counts.
      have hcounts : scannedInteger key = none →
          ∃ result, ({ scan with numKeys := scan.numKeys + 1, allIntegerKeys := false } : KeyScan).nextKeys rest =
            .ok result ∧ scan.Scanned (key :: rest) result := by
        intro hnone
        refine ⟨_, nextKeys_of_not rfl rest, ?_, ?_, nofun⟩
        · simp only [List.length_cons]
          omega
        · refine iff_of_false nofun fun hkeys => ?_
          have hkey := hkeys key List.mem_cons_self
          rw [hnone] at hkey
          cases hkey
      by_cases hzero : hasLeadingZero key = true
      · rw [if_pos hzero, ok_bind]
        exact Or.inl ⟨Or.inl hzero, hcounts (if_pos hzero)⟩
      · rw [if_neg hzero, tryParseStringToInt_eq]
        have hscanned : scannedInteger key = keyInteger key := if_neg hzero
        by_cases hscannable : Scannable key
        · rw [if_pos hscannable, ok_bind]
          cases hinteger : keyInteger key with
          | none => exact Or.inl ⟨Or.inr ⟨hscannable, Or.inl hinteger⟩, hcounts (hscanned.trans hinteger)⟩
          | some value =>
              rw [hinteger] at hscanned
              dsimp only
              rw [ok_bind]
              rcases @ih { numKeys := scan.numKeys + 1, maxKey := max scan.maxKey value } rfl with
                ⟨hrest, result, hresult, hnum, hkeys, hmax⟩ | ⟨hrest, trap, htrap⟩
              · refine Or.inl ⟨Or.inr ⟨hscannable, Or.inr hrest⟩, result, hresult, ?_, ?_, fun hresultAll bound => ?_⟩
                · rw [hnum, List.length_cons]
                  dsimp only
                  omega
                · rw [hkeys, List.forall_mem_cons, hscanned]
                  exact (and_iff_right rfl).symm
                · rw [hmax hresultAll, List.forall_mem_cons, hscanned, ← and_assoc]
                  refine and_congr_left fun _ => ?_
                  rw [max_lt_iff]
                  exact and_congr_right fun _ => by simp
              · refine Or.inr ⟨?_, trap, htrap⟩
                rintro (hlead | ⟨-, hnone | hrest'⟩)
                · exact hzero hlead
                · rw [hinteger] at hnone
                  cases hnone
                · exact hrest hrest'
        · rw [if_neg hscannable]
          refine Or.inr ⟨?_, _, rfl⟩
          rintro (hlead | ⟨hscan, -⟩)
          · exact hzero hlead
          · exact hscannable hscan

/-- The test of the loop's result is that the keys become an array. -/
theorem KeyScan.Scanned.becomesArray_iff {keys : List (List Char)} {result : KeyScan} (hne : keys ≠ [])
    (h : ({} : KeyScan).Scanned keys result) :
    (result.allIntegerKeys = true ∧ result.maxKey < 2 * result.numKeys) ↔ BecomesArray keys := by
  have hnum : result.numKeys = keys.length := by
    rw [h.numKeys]
    exact Nat.zero_add _
  have hpos := List.length_pos_iff.mpr hne
  constructor
  · rintro ⟨hall, hlt⟩ key hkey
    obtain ⟨value, hvalue⟩ := Option.isSome_iff_exists.mp (h.allIntegerKeys.mp hall key hkey)
    rw [hnum] at hlt
    exact ⟨value, hvalue, ((h.maxKey_lt hall _).mp hlt).2 key hkey value hvalue⟩
  · intro harray
    have hall : result.allIntegerKeys = true := by
      refine h.allIntegerKeys.mpr fun key hkey => ?_
      obtain ⟨value, hvalue, -⟩ := harray key hkey
      exact Option.isSome_of_mem hvalue
    refine ⟨hall, ?_⟩
    rw [hnum, h.maxKey_lt hall]
    refine ⟨?_, fun key hkey value hvalue => ?_⟩
    · show (0 : Int) < 2 * keys.length
      omega
    · obtain ⟨value', hvalue', hlt⟩ := harray key hkey
      cases Option.mem_unique hvalue hvalue'
      exact hlt

end Keys

end FirebaseSwift.Database
