import Mathlib.Data.Char
import Mathlib.Data.List.Lex
import Mathlib.Data.Nat.Digits.Defs

/-! Strings as sequences of Unicode scalars. How a string is composed and where it is broken into
characters depends on the version of Unicode: a version is a parameter, and what is used of it holds in all
versions. Two strings are equivalent if they are composed to the same scalars, and strings are ordered by
their composed scalars. The UTF-16 units of a string determine it. -/

namespace UnicodeStrings

def IsAscii (c : Char) : Prop := c.toNat < 0x80

instance decidableIsAscii (c : Char) : Decidable (IsAscii c) := inferInstanceAs (Decidable (c.toNat < 0x80))

/-- Checked by evaluation -/
theorem isAscii_of_all {s : List Char} (h : (s.all fun c => decide (IsAscii c)) = true) : ∀ c ∈ s, IsAscii c :=
  fun c hc => of_decide_eq_true (List.all_eq_true.mp h c hc)

theorem isAscii_of_isDigit {c : Char} (h : c.isDigit = true) : IsAscii c :=
  lt_of_le_of_lt (Char.isDigit_iff_toNat.mp h).2 (by decide)

/-- Canonical composition and grapheme clusters. -/
class UnicodeVersion where
  nfc : List Char → List Char
  characters : List Char → List (List Char)
  flatten_characters : ∀ s, (characters s).flatten = s
  ne_nil_of_mem_characters : ∀ s, ∀ c ∈ characters s, c ≠ []
  /-- ASCII is composed, and only a return with a line feed is one character. -/
  nfc_of_isAscii : ∀ s, (∀ c ∈ s, IsAscii c) → nfc s = s
  characters_of_isAscii : ∀ s, (∀ c ∈ s, IsAscii c ∧ c ≠ '\r') → characters s = s.map ([·])
  /-- No other scalars are composed to a minus or a digit. -/
  eq_of_nfc_eq : ∀ s c, c = '-' ∨ c.isDigit = true → nfc s = [c] → s = [c]

export UnicodeVersion (nfc characters flatten_characters ne_nil_of_mem_characters nfc_of_isAscii
  characters_of_isAscii eq_of_nfc_eq)

section Characters

variable [UnicodeVersion]

/-- Canonical equivalence -/
def Equivalent (s s' : List Char) : Prop := nfc s = nfc s'

instance decidableEquivalent (s s' : List Char) : Decidable (Equivalent s s') :=
  inferInstanceAs (Decidable (nfc s = nfc s'))

def Precedes (s s' : List Char) : Prop := nfc s < nfc s'

instance decidablePrecedes (s s' : List Char) : Decidable (Precedes s s') :=
  inferInstanceAs (Decidable (nfc s < nfc s'))

theorem Equivalent.refl (s : List Char) : Equivalent s s := Eq.refl (nfc s)

theorem Equivalent.symm {s s' : List Char} (h : Equivalent s s') : Equivalent s' s := Eq.symm h

theorem Equivalent.trans {s s' s'' : List Char} (h : Equivalent s s') (h' : Equivalent s' s'') :
    Equivalent s s'' := Eq.trans h h'

def asciiValue (character : List Char) : Option Nat :=
  if Equivalent character ['\r', '\n'] then some 0x0A
  else
    match character with
    | [scalar] => if IsAscii scalar then some scalar.toNat else none
    | _ => none

theorem nfc_singleton {c : Char} (h : IsAscii c) : nfc [c] = [c] := by
  refine nfc_of_isAscii [c] fun d hd => ?_
  rw [List.mem_singleton.mp hd]
  exact h

end Characters

/-! ### UTF-16 -/

/-- A scalar from U+10000 on is a pair of surrogates. -/
def utf16Units (c : Char) : List Nat :=
  if c.toNat < 0x10000 then [c.toNat]
  else [0xD800 + (c.toNat - 0x10000) / 0x400, 0xDC00 + (c.toNat - 0x10000) % 0x400]

def utf16 (s : List Char) : List Nat := s.flatMap utf16Units

theorem toNat_lt_or (c : Char) : c.toNat < 0xD800 ∨ (0xDFFF < c.toNat ∧ c.toNat < 0x110000) := c.valid

/-- The first scalar of units is determined, and so are the units after it. -/
theorem utf16Units_append_inj {c d : Char} {units units' : List Nat}
    (h : utf16Units c ++ units = utf16Units d ++ units') : c = d ∧ units = units' := by
  have hc := toNat_lt_or c
  have hd := toNat_lt_or d
  unfold utf16Units at h
  split_ifs at h with hcBmp hdBmp hdBmp
  · obtain ⟨hsame, hunits⟩ := List.cons.inj h
    exact ⟨Char.toNat_inj.mp hsame, hunits⟩
  · -- a unit of its own is no surrogate
    obtain ⟨hsame, -⟩ := List.cons.inj h
    omega
  · obtain ⟨hsame, -⟩ := List.cons.inj h
    omega
  · obtain ⟨hhigh, hrest⟩ := List.cons.inj h
    obtain ⟨hlow, hunits⟩ := List.cons.inj hrest
    have hsame : c.toNat = d.toNat := by omega
    exact ⟨Char.toNat_inj.mp hsame, hunits⟩

theorem utf16Units_ne_nil (c : Char) : utf16Units c ≠ [] := by
  unfold utf16Units
  split_ifs <;> exact List.cons_ne_nil _ _

theorem utf16_injective {s s' : List Char} (h : utf16 s = utf16 s') : s = s' := by
  induction s generalizing s' with
  | nil =>
      cases s' with
      | nil => rfl
      | cons d rest' =>
          rw [utf16, utf16, List.flatMap_nil, List.flatMap_cons] at h
          exact absurd (List.append_eq_nil_iff.mp h.symm).1 (utf16Units_ne_nil d)
  | cons c rest ih =>
      cases s' with
      | nil =>
          rw [utf16, utf16, List.flatMap_nil, List.flatMap_cons] at h
          exact absurd (List.append_eq_nil_iff.mp h).1 (utf16Units_ne_nil c)
      | cons d rest' =>
          rw [utf16, utf16, List.flatMap_cons, List.flatMap_cons] at h
          obtain ⟨rfl, hrest⟩ := utf16Units_append_inj h
          rw [ih hrest]

/-! ### Marks only -/

def isMark (c : Char) : Bool :=
  decide ((0x300 ≤ c.toNat ∧ c.toNat ≤ 0x36F) ∨ (0x20D0 ≤ c.toNat ∧ c.toNat ≤ 0x20F0))

/-- A scalar with the marks after it is a character. -/
def markClusters : List Char → List (List Char)
  | [] => []
  | c :: rest =>
      match markClusters rest with
      | [] => [[c]]
      | first :: others => if first.head?.any isMark then (c :: first) :: others else [c] :: first :: others

theorem flatten_markClusters (s : List Char) : (markClusters s).flatten = s := by
  induction s with
  | nil => rfl
  | cons c rest ih =>
      unfold markClusters
      cases hrest : markClusters rest with
      | nil =>
          rw [hrest] at ih
          rw [← ih]
          rfl
      | cons first others =>
          rw [hrest] at ih
          dsimp only
          rw [← ih]
          split_ifs <;> rfl

theorem ne_nil_of_mem_markClusters (s : List Char) : ∀ c ∈ markClusters s, c ≠ [] := by
  induction s with
  | nil => exact nofun
  | cons c rest ih =>
      unfold markClusters
      cases hrest : markClusters rest with
      | nil =>
          rintro d hd rfl
          cases List.mem_singleton.mp hd
      | cons first others =>
          rw [hrest] at ih
          dsimp only
          split_ifs
          · rintro d hd rfl
            rcases List.mem_cons.mp hd with hd | hd
            · cases hd
            · exact ih [] (List.mem_cons_of_mem _ hd) rfl
          · rintro d hd rfl
            rcases List.mem_cons.mp hd with hd | hd
            · cases hd
            · exact ih [] hd rfl

theorem markClusters_of_isAscii {s : List Char} (h : ∀ c ∈ s, IsAscii c) : markClusters s = s.map ([·]) := by
  induction s with
  | nil => rfl
  | cons c rest ih =>
      obtain ⟨-, hrest⟩ := List.forall_mem_cons.mp h
      rw [markClusters, ih hrest]
      cases rest with
      | nil => rfl
      | cons d rest =>
          have hd : isMark d = false := by
            have hascii : d.toNat < 0x80 := hrest d List.mem_cons_self
            exact decide_eq_false (by omega)
          have hany : ¬([d] : List Char).head?.any isMark = true := by
            rw [List.head?_cons, Option.any_some, hd]
            exact Bool.false_ne_true
          exact if_neg hany

/-- A version with two blocks of marks, in which nothing is composed. -/
@[reducible] def marksOnly : UnicodeVersion where
  nfc := id
  characters := markClusters
  flatten_characters := flatten_markClusters
  ne_nil_of_mem_characters := ne_nil_of_mem_markClusters
  nfc_of_isAscii := fun _ _ => rfl
  characters_of_isAscii := fun _ h => markClusters_of_isAscii fun c hc => (h c hc).1
  eq_of_nfc_eq := fun _ _ _ => id

end UnicodeStrings
