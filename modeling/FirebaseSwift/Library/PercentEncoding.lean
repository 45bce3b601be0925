import Mathlib.Algebra.GroupWithZero.Nat
import Mathlib.Algebra.Order.Group.Nat
import Mathlib.Data.List.Basic

/-! Texts whose characters are written as the hexadecimal digits of their UTF-8 bytes, each after a percent sign.
Removing the encoding gives the text back, and a text in which nothing is encoded is the only one that is not made
shorter by it. -/

namespace PercentEncoding

def utf8 (text : List Char) : List UInt8 := text.flatMap String.utf8EncodeChar

/-- The length in UTF-8 -/
def size (text : List Char) : Nat := (text.map Char.utf8Size).sum

def decodeUTF8 (bytes : List UInt8) : Option (List Char) := bytes.toByteArray.utf8Decode?.map Array.toList

def hexDigit (n : Nat) : Char := Char.ofNat (if n < 10 then 48 + n else 55 + n)

def hexValue (c : Char) : Option Nat :=
  if '0' ≤ c ∧ c ≤ '9' then some (c.toNat - 48)
  else if 'A' ≤ c ∧ c ≤ 'F' then some (c.toNat - 55)
  else if 'a' ≤ c ∧ c ≤ 'f' then some (c.toNat - 87)
  else none

def encodeByte (byte : UInt8) : List Char := ['%', hexDigit (byte.toNat / 16), hexDigit (byte.toNat % 16)]

/-- The characters that are written as they are. The percent sign is none of them. -/
structure Allowed where
  allows : Char → Bool
  percent : allows '%' = false

def adding (allowed : Allowed) (text : List Char) : List Char :=
  text.flatMap fun c => if allowed.allows c then [c] else (String.utf8EncodeChar c).flatMap encodeByte

/-- The bytes of a text, with those that are written in hexadecimal digits -/
def decodedBytes : List Char → Option (List UInt8)
  | [] => some []
  | '%' :: high :: low :: rest =>
      match hexValue high, hexValue low with
      | some high, some low => (decodedBytes rest).map (UInt8.ofNat (16 * high + low) :: ·)
      | _, _ => none
  | '%' :: _ => none
  | c :: rest => (decodedBytes rest).map (String.utf8EncodeChar c ++ ·)

/-- Nothing if a percent sign is not followed by two digits, or the bytes are not UTF-8. -/
def removing (text : List Char) : Option (List Char) := (decodedBytes text).bind decodeUTF8

theorem length_utf8 (text : List Char) : (utf8 text).length = size text := by
  rw [utf8, List.length_flatMap, size]
  simp only [String.length_utf8EncodeChar]

theorem utf8_append (left right : List Char) : utf8 (left ++ right) = utf8 left ++ utf8 right :=
  List.flatMap_append

theorem decodeUTF8_utf8 (text : List Char) : decodeUTF8 (utf8 text) = some text := by
  have hencode : (utf8 text).toByteArray = text.utf8Encode := rfl
  rw [decodeUTF8, hencode, List.utf8Decode?_utf8Encode]
  rfl

variable {text : List Char} {bytes : List UInt8}

theorem utf8_of_decodeUTF8 (h : decodeUTF8 bytes = some text) : utf8 text = bytes := by
  rw [decodeUTF8, Option.map_eq_some_iff] at h
  obtain ⟨chars, hdecode, rfl⟩ := h
  have hsome : bytes.toByteArray.utf8Decode?.isSome := by rw [hdecode]; rfl
  have hencode := ByteArray.utf8Encode_get_utf8Decode? (b := bytes.toByteArray) (h := hsome)
  simp only [hdecode, Option.get_some] at hencode
  have hlists := congrArg (fun array => array.data.toList) hencode
  simpa [List.utf8Encode, utf8] using hlists

theorem decodedBytes_of_ne {c : Char} (h : c ≠ '%') (rest : List Char) :
    decodedBytes (c :: rest) = (decodedBytes rest).map (String.utf8EncodeChar c ++ ·) := by
  rw [decodedBytes]
  · exact fun _ _ _ heq _ => h heq
  · exact h

theorem hexValue_hexDigit : ∀ n < 16, hexValue (hexDigit n) = some n := by
  decide

theorem decodedBytes_encodeByte (byte : UInt8) (rest : List Char) :
    decodedBytes (encodeByte byte ++ rest) = (decodedBytes rest).map (byte :: ·) := by
  have hbyte : byte.toNat < 256 := byte.toNat_lt
  have hsplit : 16 * (byte.toNat / 16) + byte.toNat % 16 = byte.toNat := Nat.div_add_mod _ _
  show decodedBytes ('%' :: hexDigit (byte.toNat / 16) :: hexDigit (byte.toNat % 16) :: rest) = _
  rw [decodedBytes, hexValue_hexDigit _ (by omega), hexValue_hexDigit _ (by omega)]
  simp only [hsplit, UInt8.ofNat_toNat]

theorem decodedBytes_encodeBytes (bytes : List UInt8) (rest : List Char) :
    decodedBytes (bytes.flatMap encodeByte ++ rest) = (decodedBytes rest).map (bytes ++ ·) := by
  induction bytes with
  | nil => simp
  | cons byte bytes ih =>
      rw [List.flatMap_cons, List.append_assoc, decodedBytes_encodeByte, ih, Option.map_map]
      rfl

/-- A written text gives the bytes of a text, whatever follows it. -/
def Writes (written text : List Char) : Prop :=
  ∀ rest, decodedBytes (written ++ rest) = (decodedBytes rest).map (utf8 text ++ ·)

theorem writes_nil : Writes [] [] := fun _ => Option.map_id'.symm

theorem writes_char {c : Char} (h : c ≠ '%') : Writes [c] [c] := by
  intro rest
  show decodedBytes (c :: rest) = _
  rw [decodedBytes_of_ne h, utf8, List.flatMap_singleton]

theorem Writes.append {left right leftText rightText : List Char} (hleft : Writes left leftText)
    (hright : Writes right rightText) : Writes (left ++ right) (leftText ++ rightText) := by
  intro rest
  rw [List.append_assoc, hleft, hright, Option.map_map, utf8_append]
  congr 1
  funext bytes
  exact (List.append_assoc _ _ _).symm

theorem writes_adding (allowed : Allowed) (text : List Char) : Writes (adding allowed text) text := by
  induction text with
  | nil => exact writes_nil
  | cons c text ih =>
      have hcons : adding allowed (c :: text) = (if allowed.allows c then [c] else
          (String.utf8EncodeChar c).flatMap encodeByte) ++ adding allowed text := List.flatMap_cons
      have hchar : Writes (if allowed.allows c then [c] else (String.utf8EncodeChar c).flatMap encodeByte) [c] := by
        split
        · rename_i hallows
          apply writes_char
          rintro rfl
          rw [allowed.percent] at hallows
          cases hallows
        · intro rest
          rw [decodedBytes_encodeBytes, utf8, List.flatMap_singleton]
      rw [hcons]
      exact hchar.append ih

/-- Texts that are put together with a sign between them -/
theorem writes_intercalate {α : Type} {written text : α → List Char} {sign : Char} (hsign : sign ≠ '%')
    (items : List α) (h : ∀ item ∈ items, Writes (written item) (text item)) :
    Writes ([sign].intercalate (items.map written)) ([sign].intercalate (items.map text)) := by
  induction items with
  | nil => exact writes_nil
  | cons item items ih =>
      obtain ⟨hitem, hitems⟩ := List.forall_mem_cons.mp h
      cases items with
      | nil =>
          rw [List.map_singleton, List.map_singleton, List.intercalate_singleton, List.intercalate_singleton]
          exact hitem
      | cons next items =>
          rw [List.map_cons, List.map_cons, List.map_cons, List.map_cons, List.intercalate_cons_cons,
            List.intercalate_cons_cons]
          exact (hitem.append (writes_char hsign)).append (ih hitems)

theorem decodedBytes_of_not_mem (h : '%' ∉ text) : decodedBytes text = some (utf8 text) := by
  induction text with
  | nil => rfl
  | cons c text ih =>
      rw [List.mem_cons, not_or] at h
      rw [decodedBytes_of_ne (Ne.symm h.1), ih h.2]
      rfl

/-- A text without percent signs stays as it is. -/
theorem removing_of_not_mem (h : '%' ∉ text) : removing text = some text := by
  rw [removing, decodedBytes_of_not_mem h]
  exact decodeUTF8_utf8 text

theorem decodedBytes_length (h : decodedBytes text = some bytes) :
    bytes.length ≤ size text ∧ (bytes.length = size text → '%' ∉ text) := by
  induction text using decodedBytes.induct generalizing bytes with
  | case1 =>
      cases h
      exact ⟨Nat.le_refl _, fun _ => List.not_mem_nil⟩
  | case2 high low rest highValue lowValue hlow hhigh ih =>
      rw [decodedBytes, hhigh, hlow, Option.map_eq_some_iff] at h
      obtain ⟨tail, htail, rfl⟩ := h
      have hle := (ih htail).1
      have hhighSize := high.utf8Size_pos
      have hsize : size ('%' :: high :: low :: rest) = 1 + (high.utf8Size + (low.utf8Size + size rest)) := rfl
      rw [List.length_cons, hsize]
      exact ⟨by omega, fun heq => by omega⟩
  | case3 high low rest hnone =>
      rw [decodedBytes] at h
      split at h
      · rename_i hhigh hlow
        exact absurd hlow (hnone _ _ hhigh)
      · cases h
  | case4 rest hshort =>
      rw [decodedBytes] at h
      · cases h
      · exact hshort
  | case5 c rest _ hne ih =>
      have hne : c ≠ '%' := fun heq => hne heq
      rw [decodedBytes_of_ne hne, Option.map_eq_some_iff] at h
      obtain ⟨tail, htail, rfl⟩ := h
      obtain ⟨hle, hmem⟩ := ih htail
      have hsize : size (c :: rest) = c.utf8Size + size rest := rfl
      rw [List.length_append, String.length_utf8EncodeChar, hsize]
      refine ⟨by omega, fun heq => ?_⟩
      rw [List.mem_cons, not_or]
      exact ⟨Ne.symm hne, hmem (by omega)⟩

/-- Removing the encoding makes a text shorter, except one without percent signs. -/
theorem removing_size {decoded : List Char} (h : removing text = some decoded) :
    size decoded ≤ size text ∧ (size decoded = size text → '%' ∉ text ∧ decoded = text) := by
  rw [removing, Option.bind_eq_some_iff] at h
  obtain ⟨bytes, hbytes, hdecoded⟩ := h
  have hlength : bytes.length = size decoded := by rw [← utf8_of_decodeUTF8 hdecoded, length_utf8]
  obtain ⟨hle, hmem⟩ := decodedBytes_length hbytes
  rw [hlength] at hle hmem
  refine ⟨hle, fun heq => ⟨hmem heq, ?_⟩⟩
  rw [decodedBytes_of_not_mem (hmem heq), Option.some_inj] at hbytes
  rw [← hbytes, decodeUTF8_utf8] at hdecoded
  exact (Option.some.inj hdecoded).symm

/-- Removing the encoding of a written text gives the text back. -/
theorem Writes.removing {written : List Char} (h : Writes written text) : removing written = some text := by
  have hbytes := h []
  rw [List.append_nil] at hbytes
  rw [PercentEncoding.removing, hbytes]
  show decodeUTF8 (utf8 text ++ []) = some text
  rw [List.append_nil, decodeUTF8_utf8]

theorem hexDigit_ne : ∀ n < 16, hexDigit n ≠ '#' := by
  decide

/-- An encoded text has only characters that are allowed, percent signs and digits. -/
theorem not_mem_adding {allowed : Allowed} (h : allowed.allows '#' = false) (text : List Char) :
    '#' ∉ adding allowed text := by
  intro hmem
  obtain ⟨c, -, hc⟩ := List.mem_flatMap.mp hmem
  split at hc
  · rename_i hallows
    rw [← List.mem_singleton.mp hc, h] at hallows
    cases hallows
  · obtain ⟨byte, -, hbyte⟩ := List.mem_flatMap.mp hc
    have hlt : byte.toNat < 256 := byte.toNat_lt
    simp only [encodeByte, List.mem_cons, List.not_mem_nil, or_false] at hbyte
    rcases hbyte with hpercent | hhigh | hlow
    · exact absurd hpercent (by decide)
    · exact hexDigit_ne _ (by omega) hhigh.symm
    · exact hexDigit_ne _ (by omega) hlow.symm

end PercentEncoding
