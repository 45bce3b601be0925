import Mathlib.Data.List.Basic

/-! The lines of a byte stream that arrives in chunks, `asyncLines`. A buffer keeps what came after the last line
feed. Where the stream is cut into chunks makes no difference: the lines are those of all its bytes. -/

namespace FirebaseSwift.Shared

abbrev Data := List UInt8

/-! ### Decoding -/

/-- The start of a scalar value, with the number of bytes it still needs and the bounds of the next of them -/
structure PendingScalar where
  value : Nat
  needed : Nat
  lower : Nat := 0x80
  upper : Nat := 0xBF

def replacementCharacter : Char := Char.ofNat 0xFFFD

/-- What a byte starts of more than one byte. The bounds of the second one leave out what has a shorter form, the
surrogates and what is no scalar value any more. -/
def leadByte (byte : Nat) : Option PendingScalar :=
  if byte < 0xC2 then none
  else if byte < 0xE0 then some { value := byte - 0xC0, needed := 1 }
  else if byte = 0xE0 then some { value := 0, needed := 2, lower := 0xA0 }
  else if byte = 0xED then some { value := 0xD, needed := 2, upper := 0x9F }
  else if byte < 0xF0 then some { value := byte - 0xE0, needed := 2 }
  else if byte = 0xF0 then some { value := 0, needed := 3, lower := 0x90 }
  else if byte < 0xF4 then some { value := byte - 0xF0, needed := 3 }
  else if byte = 0xF4 then some { value := 4, needed := 3, upper := 0x8F }
  else none

/-- `String(decoding:as: UTF8.self)`. The longest start of a scalar value that is not completed, and every byte that
starts none, is replaced. -/
def decoding : Option PendingScalar → Data → List Char
  | none, [] => []
  | some _, [] => [replacementCharacter]
  | none, byte :: rest =>
      if byte.toNat < 0x80 then Char.ofNat byte.toNat :: decoding none rest
      else match leadByte byte.toNat with
        | some scalar => decoding (some scalar) rest
        | none => replacementCharacter :: decoding none rest
  | some scalar, byte :: rest =>
      if scalar.lower ≤ byte.toNat ∧ byte.toNat ≤ scalar.upper then
        let value := scalar.value * 64 + (byte.toNat - 0x80)
        if scalar.needed = 1 then Char.ofNat value :: decoding none rest
        else decoding (some { value := value, needed := scalar.needed - 1 }) rest
      else if byte.toNat < 0x80 then replacementCharacter :: Char.ofNat byte.toNat :: decoding none rest
      else match leadByte byte.toNat with
        | some scalar => replacementCharacter :: decoding (some scalar) rest
        | none => replacementCharacter :: replacementCharacter :: decoding none rest

variable {n : Nat} {scalar : PendingScalar} {bytes : Data} {emitted : List (List Char)}

theorem decoding_ascii (h : n < 0x80) (rest : Data) :
    decoding none (UInt8.ofNat n :: rest) = Char.ofNat n :: decoding none rest := by
  have hbyte : (UInt8.ofNat n).toNat = n := UInt8.toNat_ofNat_of_lt' (by show n < 256; omega)
  rw [decoding, hbyte, if_pos h]

theorem decoding_lead (hlow : 0x80 ≤ n) (hhigh : n < 256) (hlead : leadByte n = some scalar) (rest : Data) :
    decoding none (UInt8.ofNat n :: rest) = decoding (some scalar) rest := by
  have hbyte : (UInt8.ofNat n).toNat = n := UInt8.toNat_ofNat_of_lt' hhigh
  rw [decoding, hbyte, if_neg (by omega), hlead]

theorem decoding_next (hneeded : scalar.needed ≠ 1) (hn : n < 64) (hlower : scalar.lower ≤ n + 0x80)
    (hupper : n + 0x80 ≤ scalar.upper) (rest : Data) : decoding (some scalar) (UInt8.ofNat (n + 0x80) :: rest) =
      decoding (some { value := scalar.value * 64 + n, needed := scalar.needed - 1 }) rest := by
  have hbyte : (UInt8.ofNat (n + 0x80)).toNat = n + 0x80 := UInt8.toNat_ofNat_of_lt' (by show n + 0x80 < 256; omega)
  rw [decoding, hbyte, if_pos ⟨hlower, hupper⟩, if_neg hneeded, Nat.add_sub_cancel]

theorem decoding_last (hneeded : scalar.needed = 1) (hn : n < 64) (hlower : scalar.lower ≤ n + 0x80)
    (hupper : n + 0x80 ≤ scalar.upper) (rest : Data) : decoding (some scalar) (UInt8.ofNat (n + 0x80) :: rest) =
      Char.ofNat (scalar.value * 64 + n) :: decoding none rest := by
  have hbyte : (UInt8.ofNat (n + 0x80)).toNat = n + 0x80 := UInt8.toNat_ofNat_of_lt' (by show n + 0x80 < 256; omega)
  rw [decoding, hbyte, if_pos ⟨hlower, hupper⟩, if_pos hneeded, Nat.add_sub_cancel]

/-- The second byte of a scalar value of three bytes is within the bounds. -/
theorem leadByte_of_three {v : Nat} (hlow : 0x7ff < v) (hhigh : v ≤ 0xffff) (hvalid : v < 0xD800 ∨ 0xDFFF < v) :
    ∃ lower upper, leadByte (v / 4096 % 0x10 + 0xe0) = some ⟨v / 4096, 2, lower, upper⟩ ∧
      lower ≤ v / 64 % 0x40 + 0x80 ∧ v / 64 % 0x40 + 0x80 ≤ upper := by
  have hvalue : v / 4096 % 0x10 + 0xe0 - 0xE0 = v / 4096 := by omega
  unfold leadByte
  rw [if_neg (by omega), if_neg (by omega), hvalue]
  split_ifs with hzero hsurrogate hlast
  · exact ⟨0xA0, 0xBF, by rw [show v / 4096 = 0 by omega], by omega, by omega⟩
  · exact ⟨0x80, 0x9F, by rw [show v / 4096 = 0xD by omega], by omega, by omega⟩
  · exact ⟨0x80, 0xBF, rfl, by omega, by omega⟩
  all_goals omega

theorem leadByte_of_four {v : Nat} (hlow : 0xffff < v) (hhigh : v < 0x110000) :
    ∃ lower upper, leadByte (v / 262144 % 0x08 + 0xf0) = some ⟨v / 262144, 3, lower, upper⟩ ∧
      lower ≤ v / 4096 % 0x40 + 0x80 ∧ v / 4096 % 0x40 + 0x80 ≤ upper := by
  have hvalue : v / 262144 % 0x08 + 0xf0 - 0xF0 = v / 262144 := by omega
  unfold leadByte
  rw [if_neg (by omega), if_neg (by omega), if_neg (by omega), if_neg (by omega), if_neg (by omega), hvalue]
  split_ifs with hzero hmiddle hlast
  · exact ⟨0x90, 0xBF, by rw [show v / 262144 = 0 by omega], by omega, by omega⟩
  · exact ⟨0x80, 0xBF, rfl, by omega, by omega⟩
  · exact ⟨0x80, 0x8F, by rw [show v / 262144 = 4 by omega], by omega, by omega⟩
  · omega

/-- The bytes of a character are decoded to it. -/
theorem decoding_utf8EncodeChar (c : Char) (rest : Data) :
    decoding none (String.utf8EncodeChar c ++ rest) = c :: decoding none rest := by
  have hself : Char.ofNat c.val.toNat = c := Char.ofNat_toNat c
  have hvalid : c.val.toNat < 0xD800 ∨ 0xDFFF < c.val.toNat ∧ c.val.toNat < 0x110000 := c.valid
  unfold String.utf8EncodeChar
  generalize c.val.toNat = v at hself hvalid
  dsimp only
  split_ifs with hone htwo hthree
  · rw [List.cons_append, List.nil_append, decoding_ascii (by omega), hself]
  · have hvalue : v / 64 % 0x20 + 0xc0 - 0xC0 = v / 64 := by omega
    have hlead : leadByte (v / 64 % 0x20 + 0xc0) = some { value := v / 64, needed := 1 } := by
      unfold leadByte
      rw [if_neg (by omega), if_pos (by omega), hvalue]
    rw [List.cons_append, List.cons_append, List.nil_append, decoding_lead (by omega) (by omega) hlead,
      decoding_last rfl (by omega) (by dsimp only; omega) (by dsimp only; omega)]
    rw [show v / 64 * 64 + v % 0x40 = v by omega, hself]
  · obtain ⟨lower, upper, hlead, hlower, hupper⟩ := leadByte_of_three (by omega) hthree (by omega)
    rw [List.cons_append, List.cons_append, List.cons_append, List.nil_append,
      decoding_lead (by omega) (by omega) hlead, decoding_next (by show 2 ≠ 1; omega) (by omega) hlower hupper,
      decoding_last rfl (by omega) (by dsimp only; omega) (by dsimp only; omega)]
    rw [show (v / 4096 * 64 + v / 64 % 0x40) * 64 + v % 0x40 = v by omega, hself]
  · obtain ⟨lower, upper, hlead, hlower, hupper⟩ := @leadByte_of_four v (by omega) (by omega)
    rw [List.cons_append, List.cons_append, List.cons_append, List.cons_append, List.nil_append,
      decoding_lead (by omega) (by omega) hlead, decoding_next (by show 3 ≠ 1; omega) (by omega) hlower hupper,
      decoding_next (by show 3 - 1 ≠ 1; omega) (by omega) (by dsimp only; omega) (by dsimp only; omega),
      decoding_last rfl (by omega) (by dsimp only; omega) (by dsimp only; omega)]
    rw [show ((v / 262144 * 64 + v / 4096 % 0x40) * 64 + v / 64 % 0x40) * 64 + v % 0x40 = v by omega, hself]

theorem decoding_utf8 (text : List Char) : decoding none (text.flatMap String.utf8EncodeChar) = text := by
  induction text with
  | nil => rfl
  | cons c text ih => rw [List.flatMap_cons, decoding_utf8EncodeChar, ih]

/-! ### Lines -/

def lineFeed : UInt8 := 10

def carriageReturn : UInt8 := 13

/-- The line without one carriage return at its end -/
def withoutReturn (line : Data) : Data :=
  if line.getLast? = some carriageReturn then line.dropLast else line

/-- `emit` in `asyncLines` -/
def emit (line : Data) : List (List Char) :=
  let line := withoutReturn line
  if line.isEmpty then [] else [decoding none line]

/-- The loop over the line feeds of the buffer, with what it emits and what it leaves in the buffer -/
def takeLines (buffer : Data) : List (List Char) × Data :=
  match _hnewline : buffer.findIdx? (· == lineFeed) with
  | none => ([], buffer)
  | some newline =>
      let taken := takeLines (buffer.drop (newline + 1))
      (emit (buffer.take newline) ++ taken.1, taken.2)
termination_by buffer.length
decreasing_by
  obtain ⟨hlt, -⟩ := List.findIdx?_eq_some_iff_getElem.mp _hnewline
  rw [List.length_drop]
  omega

/-- The loop over the chunks -/
def readChunks : List Data → Data → List (List Char) × Data
  | [], buffer => ([], buffer)
  | chunk :: chunks, buffer =>
      let taken := takeLines (buffer ++ chunk)
      let read := readChunks chunks taken.2
      (taken.1 ++ read.1, read.2)

/-- The lines that a stream yields, with the error that it finishes with -/
structure LineStream (ε : Type) where
  lines : List (List Char)
  failure : Option ε
deriving DecidableEq

/-- The lines of a stream of chunks that finishes, or fails. What is left in the buffer of one that fails is
dropped. -/
def asyncLines {ε : Type} (chunks : List Data) (failure : Option ε) : LineStream ε :=
  let read := readChunks chunks []
  match failure with
  | none => ⟨read.1 ++ emit read.2, none⟩
  | some error => ⟨read.1, some error⟩

/-! ### The lines of all bytes -/

/-- The pieces that the bytes are split into at the line feeds -/
def pieces (bytes : Data) : List Data := bytes.splitOn lineFeed

/-- What was emitted so far, and what was left, of some bytes: all pieces but the last one, and the last one. -/
def Reads (bytes : Data) (emitted : List (List Char)) (left : Data) : Prop :=
  ∃ read : List Data, emitted = read.flatMap emit ∧ lineFeed ∉ left ∧
    ∀ more, pieces (bytes ++ more) = read ++ pieces (left ++ more)

theorem pieces_of_not_mem (h : lineFeed ∉ bytes) : pieces bytes = [bytes] :=
  List.splitOn_eq_singleton h

theorem reads_nil : Reads [] [] [] := ⟨[], rfl, List.not_mem_nil, fun _ => rfl⟩

/-- Reading goes on with what was left. -/
theorem Reads.trans {left chunk : Data} {emitted' : List (List Char)} {left' : Data}
    (h : Reads bytes emitted left) (h' : Reads (left ++ chunk) emitted' left') :
    Reads (bytes ++ chunk) (emitted ++ emitted') left' := by
  obtain ⟨read, rfl, -, hpieces⟩ := h
  obtain ⟨read', rfl, hleft, hpieces'⟩ := h'
  refine ⟨read ++ read', List.flatMap_append.symm, hleft, fun more => ?_⟩
  rw [List.append_assoc, hpieces, ← List.append_assoc, hpieces', List.append_assoc]

theorem reads_takeLines (buffer : Data) : Reads buffer (takeLines buffer).1 (takeLines buffer).2 := by
  induction buffer using takeLines.induct with
  | case1 buffer hnone =>
      rw [takeLines]
      split
      · refine ⟨[], rfl, fun hmem => ?_, fun _ => rfl⟩
        have hall := List.findIdx?_eq_none_iff.mp hnone lineFeed hmem
        exact absurd hall (by decide)
      · rename_i hsome
        rw [hnone] at hsome
        cases hsome
  | case2 buffer newline hsome ih =>
      obtain ⟨hlt, hfound, hbefore⟩ := List.findIdx?_eq_some_iff_getElem.mp hsome
      have hsplit : buffer = buffer.take newline ++ lineFeed :: buffer.drop (newline + 1) := by
        rw [← eq_of_beq hfound, ← List.drop_eq_getElem_cons hlt, List.take_append_drop]
      have hfree : lineFeed ∉ buffer.take newline := by
        intro hmem
        obtain ⟨i, hi, heq⟩ := List.getElem_of_mem hmem
        rw [List.length_take] at hi
        rw [List.getElem_take] at heq
        exact hbefore i (by omega) (by rw [heq]; exact beq_self_eq_true _)
      obtain ⟨read, hemitted, hleft, hpieces⟩ := ih
      rw [takeLines]
      split
      · rename_i hnone
        rw [hsome] at hnone
        cases hnone
      · rename_i newline' hsome'
        cases hsome.symm.trans hsome'
        refine ⟨buffer.take newline :: read, ?_, hleft, fun more => ?_⟩
        · rw [List.flatMap_cons, ← hemitted]
        · calc
            pieces (buffer ++ more)
                = pieces (buffer.take newline ++ lineFeed :: (buffer.drop (newline + 1) ++ more)) := by
                  conv_lhs => rw [hsplit, List.append_assoc, List.cons_append]
            _ = pieces (buffer.take newline) ++ pieces (buffer.drop (newline + 1) ++ more) :=
                  List.splitOn_append_cons_self _ _
            _ = (buffer.take newline :: read) ++ pieces ((takeLines (buffer.drop (newline + 1))).2 ++ more) := by
                  rw [pieces_of_not_mem hfree, hpieces]
                  rfl

theorem reads_readChunks {buffer : Data} (chunks : List Data) (h : Reads bytes emitted buffer) :
    Reads (bytes ++ chunks.flatten) (emitted ++ (readChunks chunks buffer).1) (readChunks chunks buffer).2 := by
  induction chunks generalizing bytes buffer emitted with
  | nil =>
      rw [List.flatten_nil, List.append_nil, readChunks, List.append_nil]
      exact h
  | cons chunk chunks ih =>
      rw [List.flatten_cons, readChunks, ← List.append_assoc, ← List.append_assoc]
      exact ih (h.trans (reads_takeLines (buffer ++ chunk)))

/-- The lines that end in a line feed, and what comes after the last one, are read off the pieces. -/
theorem Reads.eq {left : Data} (h : Reads bytes emitted left) :
    emitted = (pieces bytes).dropLast.flatMap emit ∧ emitted ++ emit left = (pieces bytes).flatMap emit := by
  obtain ⟨read, rfl, hleft, hpieces⟩ := h
  have hall := hpieces []
  rw [List.append_nil, List.append_nil, pieces_of_not_mem hleft] at hall
  rw [hall, List.dropLast_concat, List.flatMap_append, List.flatMap_singleton]
  exact ⟨rfl, rfl⟩

/-- The lines of some bytes -/
def linesOf (bytes : Data) : List (List Char) :=
  (((pieces bytes).map withoutReturn).filter fun line => !line.isEmpty).map (decoding none)

theorem flatMap_emit (read : List Data) :
    read.flatMap emit = ((read.map withoutReturn).filter fun line => !line.isEmpty).map (decoding none) := by
  induction read with
  | nil => rfl
  | cons piece read ih =>
      rw [List.flatMap_cons, ih, emit, List.map_cons, List.filter_cons]
      cases (withoutReturn piece).isEmpty <;> rfl

/-- Two ways of cutting the same bytes into chunks yield the same lines, whether the stream finishes or fails. Those
of a stream that finishes are the lines of its bytes. -/
theorem asyncLines_of_flatten {ε : Type} {chunks chunks' : List Data} (h : chunks.flatten = chunks'.flatten)
    (failure : Option ε) :
    asyncLines chunks failure = asyncLines chunks' failure ∧
      asyncLines chunks (none : Option ε) = ⟨linesOf chunks.flatten, none⟩ := by
  have hread := (reads_readChunks chunks reads_nil).eq
  have hread' := (reads_readChunks chunks' reads_nil).eq
  rw [← h] at hread'
  constructor
  · cases failure with
    | none =>
        have hlines := hread.2.trans hread'.2.symm
        rw [asyncLines, asyncLines]
        exact congrArg (LineStream.mk · none) hlines
    | some error =>
        have hlines := hread.1.trans hread'.1.symm
        rw [asyncLines, asyncLines]
        exact congrArg (LineStream.mk · (some error)) hlines
  · rw [asyncLines, linesOf, ← flatMap_emit]
    exact congrArg (LineStream.mk · none) hread.2

/-- A character, and a carriage return with its line feed, that are cut. -/
theorem asyncLines_of_flatten_cut :
    asyncLines [[0x61, 0xC3], [], [0xA9, 0x0D], [0x0A, 0x62]] (none : Option Nat) =
        asyncLines [[0x61, 0xC3, 0xA9, 0x0D, 0x0A, 0x62]] none ∧
      asyncLines [[0x61, 0xC3], [], [0xA9, 0x0D], [0x0A, 0x62]] (none : Option Nat) =
        ⟨linesOf [0x61, 0xC3, 0xA9, 0x0D, 0x0A, 0x62], none⟩ :=
  @asyncLines_of_flatten Nat [[0x61, 0xC3], [], [0xA9, 0x0D], [0x0A, 0x62]] [[0x61, 0xC3, 0xA9, 0x0D, 0x0A, 0x62]] rfl none

example : linesOf [0x61, 0xC3, 0xA9, 0x0D, 0x0A, 0x62] = ["aé".toList, "b".toList] := by decide +kernel

/-- A line of a carriage return only is skipped, though its piece is not empty. -/
theorem asyncLines_return_skipped :
    asyncLines [[carriageReturn, lineFeed]] (none : Option Nat) ≠
      ⟨((pieces [carriageReturn, lineFeed]).filter fun piece => !piece.isEmpty).map
        fun piece => decoding none (withoutReturn piece), none⟩ := by
  intro h
  have hread := (reads_readChunks [[carriageReturn, lineFeed]] reads_nil).eq.2
  have hlines := hread.symm.trans (LineStream.mk.inj h).1
  exact absurd hlines (by decide +kernel)

/-! ### Texts that are sent as lines -/

theorem eq_of_mem_utf8EncodeChar {c d : Char} (hd : d.toNat < 0x80)
    (hmem : UInt8.ofNat d.toNat ∈ String.utf8EncodeChar c) : c = d := by
  refine Char.toNat_inj.mp ?_
  have hvalue : c.toNat = c.val.toNat := rfl
  rw [hvalue]
  unfold String.utf8EncodeChar at hmem
  generalize c.val.toNat = v at hmem
  dsimp only at hmem
  split_ifs at hmem <;> simp only [List.mem_cons, List.not_mem_nil, or_false, ← UInt8.toNat_inj,
    UInt8.toNat_ofNat'] at hmem <;> omega

/-- Texts without line ends that are sent as lines are received as they are, however their bytes are cut. -/
theorem asyncLines_of_texts {ε : Type} {texts : List (List Char)} (hne : [] ∉ texts)
    (hfree : ∀ text ∈ texts, '\n' ∉ text ∧ '\r' ∉ text) {chunks : List Data}
    (hchunks : chunks.flatten = [lineFeed].intercalate (texts.map fun text => text.flatMap String.utf8EncodeChar)) :
    asyncLines chunks (none : Option ε) = ⟨texts, none⟩ := by
  have hascii : ∀ text : List Char, ∀ d, d.toNat < 0x80 → d ∉ text →
      UInt8.ofNat d.toNat ∉ text.flatMap String.utf8EncodeChar := by
    intro text d hd hnot hmem
    obtain ⟨c, hc, hbyte⟩ := List.mem_flatMap.mp hmem
    exact hnot (eq_of_mem_utf8EncodeChar hd hbyte ▸ hc)
  have hemit : ∀ text ∈ texts, emit (text.flatMap String.utf8EncodeChar) = [text] := by
    intro text htext
    have hdecoded := decoding_utf8 text
    have hreturn : (text.flatMap String.utf8EncodeChar).getLast? ≠ some carriageReturn := fun hlast =>
      hascii text '\r' (by decide) (hfree text htext).2 (List.mem_of_getLast? hlast)
    have hempty : (text.flatMap String.utf8EncodeChar).isEmpty = false := by
      refine Bool.eq_false_iff.mpr fun hnil => hne ?_
      rw [List.isEmpty_iff.mp hnil] at hdecoded
      cases hdecoded
      exact htext
    rw [emit, withoutReturn, if_neg hreturn, hempty, hdecoded]
    rfl
  have hread := (reads_readChunks chunks reads_nil).eq.2
  rw [List.nil_append, List.nil_append, hchunks] at hread
  rw [asyncLines]
  refine congrArg (LineStream.mk · none) (hread.trans ?_)
  by_cases hnil : texts = []
  · rw [hnil]
    rfl
  · rw [pieces, List.splitOn_intercalate, List.flatMap_map]
    · exact (List.flatMap_congr hemit).trans (List.flatMap_singleton' texts)
    · intro line hline
      obtain ⟨text, htext, rfl⟩ := List.mem_map.mp hline
      exact hascii text '\n' (by decide) (hfree text htext).1
    · exact mt List.map_eq_nil_iff.mp hnil

theorem asyncLines_of_texts_cut : asyncLines [[0x61, 0xC3], [0xA9, 0x0A], [0x62]] (none : Option Nat) =
    ⟨["aé".toList, "b".toList], none⟩ :=
  asyncLines_of_texts (by decide) (by decide) (by decide +kernel)

end FirebaseSwift.Shared
