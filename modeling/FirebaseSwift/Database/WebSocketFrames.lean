import FirebaseSwift.Database.Connection
import FirebaseSwift.Library.UnicodeStrings
import Mathlib.Data.Nat.Digits.Defs

/-! The frames of `FWebSocketConnection`. A message is one text, cut into chunks of at most as many characters
as a frame may have. More than one chunk comes after their number. The receiver takes a short frame that is a
positive number for such a number, unless it waits for the chunks of a message. As the text of a dictionary is
no number, the messages that are sent are received, and nothing is left over. -/

namespace FirebaseSwift.Database

open UnicodeStrings

namespace WebSocketFrames

def kWebsocketMaxFrameSize : Nat := 16384

/-- `split(by:)` of the characters that are left. -/
def splitBy (length : Nat) (hlength : 0 < length) : List (List Char) → List (List Char)
  | [] => []
  | c :: rest => ((c :: rest).take length).flatten :: splitBy length hlength ((c :: rest).drop length)
termination_by characters => characters.length
decreasing_by
  rw [List.length_drop, List.length_cons]
  omega

/-- `JSONSerialization` of messages. A message that is no object has no data. -/
structure MessageJSON (Message : Type) where
  data : Message → Option (List Char)
  jsonObject : List Char → Option Message

/-- The text of an object starts with a brace, and it is read back. -/
structure MessageJSON.Documented {Message : Type} (json : MessageJSON Message) : Prop where
  head_data : ∀ message text, json.data message = some text → text.head? = some '{'
  jsonObject_data : ∀ message text, json.data message = some text → json.jsonObject text = some message

variable {Message : Type}

/-- A frame comes in. The connection is left, with the messages that its delegate got. -/
def receive (json : MessageJSON Message) (state : FWebSocketConnection × List Message) (frame : List Char) :
    FWebSocketConnection × List Message :=
  let handled := state.1.handleIncomingFrame frame
  (handled.1, state.2 ++ (handled.2.bind json.jsonObject).toList)

section Sending

variable [UnicodeVersion]

def chunks (string : List Char) : List (List Char) :=
  splitBy kWebsocketMaxFrameSize (by decide) (characters string)

/-- The frames that are sent. -/
def send (json : MessageJSON Message) (dictionary : Message) : List (List Char) :=
  match json.data dictionary with
  | none => []
  | some string =>
      if (chunks string).length > 1 then Nat.toDigits 10 (chunks string).length :: chunks string
      else chunks string

end Sending

/-! ### Chunks -/

theorem flatten_splitBy (length : Nat) (hlength : 0 < length) (characters : List (List Char)) :
    (splitBy length hlength characters).flatten = characters.flatten := by
  induction characters using splitBy.induct length hlength with
  | case1 =>
      rw [splitBy]
  | case2 c rest ih =>
      rw [splitBy, List.flatten_cons, ih, ← List.flatten_append, List.take_append_drop]

/-- All chunks but the last are full. -/
theorem length_splitBy_le (length : Nat) (hlength : 0 < length) (characters : List (List Char)) :
    (splitBy length hlength characters).length * length < characters.length + length := by
  induction characters using splitBy.induct length hlength with
  | case1 =>
      rw [splitBy, List.length_nil, Nat.zero_mul, Nat.zero_add]
      exact hlength
  | case2 c rest ih =>
      rw [splitBy, List.length_cons, Nat.succ_mul]
      rw [List.length_drop, List.length_cons] at ih
      rw [List.length_cons]
      rcases Nat.lt_or_ge (rest.length + 1) length with hshort | hlong
      · rw [Nat.sub_eq_zero_of_le hshort.le, Nat.zero_add] at ih
        have hnone : (splitBy length hlength ((c :: rest).drop length)).length = 0 := by
          rcases Nat.eq_zero_or_pos (splitBy length hlength ((c :: rest).drop length)).length with hzero | hpos
          · exact hzero
          · exact absurd ih (Nat.not_lt.mpr (Nat.le_mul_of_pos_left length hpos))
        rw [hnone, Nat.zero_mul]
        omega
      · omega

theorem flatten_chunks [UnicodeVersion] (string : List Char) : (chunks string).flatten = string := by
  rw [chunks, flatten_splitBy, flatten_characters]

/-! ### Numbers of frames -/

theorem decimalValue_toDigits (n : Nat) : decimalValue (Nat.toDigits 10 n) = some n := by
  have hdigits : (Nat.toDigits 10 n).all Char.isDigit = true := List.all_eq_true.mpr fun c hc =>
    Nat.isDigit_of_mem_toDigits (by decide) (by decide) hc
  rw [decimalValue, if_pos ⟨Nat.toDigits_ne_nil, hdigits⟩]
  exact congrArg some Nat.ofDigitChars_ten_toDigits

/-- A string without a sign is read as digits. -/
theorem parseInt_of_unsigned {c : Char} {rest : List Char} (hminus : c ≠ '-') (hplus : c ≠ '+') :
    parseInt (c :: rest) = (decimalValue (c :: rest)).map fun value => (value : Int) := by
  unfold parseInt
  split
  · rename_i hcons
    exact absurd (List.cons.inj hcons).1 hminus
  · rename_i hcons
    exact absurd (List.cons.inj hcons).1 hplus
  · rfl

theorem parseInt_toDigits (n : Nat) : parseInt (Nat.toDigits 10 n) = some (n : Int) := by
  have hvalue := decimalValue_toDigits n
  cases hdigits : Nat.toDigits 10 n with
  | nil => exact absurd hdigits Nat.toDigits_ne_nil
  | cons c rest =>
      have hdigit : c.isDigit = true := Nat.isDigit_of_mem_toDigits (b := 10) (by decide) (by decide)
        (hdigits ▸ List.mem_cons_self)
      have hminus : c ≠ '-' := by
        rintro rfl
        exact absurd hdigit (by decide)
      have hplus : c ≠ '+' := by
        rintro rfl
        exact absurd hdigit (by decide)
      rw [hdigits] at hvalue
      rw [parseInt_of_unsigned hminus hplus, hvalue]
      rfl

/-- A text that starts with a brace is no number. -/
theorem parseInt_eq_none {s : List Char} (h : s.head? = some '{') : parseInt s = none := by
  obtain ⟨rest, rfl⟩ := List.head?_eq_some_iff.mp h
  rw [parseInt_of_unsigned (by decide) (by decide), decimalValue, if_neg]
  · rfl
  · exact fun hdigits => absurd (List.all_eq_true.mp hdigits.2 '{' List.mem_cons_self) (by decide)

/-! ### The receiver -/

variable {webSocket : FWebSocketConnection}

theorem handleIncomingFrame_of_buffering (h : webSocket.buffering = true) (message : List Char) :
    webSocket.handleIncomingFrame message = webSocket.appendFrame message := if_pos h

theorem handleIncomingFrame_of_idle (h : webSocket.buffering = false) (message : List Char) :
    webSocket.handleIncomingFrame message = match webSocket.extractFrameCount message with
      | (counted, some remaining) => counted.appendFrame remaining
      | (counted, none) => (counted, none) :=
  if_neg (by rw [h]; exact Bool.false_ne_true)

variable {json : MessageJSON Message}

/-- While it waits for frames, the receiver joins them, and after the last it delivers the message. -/
theorem foldl_appendFrame {frames : List (List Char)} (hframes : frames ≠ [])
    (webSocket : FWebSocketConnection) (received : List Message) (sofar : List Char) :
    frames.foldl (receive json) ({ webSocket with totalFrames := frames.length, frame := some sofar }, received) =
      ({ webSocket with totalFrames := 0, frame := none },
        received ++ (json.jsonObject (sofar ++ frames.flatten)).toList) := by
  induction frames generalizing sofar with
  | nil => exact absurd rfl hframes
  | cons first rest ih =>
      have hleft : ((first :: rest).length : Int) - 1 = rest.length := by
        rw [List.length_cons]
        omega
      rw [List.foldl_cons, List.flatten_cons, ← List.append_assoc]
      by_cases hrest : rest = []
      · have hreceive : receive json
            ({ webSocket with totalFrames := (first :: rest).length, frame := some sofar }, received) first =
              ({ webSocket with totalFrames := 0, frame := none },
                received ++ (json.jsonObject (sofar ++ first)).toList) := by
          rw [hrest]
          rfl
        rw [hreceive, hrest, List.flatten_nil, List.append_nil]
        rfl
      · have hpos : ¬((rest.length : Int) = 0) := by
          have := List.length_pos_iff.mpr hrest
          omega
        have hreceive : receive json
            ({ webSocket with totalFrames := (first :: rest).length, frame := some sofar }, received) first =
              ({ webSocket with totalFrames := rest.length, frame := some (sofar ++ first) }, received) := by
          unfold receive
          have hhandle : FWebSocketConnection.handleIncomingFrame
              { webSocket with totalFrames := (first :: rest).length, frame := some sofar } first =
                ({ webSocket with totalFrames := rest.length, frame := some (sofar ++ first) }, none) := by
            rw [handleIncomingFrame_of_buffering rfl, FWebSocketConnection.appendFrame]
            dsimp only
            rw [hleft, if_neg hpos]
            rfl
          rw [hhandle]
          exact congrArg _ (List.append_nil _)
        rw [hreceive]
        exact ih hrest (sofar ++ first)

section RoundTrip

variable [UnicodeVersion]

/-- The frames of one message. -/
theorem foldl_send (hjson : json.Documented) {message : Message} {text : List Char}
    (hdata : json.data message = some text) (hchunks : (chunks text).length < 10000)
    (webSocket : FWebSocketConnection) (received : List Message) :
    (send json message).foldl (receive json) ({ webSocket with totalFrames := 0, frame := none }, received) =
      ({ webSocket with totalFrames := 0, frame := none }, received ++ [message]) := by
  have hflatten := flatten_chunks text
  have hhead := hjson.head_data message text hdata
  have hmessage := hjson.jsonObject_data message text hdata
  rw [send, hdata]
  dsimp only
  split_ifs with hmany
  · -- the number of frames comes first
    have hcount := parseInt_toDigits (chunks text).length
    have hlength := Nat.toDigits_length 10 (chunks text).length 4 (by decide) hchunks
    have hpositive : 0 < (parseInt (Nat.toDigits 10 (chunks text).length)).getD 0 := by
      rw [hcount, Option.getD_some]
      omega
    have hwaits : receive json ({ webSocket with totalFrames := 0, frame := none }, received)
        (Nat.toDigits 10 (chunks text).length) =
          ({ webSocket with totalFrames := (chunks text).length, frame := some [] }, received) := by
      unfold receive
      have hhandle : FWebSocketConnection.handleIncomingFrame { webSocket with totalFrames := 0, frame := none }
          (Nat.toDigits 10 (chunks text).length) =
            ({ webSocket with totalFrames := (chunks text).length, frame := some [] }, none) := by
        rw [handleIncomingFrame_of_idle rfl, FWebSocketConnection.extractFrameCount, if_pos ⟨hlength, hpositive⟩, hcount]
        rfl
      rw [hhandle]
      exact congrArg _ (List.append_nil _)
    have hsome : chunks text ≠ [] := List.ne_nil_of_length_pos (by omega)
    rw [List.foldl_cons, hwaits, foldl_appendFrame hsome, List.nil_append, hflatten, hmessage]
    rfl
  · -- one frame, which is the text
    have hone : chunks text = [text] := by
      rcases hlist : chunks text with - | ⟨chunk, rest⟩
      · rw [hlist, List.flatten_nil] at hflatten
        rw [← hflatten] at hhead
        cases hhead
      · rw [hlist, List.length_cons] at hmany
        have hnil : rest = [] := List.length_eq_zero_iff.mp (by omega)
        rw [hlist, hnil, List.flatten_singleton] at hflatten
        rw [hnil, hflatten]
    have hhandle : FWebSocketConnection.handleIncomingFrame { webSocket with totalFrames := 0, frame := none }
        text = ({ webSocket with totalFrames := 0, frame := none }, some text) := by
      rw [handleIncomingFrame_of_idle rfl, FWebSocketConnection.extractFrameCount, parseInt_eq_none hhead,
        if_neg fun h => absurd h.2 (Int.lt_irrefl 0)]
      rfl
    rw [hone, List.foldl_cons, List.foldl_nil, receive, hhandle, Option.bind_some, hmessage]
    rfl

/-- The frames of messages that are objects, each of fewer than 10000 chunks, deliver the messages in order,
and the connection waits for no frame, as before. -/
theorem foldl_flatMap_send (hjson : json.Documented) {messages : List Message}
    (hmessages : ∀ message ∈ messages, ∃ text ∈ json.data message, (chunks text).length < 10000)
    (webSocket : FWebSocketConnection) (received : List Message) :
    (messages.flatMap (send json)).foldl (receive json)
        ({ webSocket with totalFrames := 0, frame := none }, received) =
      ({ webSocket with totalFrames := 0, frame := none }, received ++ messages) := by
  induction messages generalizing received with
  | nil =>
      rw [List.append_nil]
      rfl
  | cons message rest ih =>
      obtain ⟨⟨text, hdata, hchunks⟩, hrest⟩ := List.forall_mem_cons.mp hmessages
      rw [List.flatMap_cons, List.foldl_append, foldl_send hjson hdata hchunks, ih hrest, List.append_assoc,
        List.singleton_append]

end RoundTrip

/-! ### Objects with one key -/

def keyObject (n : Nat) : List Char := '{' :: '"' :: List.replicate n 'a' ++ ['"', ':', '0', '}']

/-- Objects with a key of some length, and zero. -/
def keyObjects : MessageJSON Nat where
  data n := some (keyObject n)
  jsonObject text := if text = keyObject (text.length - 6) then some (text.length - 6) else none

theorem length_keyObject (n : Nat) : (keyObject n).length = n + 6 := by
  rw [keyObject, List.length_append, List.length_cons, List.length_cons, List.length_replicate]
  rfl

theorem keyObjects_documented : keyObjects.Documented where
  head_data n text htext := by
    cases htext
    rfl
  jsonObject_data n text htext := by
    cases htext
    have hlength : (keyObject n).length - 6 = n := by
      rw [length_keyObject, Nat.add_sub_cancel]
    unfold keyObjects
    dsimp only
    rw [hlength, if_pos rfl]

theorem length_chunks_keyObject [UnicodeVersion] {n : Nat} (hn : n ≤ 100000000) :
    (chunks (keyObject n)).length < 10000 := by
  have hascii : ∀ c ∈ keyObject n, IsAscii c ∧ c ≠ '\r' := by
    intro c hc
    have hcases : c ∈ ['{', '"', 'a', ':', '0', '}'] := by
      rcases List.mem_append.mp hc with hfront | hback
      · rcases List.mem_cons.mp hfront with rfl | hfront
        · decide
        · rcases List.mem_cons.mp hfront with rfl | hkey
          · decide
          · rw [List.eq_of_mem_replicate hkey]
            decide
      · exact List.Subset.trans (by decide : ['"', ':', '0', '}'] ⊆ _) (List.Subset.refl _) hback
    have hall : (['{', '"', 'a', ':', '0', '}'].all fun c => decide (IsAscii c ∧ c ≠ '\r')) = true := by decide
    exact of_decide_eq_true (List.all_eq_true.mp hall c hcases)
  have hcharacters : (characters (keyObject n)).length = n + 6 := by
    rw [characters_of_isAscii _ hascii, List.length_map, length_keyObject]
  have hle : (chunks (keyObject n)).length * 16384 <
      (characters (keyObject n)).length + 16384 := length_splitBy_le 16384 (by decide) _
  omega

/-- Two messages of one frame, and one of two frames after their number. -/
theorem foldl_flatMap_send_keyObjects :
    (([3, 20000, 0] : List Nat).flatMap (@send _ marksOnly keyObjects)).foldl (receive keyObjects)
      (FWebSocketConnection.opened .connected, []) = (FWebSocketConnection.opened .connected, [3, 20000, 0]) :=
  have hlengths : ∀ n ∈ [3, 20000, 0], n ≤ 100000000 := by decide
  @foldl_flatMap_send _ _ marksOnly keyObjects_documented _
    (fun n hn => ⟨_, rfl, @length_chunks_keyObject marksOnly n (hlengths n hn)⟩)
    (FWebSocketConnection.opened .connected) []

end WebSocketFrames

end FirebaseSwift.Database
