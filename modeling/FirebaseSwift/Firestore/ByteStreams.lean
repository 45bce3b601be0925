import FirebaseSwift.Firestore.BridgeFieldValues

/-! The byte stream of a bundle, `SwiftByteStream`. It reads through a callback that hands over the bytes of
the stream in pieces, and keeps what was read too much in a buffer. `ReadUntil` looks for the delimiter only
where something was read. -/

namespace FirebaseSwift.Firestore

structure StreamReadResult where
  bytes : Bytes
  eof : Bool
deriving DecidableEq

/-- The stream with the bytes that the callback did not hand over yet -/
structure SwiftByteStream where
  source : Bytes
  calls : Nat := 0
  buffer : Bytes := []
  atEnd : Bool := false

namespace SwiftByteStream

/-! ### Reading -/

section Reading

-- `cuts` says how many bytes the callback hands over at each of its calls. It is one byte at least.
variable (cuts : Nat → Nat)

/-- `ReadRaw`. Nothing is read at the end of the stream, and where nothing was asked for. -/
def readRaw (stream : SwiftByteStream) (maxLength : Nat) : Bytes × SwiftByteStream :=
  let length := min (max 1 (cuts stream.calls)) maxLength
  let read := stream.source.take length
  (read, { stream with source := stream.source.drop length, calls := stream.calls + 1,
                       atEnd := stream.atEnd || read.isEmpty })

def readToBuffer (stream : SwiftByteStream) (maxLength : Nat) : Bytes × SwiftByteStream :=
  let read := stream.readRaw cuts maxLength
  (read.1, { read.2 with buffer := stream.buffer ++ read.1 })

def eof (stream : SwiftByteStream) : Bool := stream.buffer.isEmpty && stream.atEnd

/-- Peeks one byte so that the end of the stream is known. -/
def consumeBuffer (stream : SwiftByteStream) : StreamReadResult × SwiftByteStream :=
  let peek := stream.readRaw cuts 1
  (⟨stream.buffer, peek.1.isEmpty⟩, { peek.2 with buffer := peek.1 })

/-- The first part of the buffer. The rest stays. -/
def takeBuffer (stream : SwiftByteStream) (length : Nat) : StreamReadResult × SwiftByteStream :=
  let rest := { stream with buffer := stream.buffer.drop length }
  (⟨stream.buffer.take length, rest.eof⟩, rest)

/-- `buffer_.find(delim, last_pos)` -/
def findFrom (delim : UInt8) (lastPos : Nat) (buffer : Bytes) : Option Nat :=
  ((buffer.drop lastPos).findIdx? (· == delim)).map (· + lastPos)

/-- The loop of `ReadUntil`, with the place where the delimiter was found. Each iteration but the last reads
a byte at least, so that as many iterations are enough as bytes are asked for. -/
def searchLoop (delim : UInt8) (maxLength : Nat) : Nat → Nat → SwiftByteStream → Option Nat × SwiftByteStream
  | 0, _, stream => (none, stream)
  | n + 1, lastPos, stream =>
      if stream.buffer.length < maxLength then
        let read := stream.readToBuffer cuts (maxLength - stream.buffer.length)
        let foundAt := findFrom delim lastPos read.2.buffer
        if foundAt.isSome ∨ read.1 = [] then (foundAt, read.2)
        else searchLoop delim maxLength n read.2.buffer.length read.2
      else (none, stream)

def readUntil (stream : SwiftByteStream) (delim : UInt8) (maxLength : Nat) : StreamReadResult × SwiftByteStream :=
  let search := searchLoop cuts delim maxLength maxLength 0 stream
  if search.1 = none ∧ search.2.buffer.length = maxLength then search.2.consumeBuffer cuts
  else search.2.takeBuffer (min maxLength (search.1.getD maxLength))

def read (stream : SwiftByteStream) (maxLength : Nat) : StreamReadResult × SwiftByteStream :=
  if stream.buffer.length > maxLength then stream.takeBuffer maxLength
  else ((stream.readToBuffer cuts (maxLength - stream.buffer.length)).2).consumeBuffer cuts

end Reading

/-! ### Calls -/

inductive Call where
  | readUntil (delim : UInt8) (maxLength : Nat)
  | read (maxLength : Nat)
deriving DecidableEq

def Call.maxLength : Call → Nat
  | .readUntil _ maxLength => maxLength
  | .read maxLength => maxLength

/-- A call with the streams before and after it -/
structure Step where
  before : SwiftByteStream
  call : Call
  result : StreamReadResult
  after : SwiftByteStream

def step (cuts : Nat → Nat) (stream : SwiftByteStream) (call : Call) : Step :=
  match call with
  | .readUntil delim maxLength =>
      ⟨stream, call, (stream.readUntil cuts delim maxLength).1, (stream.readUntil cuts delim maxLength).2⟩
  | .read maxLength => ⟨stream, call, (stream.read cuts maxLength).1, (stream.read cuts maxLength).2⟩

def trace (cuts : Nat → Nat) : SwiftByteStream → List Call → List Step
  | _, [] => []
  | stream, call :: calls => stream.step cuts call :: trace cuts (stream.step cuts call).after calls

/-- The bytes that were not returned yet -/
def unread (stream : SwiftByteStream) : Bytes := stream.buffer ++ stream.source

/-! ### Single reads -/

section Steps

variable {cuts : Nat → Nat} {stream after : SwiftByteStream} {delim : UInt8} {maxLength : Nat}

theorem readRaw_append (maxLength : Nat) :
    (stream.readRaw cuts maxLength).1 ++ (stream.readRaw cuts maxLength).2.source = stream.source :=
  List.take_append_drop _ _

theorem length_readRaw_le (maxLength : Nat) : (stream.readRaw cuts maxLength).1.length ≤ maxLength := by
  rw [readRaw, List.length_take]
  omega

/-- Nothing is read at the end only. -/
theorem readRaw_eq_nil_iff (h : 0 < maxLength) : (stream.readRaw cuts maxLength).1 = [] ↔ stream.source = [] := by
  rw [readRaw, List.take_eq_nil_iff]
  exact or_iff_right (by omega)

theorem readRaw_atEnd (h : (stream.readRaw cuts maxLength).1 = []) : (stream.readRaw cuts maxLength).2.atEnd := by
  show (stream.atEnd || (stream.readRaw cuts maxLength).1.isEmpty) = true
  rw [h, List.isEmpty_nil, Bool.or_true]

theorem readToBuffer_buffer (maxLength : Nat) : (stream.readToBuffer cuts maxLength).2.buffer =
    stream.buffer ++ (stream.readToBuffer cuts maxLength).1 := rfl

theorem readToBuffer_unread (maxLength : Nat) : (stream.readToBuffer cuts maxLength).2.unread = stream.unread := by
  show (stream.buffer ++ (stream.readRaw cuts maxLength).1) ++ (stream.readRaw cuts maxLength).2.source = _
  rw [List.append_assoc, readRaw_append]
  rfl

theorem length_readToBuffer_le (maxLength : Nat) : (stream.readToBuffer cuts maxLength).1.length ≤ maxLength :=
  length_readRaw_le maxLength

theorem readToBuffer_eq_nil (hpos : 0 < maxLength) (h : (stream.readToBuffer cuts maxLength).1 = []) :
    (stream.readToBuffer cuts maxLength).2.source = [] ∧ (stream.readToBuffer cuts maxLength).2.atEnd := by
  refine ⟨?_, readRaw_atEnd h⟩
  have happend := @readRaw_append cuts stream maxLength
  rw [(readRaw_eq_nil_iff hpos).mp h] at happend
  exact (List.append_eq_nil_iff.mp happend).2

/-! ### Looking for the delimiter -/

/-- The delimiter at an index, and not before it -/
def IsFirst (delim : UInt8) (buffer : Bytes) (k : Nat) : Prop := delim ∉ buffer.take k ∧ buffer[k]? = some delim

theorem findFrom_eq_some {lastPos k : Nat} {buffer : Bytes} (hbefore : delim ∉ buffer.take lastPos)
    (h : findFrom delim lastPos buffer = some k) : IsFirst delim buffer k := by
  obtain ⟨i, hi, rfl⟩ := Option.map_eq_some_iff.mp h
  obtain ⟨hlt, hfound, hfirst⟩ := List.findIdx?_eq_some_iff_getElem.mp hi
  rw [Nat.add_comm i lastPos]
  constructor
  · rw [List.take_add, List.mem_append, not_or]
    refine ⟨hbefore, fun hmem => ?_⟩
    obtain ⟨j, hj, hget⟩ := List.mem_iff_getElem.mp hmem
    rw [List.length_take] at hj
    rw [List.getElem_take] at hget
    exact hfirst j (by omega) (beq_iff_eq.mpr hget)
  · rw [← List.getElem?_drop, List.getElem?_eq_getElem hlt, beq_iff_eq.mp hfound]

theorem findFrom_eq_none {lastPos : Nat} {buffer : Bytes} (hbefore : delim ∉ buffer.take lastPos)
    (h : findFrom delim lastPos buffer = none) : delim ∉ buffer := by
  have hrest := List.findIdx?_eq_none_iff.mp (Option.map_eq_none_iff.mp h)
  intro hmem
  rw [← List.take_append_drop lastPos buffer] at hmem
  rcases List.mem_append.mp hmem with hmem | hmem
  · exact hbefore hmem
  · exact absurd (beq_self_eq_true delim) (Bool.eq_false_iff.mp (hrest delim hmem))

/-- What the loop of `ReadUntil` does: it finds the delimiter, or the buffer has as many bytes as asked for, or
the end was reached. A buffer that had as many bytes before is not looked at. -/
inductive Searched (delim : UInt8) (maxLength : Nat) (stream : SwiftByteStream) : Option Nat → SwiftByteStream → Prop
  | skipped : maxLength ≤ stream.buffer.length → Searched delim maxLength stream none stream
  | found {k : Nat} {next : SwiftByteStream} : IsFirst delim next.buffer k → next.buffer.length ≤ maxLength →
      next.unread = stream.unread → Searched delim maxLength stream (some k) next
  | full {next : SwiftByteStream} : delim ∉ next.buffer → next.buffer.length = maxLength →
      next.unread = stream.unread → Searched delim maxLength stream none next
  | ended {next : SwiftByteStream} : delim ∉ next.buffer → next.buffer.length < maxLength → next.source = [] →
      next.atEnd → next.unread = stream.unread → Searched delim maxLength stream none next

/-- Searching on after a read -/
theorem Searched.of_read {next result : SwiftByteStream} {foundAt : Option Nat} (h : Searched delim maxLength next foundAt result)
    (hunread : next.unread = stream.unread) (hle : next.buffer.length ≤ maxLength) (hnot : delim ∉ next.buffer) :
    Searched delim maxLength stream foundAt result := by
  cases h with
  | skipped hlength => exact .full hnot (Nat.le_antisymm hle hlength) hunread
  | found hfirst hlength hsame => exact .found hfirst hlength (hsame.trans hunread)
  | full hnot hlength hsame => exact .full hnot hlength (hsame.trans hunread)
  | ended hnot hlength hsource hend hsame => exact .ended hnot hlength hsource hend (hsame.trans hunread)

theorem searched_searchLoop {n lastPos : Nat} (hfuel : maxLength ≤ stream.buffer.length + n)
    (hbefore : delim ∉ stream.buffer.take lastPos) (hlast : lastPos ≤ stream.buffer.length) :
    Searched delim maxLength stream (searchLoop cuts delim maxLength n lastPos stream).1
      (searchLoop cuts delim maxLength n lastPos stream).2 := by
  induction n generalizing lastPos stream with
  | zero => exact .skipped hfuel
  | succ n ih =>
      by_cases hlength : stream.buffer.length < maxLength
      · have hunread := @readToBuffer_unread cuts stream (maxLength - stream.buffer.length)
        have hbuffer := @readToBuffer_buffer cuts stream (maxLength - stream.buffer.length)
        have hread := @length_readToBuffer_le cuts stream (maxLength - stream.buffer.length)
        have hend := @readToBuffer_eq_nil cuts stream _ (Nat.sub_pos_of_lt hlength)
        rw [searchLoop, if_pos hlength]
        generalize stream.readToBuffer cuts (maxLength - stream.buffer.length) = read at *
        dsimp only
        have hle : read.2.buffer.length ≤ maxLength := by
          rw [hbuffer, List.length_append]
          omega
        have hseen : delim ∉ read.2.buffer.take lastPos := by
          rw [hbuffer, List.take_append_of_le_length hlast]
          exact hbefore
        cases hfound : findFrom delim lastPos read.2.buffer with
        | some k =>
            rw [if_pos (.inl rfl)]
            exact .found (findFrom_eq_some hseen hfound) hle hunread
        | none =>
            have hnot := findFrom_eq_none hseen hfound
            by_cases hempty : read.1 = []
            · -- Nothing was read, so that the end is reached and the buffer is as it was.
              rw [if_pos (.inr hempty)]
              rw [hempty, List.append_nil] at hbuffer
              exact .ended hnot (hbuffer ▸ hlength) (hend hempty).1 (hend hempty).2 hunread
            · rw [if_neg fun hdone => hdone.elim nofun hempty]
              have hpos := List.length_pos_iff.mpr hempty
              have hfuel' : maxLength ≤ read.2.buffer.length + n := by
                rw [hbuffer, List.length_append]
                omega
              refine (ih hfuel' ?_ (Nat.le_refl _)).of_read hunread hle hnot
              rw [List.take_length]
              exact hnot
      · rw [searchLoop, if_neg hlength]
        exact .skipped (Nat.le_of_not_lt hlength)

/-! ### What is returned -/

/-- Nothing is lost, nothing too long is returned, and the end is told where all was returned and it was seen. -/
structure Returns (stream : SwiftByteStream) (maxLength : Nat) (result : StreamReadResult) (after : SwiftByteStream) :
    Prop where
  unread : result.bytes ++ after.unread = stream.unread
  length : result.bytes.length ≤ maxLength
  eof_iff : result.eof ↔ after.unread = [] ∧ after.atEnd

theorem returns_consumeBuffer (h : stream.buffer.length ≤ maxLength) :
    Returns stream maxLength (stream.consumeBuffer cuts).1 (stream.consumeBuffer cuts).2 := by
  have happend := @readRaw_append cuts stream 1
  have hunread : (stream.consumeBuffer cuts).2.unread = stream.source := happend
  refine ⟨congrArg (stream.buffer ++ ·) happend, h, ?_⟩
  rw [hunread]
  show (stream.readRaw cuts 1).1.isEmpty ↔ _
  rw [List.isEmpty_iff, readRaw_eq_nil_iff Nat.one_pos]
  exact ⟨fun hsource => ⟨hsource, readRaw_atEnd ((readRaw_eq_nil_iff Nat.one_pos).mpr hsource)⟩, And.left⟩

/-- A part of the buffer, which leaves something there or is at the end of the stream -/
theorem returns_takeBuffer {length : Nat} (hlength : length ≤ maxLength)
    (h : stream.buffer.length ≤ length → stream.source = []) :
    Returns stream maxLength (stream.takeBuffer length).1 (stream.takeBuffer length).2 where
  unread := by
    show stream.buffer.take length ++ (stream.buffer.drop length ++ stream.source) = _
    rw [← List.append_assoc, List.take_append_drop]
    rfl
  length := (List.length_take_le _ _).trans hlength
  eof_iff := by
    show ((stream.buffer.drop length).isEmpty && stream.atEnd) = true ↔
      stream.buffer.drop length ++ stream.source = [] ∧ stream.atEnd
    rw [Bool.and_eq_true, List.isEmpty_iff, List.append_eq_nil_iff, and_assoc, List.drop_eq_nil_iff]
    exact and_congr_right fun hle => (and_iff_right (h hle)).symm

/-- What was read to the buffer was not returned. -/
theorem Returns.of_unread {next : SwiftByteStream} {result : StreamReadResult} (h : Returns next maxLength result after)
    (hunread : next.unread = stream.unread) : Returns stream maxLength result after :=
  ⟨h.unread.trans hunread, h.length, h.eof_iff⟩

theorem returns_read (maxLength : Nat) :
    Returns stream maxLength (stream.read cuts maxLength).1 (stream.read cuts maxLength).2 := by
  rw [read]
  by_cases hlength : stream.buffer.length > maxLength
  · rw [if_pos hlength]
    exact returns_takeBuffer (Nat.le_refl _) fun hle => absurd hle (Nat.not_le_of_lt hlength)
  · rw [if_neg hlength]
    have hread := @length_readToBuffer_le cuts stream (maxLength - stream.buffer.length)
    refine (returns_consumeBuffer ?_).of_unread (readToBuffer_unread _)
    rw [readToBuffer_buffer, List.length_append]
    omega

/-- A buffer that is long enough is not looked at. -/
theorem searchLoop_of_le {n lastPos : Nat} (h : maxLength ≤ stream.buffer.length) :
    searchLoop cuts delim maxLength n lastPos stream = (none, stream) := by
  cases n with
  | zero => rfl
  | succ n => rw [searchLoop, if_neg (Nat.not_lt_of_le h)]

theorem readUntil_of_le (h : maxLength ≤ stream.buffer.length) : stream.readUntil cuts delim maxLength =
    if stream.buffer.length = maxLength then stream.consumeBuffer cuts else stream.takeBuffer maxLength := by
  rw [readUntil, searchLoop_of_le h]
  simp only [true_and, Option.getD_none, Nat.min_self]

/-- What `ReadUntil` returns after it read: all of a full buffer, what is in front of the delimiter, or all at
the end. -/
theorem readUntil_cases (h : stream.buffer.length < maxLength) : ∃ next : SwiftByteStream, next.unread = stream.unread ∧
    ((delim ∉ next.buffer ∧ next.buffer.length = maxLength ∧
        stream.readUntil cuts delim maxLength = next.consumeBuffer cuts) ∨
      (∃ k, k < maxLength ∧ IsFirst delim next.buffer k ∧
        stream.readUntil cuts delim maxLength = next.takeBuffer k) ∨
      (delim ∉ next.buffer ∧ next.source = [] ∧ next.atEnd ∧
        next.buffer.length < maxLength ∧ stream.readUntil cuts delim maxLength = next.takeBuffer maxLength)) := by
  have hsearched : Searched delim maxLength stream (searchLoop cuts delim maxLength maxLength 0 stream).1
      (searchLoop cuts delim maxLength maxLength 0 stream).2 :=
    searched_searchLoop (Nat.le_add_left _ _) List.not_mem_nil (Nat.zero_le _)
  rw [readUntil]
  generalize searchLoop cuts delim maxLength maxLength 0 stream = search at hsearched ⊢
  obtain ⟨foundAt, next⟩ := search
  refine ⟨next, ?_⟩
  cases hsearched with
  | skipped hle => exact absurd hle (Nat.not_le_of_lt h)
  | @found k _ hfirst hle hunread =>
      have hk : k < next.buffer.length := (List.getElem?_eq_some_iff.mp hfirst.2).1
      refine ⟨hunread, .inr (.inl ⟨k, hk.trans_le hle, hfirst, ?_⟩)⟩
      have hmin : min maxLength ((some k).getD maxLength) = k := Nat.min_eq_right (hk.le.trans hle)
      rw [if_neg fun hnone => nomatch hnone.1]
      exact congrArg next.takeBuffer hmin
  | full hnot hlength hunread => exact ⟨hunread, .inl ⟨hnot, hlength, if_pos ⟨rfl, hlength⟩⟩⟩
  | ended hnot hlength hsource hend hunread =>
      refine ⟨hunread, .inr (.inr ⟨hnot, hsource, hend, hlength, ?_⟩)⟩
      rw [if_neg fun hfull => hlength.ne hfull.2, Option.getD_none, Nat.min_self]

theorem returns_readUntil (delim : UInt8) (maxLength : Nat) :
    Returns stream maxLength (stream.readUntil cuts delim maxLength).1 (stream.readUntil cuts delim maxLength).2 := by
  by_cases h : maxLength ≤ stream.buffer.length
  · rw [readUntil_of_le h]
    by_cases hlength : stream.buffer.length = maxLength
    · rw [if_pos hlength]
      exact returns_consumeBuffer hlength.le
    · rw [if_neg hlength]
      exact returns_takeBuffer (Nat.le_refl _) fun hle => absurd (Nat.le_antisymm hle h) hlength
  · obtain ⟨next, hunread, hcases⟩ := @readUntil_cases cuts stream delim maxLength (Nat.lt_of_not_le h)
    rcases hcases with ⟨-, hlength, heq⟩ | ⟨k, hk, hfirst, heq⟩ | ⟨-, hsource, -, -, heq⟩
    · rw [heq]
      exact (returns_consumeBuffer hlength.le).of_unread hunread
    · rw [heq]
      have hlt : k < next.buffer.length := (List.getElem?_eq_some_iff.mp hfirst.2).1
      exact (returns_takeBuffer hk.le fun hle => absurd hle (Nat.not_le_of_lt hlt)).of_unread hunread
    · rw [heq]
      exact (returns_takeBuffer (Nat.le_refl _) fun _ => hsource).of_unread hunread

/-- The delimiter is returned where it stands in a buffer that was not looked at. -/
theorem mem_readUntil_iff : delim ∈ (stream.readUntil cuts delim maxLength).1.bytes ↔
    maxLength ≤ stream.buffer.length ∧ delim ∈ stream.buffer.take maxLength := by
  by_cases h : maxLength ≤ stream.buffer.length
  · rw [readUntil_of_le h, and_iff_right h]
    by_cases hlength : stream.buffer.length = maxLength
    · rw [if_pos hlength, ← hlength, List.take_length]
      exact Iff.rfl
    · rw [if_neg hlength]
      exact Iff.rfl
  · refine iff_of_false ?_ fun hmem => h hmem.1
    obtain ⟨next, -, hcases⟩ := @readUntil_cases cuts stream delim maxLength (Nat.lt_of_not_le h)
    rcases hcases with ⟨hnot, -, heq⟩ | ⟨k, -, hfirst, heq⟩ | ⟨hnot, -, -, -, heq⟩
    · rw [heq]
      exact hnot
    · rw [heq]
      exact hfirst.1
    · rw [heq]
      exact fun hmem => hnot (List.mem_of_mem_take hmem)

/-- What is returned short of the end and of the length asked for stops in front of the delimiter. -/
theorem readUntil_next (hlength : (stream.readUntil cuts delim maxLength).1.bytes.length < maxLength)
    (heof : (stream.readUntil cuts delim maxLength).1.eof = false) :
    (stream.readUntil cuts delim maxLength).2.unread.head? = some delim := by
  by_cases h : maxLength ≤ stream.buffer.length
  · rw [readUntil_of_le h] at hlength
    by_cases heq : stream.buffer.length = maxLength
    · rw [if_pos heq] at hlength
      exact absurd heq hlength.ne
    · rw [if_neg heq] at hlength
      exact absurd (List.length_take_of_le h) hlength.ne
  · obtain ⟨next, -, hcases⟩ := @readUntil_cases cuts stream delim maxLength (Nat.lt_of_not_le h)
    rcases hcases with ⟨-, hfull, heq⟩ | ⟨k, -, hfirst, heq⟩ | ⟨-, hsource, hend, hshort, heq⟩
    · rw [heq] at hlength
      exact absurd hfull hlength.ne
    · rw [heq]
      show (next.buffer.drop k ++ next.source).head? = _
      rw [List.head?_append, List.head?_drop, hfirst.2]
      rfl
    · rw [heq] at heof
      have hempty : next.buffer.drop maxLength = [] := List.drop_eq_nil_of_le hshort.le
      have htrue : (next.takeBuffer maxLength).1.eof = true := by
        show ((next.buffer.drop maxLength).isEmpty && next.atEnd) = true
        rw [hempty, hend]
        rfl
      rw [htrue] at heof
      cases heof

/-! ### Runs -/

theorem returns_step (call : Call) :
    Returns stream call.maxLength (stream.step cuts call).result (stream.step cuts call).after := by
  cases call with
  | readUntil delim maxLength => exact returns_readUntil delim maxLength
  | read maxLength => exact returns_read maxLength

end Steps

/-- What is returned by some steps -/
def returned (steps : List Step) : Bytes := steps.flatMap fun step => step.result.bytes

/-- What is asked of the calls on a stream of some bytes -/
structure MeetsContract (bytes : Bytes) (steps : List Step) : Prop where
  prefixed : returned steps <+: bytes
  eof_iff : ∀ earlier step, earlier ++ [step] <+: steps →
    (step.result.eof ↔ returned (earlier ++ [step]) = bytes ∧ step.after.atEnd)
  length_le : ∀ step ∈ steps, step.result.bytes.length ≤ step.call.maxLength
  stops : ∀ step ∈ steps, ∀ delim maxLength, step.call = .readUntil delim maxLength →
    delim ∉ step.result.bytes ∧
      (step.result.bytes.length < maxLength → step.result.eof = false → step.after.unread.head? = some delim)

/-- Whether a call looks at all of the bytes that it may return. -/
def Step.LooksAtBuffer (step : Step) : Prop :=
  ∀ delim maxLength, step.call = .readUntil delim maxLength →
    step.before.buffer.length < maxLength ∨ delim ∉ step.before.buffer.take maxLength

/-- At each step of a run what was returned and what is unread are the stream. -/
theorem returned_append_unread {cuts : Nat → Nat} {calls : List Call} {stream : SwiftByteStream} {earlier : List Step}
    {last : Step} (h : earlier ++ [last] <+: trace cuts stream calls) :
    (∃ before : SwiftByteStream, last = before.step cuts last.call) ∧
      returned (earlier ++ [last]) ++ last.after.unread = stream.unread := by
  induction calls generalizing stream earlier with
  | nil => exact absurd (List.prefix_nil.mp h) (List.append_ne_nil_of_right_ne_nil _ (List.cons_ne_nil _ _))
  | cons call calls ih =>
      rw [trace] at h
      cases earlier with
      | nil =>
          obtain ⟨rfl, -⟩ := List.cons_prefix_cons.mp h
          have hcall : (stream.step cuts call).call = call := by cases call <;> rfl
          refine ⟨⟨stream, by rw [hcall]⟩, ?_⟩
          have hunread := (@returns_step cuts stream call).unread
          rw [returned, List.nil_append, List.flatMap_singleton]
          exact hunread
      | cons first earlier =>
          obtain ⟨rfl, hrest⟩ := List.cons_prefix_cons.mp h
          obtain ⟨hstep, hunread⟩ := ih hrest
          refine ⟨hstep, ?_⟩
          rw [List.cons_append, returned, List.flatMap_cons, List.append_assoc]
          rw [returned] at hunread
          rw [hunread, (returns_step call).unread]

theorem exists_prefix_of_mem {steps : List Step} {step : Step} (h : step ∈ steps) : ∃ earlier, earlier ++ [step] <+: steps := by
  obtain ⟨earlier, later, rfl⟩ := List.append_of_mem h
  exact ⟨earlier, later, by rw [List.append_assoc, List.singleton_append]⟩

/-- A run meets the contract exactly if no call of `ReadUntil` leaves a part of the buffer unexamined that has
the delimiter in it. -/
theorem meetsContract_iff (cuts : Nat → Nat) (bytes : Bytes) (calls : List Call) :
    MeetsContract bytes (trace cuts { source := bytes } calls) ↔
      ∀ step ∈ trace cuts { source := bytes } calls, step.LooksAtBuffer := by
  have hsteps : ∀ earlier step, earlier ++ [step] <+: trace cuts { source := bytes } calls →
      (∃ before : SwiftByteStream, step = before.step cuts step.call) ∧
        returned (earlier ++ [step]) ++ step.after.unread = bytes := fun _ _ h => returned_append_unread h
  have hmem : ∀ step ∈ trace cuts { source := bytes } calls, ∃ before : SwiftByteStream,
      step = before.step cuts step.call := fun step hstep =>
    have ⟨earlier, hearlier⟩ := exists_prefix_of_mem hstep
    (hsteps earlier step hearlier).1
  constructor
  · intro hmeets step hstep delim maxLength hcall
    obtain ⟨before, hbefore⟩ := hmem step hstep
    have hnot := (hmeets.stops step hstep delim maxLength hcall).1
    rw [hbefore, hcall] at hnot ⊢
    by_contra hlooks
    push Not at hlooks
    exact hnot (mem_readUntil_iff.mpr hlooks)
  · intro hlooks
    refine ⟨?_, ?_, ?_, ?_⟩
    · cases hlast : (trace cuts { source := bytes } calls).getLast? with
      | none =>
          rw [List.getLast?_eq_none_iff.mp hlast]
          exact List.nil_prefix
      | some last =>
          obtain ⟨earlier, hearlier⟩ := List.getLast?_eq_some_iff.mp hlast
          rw [hearlier]
          exact ⟨_, (hsteps earlier last (hearlier ▸ List.prefix_refl _)).2⟩
    · intro earlier step hprefix
      obtain ⟨⟨before, hbefore⟩, hunread⟩ := hsteps earlier step hprefix
      have heof : step.result.eof ↔ step.after.unread = [] ∧ step.after.atEnd := by
        rw [hbefore]
        exact (returns_step step.call).eof_iff
      rw [heof]
      refine and_congr_left fun _ => ⟨fun hempty => ?_, fun hall => ?_⟩
      · rw [hempty, List.append_nil] at hunread
        exact hunread
      · rw [hall] at hunread
        exact List.append_right_eq_self.mp hunread
    · intro step hstep
      obtain ⟨before, hbefore⟩ := hmem step hstep
      have hlength := (@returns_step cuts before step.call).length
      rw [← hbefore] at hlength
      exact hlength
    · intro step hstep delim maxLength hcall
      have hlooks := hlooks step hstep delim maxLength hcall
      obtain ⟨before, hbefore⟩ := hmem step hstep
      rw [hbefore, hcall] at hlooks ⊢
      refine ⟨fun hreturned => ?_, readUntil_next⟩
      obtain ⟨hlong, hinside⟩ := mem_readUntil_iff.mp hreturned
      exact hlooks.elim (Nat.not_lt_of_le hlong) fun hnot => hnot hinside

/-- What was left in front of a delimiter returns it. -/
theorem readUntil_returns_delimiter : ¬MeetsContract (ascii "\x7b\x7d") (trace (fun _ => 8) { source := ascii "\x7b\x7d" }
    [.readUntil 0x7b 5, .readUntil 0x7b 1]) := by
  intro hmeets
  have hstop := hmeets.stops _ (List.mem_cons_of_mem _ List.mem_cons_self) 0x7b 1 rfl
  exact hstop.1 (by decide)

end SwiftByteStream

end FirebaseSwift.Firestore
