import Mathlib.Data.List.Induction
import Mathlib.Data.Nat.Count
import Mecanum.Shared.Board
import Mecanum.Stream
import Mecanum.Trio

/-!
# The frames of a camera stream

A frame is nine characters: `a`, seven digits and `c`. The receiver completes a detection on exactly
those bytes that end nine such characters, whatever stands before them (`push_after_iff`), and the
records number the frames of the stream in order.
-/
namespace Mecanum.Camera

/-! ## Frames -/

/-- The digits between the two letters of a frame. -/
structure Frame where
  target : Fin 10
  x : Trio (Fin 10)
  y : Trio (Fin 10)
deriving DecidableEq

def digit (value : Fin 10) : UInt8 := 48 + value.val.toUInt8

theorem isDigit_digit : ∀ value, isDigit (digit value) = true := by decide

theorem digitValue_digit : ∀ value, digitValue (digit value) = value := by decide

theorem exists_digit {byte : UInt8} (read : isDigit byte = true) : ∃ value, byte = digit value := by
  simp only [isDigit, Bool.and_eq_true, decide_eq_true_eq, UInt8.le_iff_toNat_le] at read
  have least : 48 ≤ byte.toNat := read.1
  have greatest : byte.toNat ≤ 57 := read.2
  have spelled : ∀ value : Fin 10, (digit value).toNat = 48 + value := by decide
  refine ⟨⟨byte.toNat - 48, by omega⟩, UInt8.toNat_inj.mp ?_⟩
  rw [spelled]
  simp only
  omega

/-- Three digits as a decimal number. -/
def decimal (digits : Trio (Fin 10)) : Nat :=
  100 * digits.first + 10 * digits.second + digits.third

theorem decimal_lt (digits : Trio (Fin 10)) : decimal digits < 1000 := by
  unfold decimal
  omega

theorem number_trio (digits : Trio (Fin 10)) :
    number (digits.toList.map digit) = decimal digits := by
  simp only [Trio.toList, List.map, number, List.foldl, digitValue_digit, decimal]
  omega

/-- The three digits of a number. -/
def digitsOf (value : Fin 1000) : Trio (Fin 10) where
  first := ⟨value / 100, by omega⟩
  second := ⟨value / 10 % 10, by omega⟩
  third := ⟨value % 10, by omega⟩

theorem decimal_digitsOf (value : Fin 1000) : decimal (digitsOf value) = value := by
  simp only [decimal, digitsOf]
  omega

namespace Frame

def payload (frame : Frame) : List UInt8 :=
  (frame.target :: (frame.x.toList ++ frame.y.toList)).map digit

def bytes (frame : Frame) : List UInt8 := frameStart :: frame.payload ++ [frameEnd]

def of (target : Fin 10) (x y : Fin 1000) : Frame := ⟨target, digitsOf x, digitsOf y⟩

@[simp]
theorem length_payload (frame : Frame) : frame.payload.length = payloadLength := rfl

@[simp]
theorem length_bytes (frame : Frame) : frame.bytes.length = 9 := rfl

theorem isDigit_payload (frame : Frame) : ∀ byte ∈ frame.payload, isDigit byte = true := by
  simp only [payload, List.forall_mem_map, isDigit_digit, implies_true]

theorem exists_payload {digits : List UInt8} (full : digits.length = payloadLength)
    (all : ∀ digit ∈ digits, isDigit digit = true) : ∃ frame : Frame, digits = frame.payload := by
  match digits, full with
  | [target, x, x', x'', y, y', y''], _ =>
    simp only [List.forall_mem_cons] at all
    obtain ⟨first, second, third, fourth, fifth, sixth, seventh, -⟩ := all
    obtain ⟨target, rfl⟩ := exists_digit first
    obtain ⟨x, rfl⟩ := exists_digit second
    obtain ⟨x', rfl⟩ := exists_digit third
    obtain ⟨x'', rfl⟩ := exists_digit fourth
    obtain ⟨y, rfl⟩ := exists_digit fifth
    obtain ⟨y', rfl⟩ := exists_digit sixth
    obtain ⟨y'', rfl⟩ := exists_digit seventh
    exact ⟨⟨target, ⟨x, x', x''⟩, ⟨y, y', y''⟩⟩, rfl⟩

def detection (frame : Frame) : Detection := .ofDigits frame.payload

theorem targetId_detection (frame : Frame) : frame.detection.targetId.toNat = frame.target := by
  have digits : number (frame.payload.take 1) = frame.target := by
    simp [payload, number, digitValue_digit]
  rw [detection, Detection.ofDigits, digits]
  exact UInt8.toNat_ofNat_of_lt' (by simp only [UInt8.size]; omega)

theorem x_detection (frame : Frame) : frame.detection.x.toNat = decimal frame.x := by
  have digits : (frame.payload.drop 1).take 3 = frame.x.toList.map digit := rfl
  have bound := decimal_lt frame.x
  rw [detection, Detection.ofDigits, digits, number_trio]
  exact UInt16.toNat_ofNat_of_lt' (by simp only [UInt16.size]; omega)

theorem y_detection (frame : Frame) : frame.detection.y.toNat = decimal frame.y := by
  have digits : (frame.payload.drop 4).take 3 = frame.y.toList.map digit := rfl
  have bound := decimal_lt frame.y
  rw [detection, Detection.ofDigits, digits, number_trio]
  exact UInt16.toNat_ofNat_of_lt' (by simp only [UInt16.size]; omega)

end Frame

/-- A record tells the target and the pixel of a frame, and its number in the stream. -/
structure Frame.Told (frame : Frame) (number : Nat) (record : Record) : Prop where
  target : record.targetId.toNat = frame.target
  x : record.x.toNat = decimal frame.x
  y : record.y.toNat = decimal frame.y
  found : record.found = true
  sequence : record.sequence.toNat = number % 2 ^ 32

def Detection.record (detection : Detection) (number : Nat) : Record :=
  ⟨detection.targetId, detection.x, detection.y, true, number.toUInt32⟩

theorem Frame.told_record (frame : Frame) (number : Nat) :
    frame.Told number (frame.detection.record number) where
  target := frame.targetId_detection
  x := frame.x_detection
  y := frame.y_detection
  found := rfl
  sequence := UInt32.toNat_ofNat'

/-- Under its number a frame tells one record only. -/
theorem Frame.Told.eq {frame : Frame} {number : Nat} {record other : Record}
    (told : frame.Told number record) (again : frame.Told number other) : record = other := by
  obtain ⟨target, x, y, found, sequence⟩ := record
  have targets := UInt8.toNat_inj.mp (told.target.trans again.target.symm)
  have xs := UInt16.toNat_inj.mp (told.x.trans again.x.symm)
  have ys := UInt16.toNat_inj.mp (told.y.trans again.y.symm)
  have numbers := UInt32.toNat_inj.mp (told.sequence.trans again.sequence.symm)
  cases told.found.trans again.found.symm
  cases targets
  cases xs
  cases ys
  cases numbers
  rfl

theorem Frame.told_iff {frame : Frame} {number : Nat} {record : Record} :
    frame.Told number record ↔ frame.detection.record number = record :=
  ⟨fun told => (frame.told_record number).eq told, fun same => same ▸ frame.told_record number⟩

/-! ## The receiver -/

/-- The receiver that some bytes leave. -/
def after (bytes : List UInt8) : Receiver := (Stream.run Receiver.push .new bytes).2

theorem after_concat (bytes : List UInt8) (byte : UInt8) :
    after (bytes ++ [byte]) = ((after bytes).push byte).2 :=
  Stream.run_concat ..

theorem concat_suffix_concat {front back : List UInt8} {last byte : UInt8} :
    front ++ [last] <:+ back ++ [byte] ↔ front <:+ back ∧ last = byte := by
  rw [List.suffix_append_inj_of_length_eq (by rfl), List.singleton_inj]

/-- The bytes end with a frame that has begun, of which these digits have come. -/
structure Begun (bytes digits : List UInt8) : Prop where
  opened : frameStart :: digits <:+ bytes
  spelled : ∀ digit ∈ digits, isDigit digit = true
  room : digits.length ≤ payloadLength

theorem begun_frameStart {bytes digits : List UInt8} :
    Begun (bytes ++ [frameStart]) digits ↔ digits = [] := by
  constructor
  · intro begun
    rcases List.eq_nil_or_concat digits with rfl | ⟨earlier, last, rfl⟩
    · rfl
    · -- The last digit would be the letter.
      have read := begun.spelled last (by simp)
      have opened := begun.opened
      rw [List.concat_eq_append, ← List.cons_append, concat_suffix_concat] at opened
      cases opened.2
      exact absurd read (by decide)
  · rintro rfl
    exact ⟨List.suffix_append bytes [frameStart], by simp, by simp⟩

/-- A frame goes on with a digit as long as it is not full. -/
theorem begun_concat {bytes digits : List UInt8} {byte : UInt8} (inside : byte ≠ frameStart) :
    Begun (bytes ++ [byte]) digits ↔
      ∃ earlier, Begun bytes earlier ∧ earlier.length ≠ payloadLength ∧ isDigit byte = true ∧
        digits = earlier ++ [byte] := by
  constructor
  · rintro ⟨opened, all, room⟩
    rcases List.eq_nil_or_concat digits with rfl | ⟨earlier, last, rfl⟩
    · have same : [] ++ [frameStart] <:+ bytes ++ [byte] := opened
      rw [concat_suffix_concat] at same
      cases same.2
      exact absurd rfl inside
    · rw [List.concat_eq_append] at opened all room ⊢
      rw [← List.cons_append, concat_suffix_concat] at opened
      obtain ⟨front, back⟩ := List.forall_mem_append.mp all
      cases opened.2
      rw [List.length_append, List.length_singleton] at room
      exact ⟨earlier, ⟨opened.1, front, by omega⟩, by omega, back byte (by simp), rfl⟩
  · rintro ⟨earlier, ⟨opened, all, room⟩, short, read, rfl⟩
    refine ⟨?_, List.forall_mem_append.mpr ⟨all, by simpa using read⟩, ?_⟩
    · rw [← List.cons_append, concat_suffix_concat]
      exact ⟨opened, rfl⟩
    · rw [List.length_append, List.length_singleton]
      omega

/-- The receiver holds the digits of the frame that has begun, if one has. -/
theorem held_iff {bytes digits : List UInt8} :
    (after bytes).digits = some digits ↔ Begun bytes digits := by
  induction bytes using List.reverseRecOn generalizing digits with
  | nil =>
    refine iff_of_false (by simp [after, Stream.run, Stream.runFrom, Receiver.new]) fun begun => ?_
    simpa using begun.opened
  | append_singleton bytes byte ih =>
    rw [after_concat, Receiver.push]
    by_cases start : byte = frameStart
    · subst start
      rw [if_pos rfl, begun_frameStart]
      simp [eq_comm]
    · rw [if_neg start, begun_concat start]
      cases held : (after bytes).digits with
      | none => simp [← ih, held]
      | some earlier =>
        simp only [← ih, held, Option.some.injEq, exists_eq_left']
        split
        next full => simp [full]
        next short =>
          cases isDigit byte <;> simp [short, eq_comm]

/-- A byte completes a detection exactly if it is the last one of a frame. -/
theorem push_after_iff {bytes : List UInt8} {byte : UInt8} {detection : Detection} :
    ((after bytes).push byte).1 = some detection ↔
      ∃ frame : Frame, frame.bytes <:+ bytes ++ [byte] ∧ frame.detection = detection := by
  constructor
  · intro completed
    rw [Receiver.push] at completed
    split at completed
    · cases completed
    · split at completed
      · cases completed
      next digits held =>
        split at completed
        next full =>
          split at completed
          next last =>
            cases completed
            obtain ⟨opened, all, _⟩ := held_iff.mp held
            obtain ⟨frame, rfl⟩ := Frame.exists_payload full all
            refine ⟨frame, ?_, rfl⟩
            rw [Frame.bytes, concat_suffix_concat, last]
            exact ⟨opened, rfl⟩
          next => cases completed
        next =>
          split at completed <;> cases completed
  · rintro ⟨frame, there, rfl⟩
    rw [Frame.bytes, concat_suffix_concat] at there
    obtain ⟨opened, last⟩ := there
    have held : (after bytes).digits = some frame.payload :=
      held_iff.mpr ⟨opened, frame.isDigit_payload, Nat.le_refl _⟩
    cases last
    rw [Receiver.push, if_neg (by decide)]
    simp [held, Frame.detection]

/-! ## The records -/

/-- The nine bytes up to an index are a frame. -/
def EndsAt (stream : List UInt8) (index : Nat) (frame : Frame) : Prop :=
  8 ≤ index ∧ (stream.drop (index - 8)).take 9 = frame.bytes

/-- A frame ends at a byte when its own bytes are the last of those up to it. -/
theorem endsAt_iff {stream : List UInt8} {index : Nat} {frame : Frame} :
    EndsAt stream index frame ↔
      ∃ byte, stream[index]? = some byte ∧ frame.bytes <:+ stream.take index ++ [byte] := by
  constructor
  · rintro ⟨late, window⟩
    have within : index < stream.length := by
      have length := congrArg List.length window
      simp at length
      omega
    refine ⟨stream[index], List.getElem?_eq_getElem within, ?_⟩
    have place : index + 1 = index - 8 + 9 := by omega
    rw [List.take_concat_get', place, List.take_add, window]
    exact List.suffix_append ..
  · rintro ⟨byte, found, suffix⟩
    obtain ⟨within, rfl⟩ := List.getElem?_eq_some_iff.mp found
    rw [List.take_concat_get', List.suffix_iff_eq_drop, List.length_take] at suffix
    have length := congrArg List.length suffix
    simp at length
    have place : min (index + 1) stream.length - frame.bytes.length = index - 8 := by
      rw [Frame.length_bytes]
      omega
    refine ⟨by omega, ?_⟩
    rw [suffix, place, List.drop_take]
    congr 1
    omega

/-- Whether bytes are a frame: `a`, seven digits and `c`. -/
def isFrame (bytes : List UInt8) : Bool :=
  bytes.length = 9 && bytes.head? = some frameStart && (bytes.drop 1).dropLast.all isDigit
    && bytes.getLast? = some frameEnd

/-- The check of the receiver accepts exactly the bytes of the frames. -/
theorem isFrame_iff {bytes : List UInt8} :
    isFrame bytes = true ↔ ∃ frame : Frame, bytes = frame.bytes := by
  constructor
  · intro framed
    simp only [isFrame, Bool.and_eq_true, decide_eq_true_eq, List.all_eq_true] at framed
    obtain ⟨⟨⟨length, first⟩, digits⟩, last⟩ := framed
    obtain ⟨inside, rfl⟩ := List.getLast?_eq_some_iff.mp last
    cases inside with
    | nil => cases length
    | cons start inside =>
      rw [List.cons_append, List.head?_cons, Option.some.injEq] at first
      rw [List.cons_append, List.drop_one, List.tail_cons, List.dropLast_concat] at digits
      simp only [List.cons_append, List.length_cons, List.length_append, List.length_nil] at length
      have full : inside.length = payloadLength := by
        rw [payloadLength]
        omega
      obtain ⟨frame, rfl⟩ := Frame.exists_payload full digits
      exact ⟨frame, by rw [first, Frame.bytes]⟩
  · rintro ⟨frame, rfl⟩
    have first : frame.bytes.head? = some frameStart := rfl
    have inside : (frame.bytes.drop 1).dropLast = frame.payload := List.dropLast_concat
    have digits : frame.payload.all isDigit = true :=
      List.all_eq_true.mpr frame.isDigit_payload
    have last : frame.bytes.getLast? = some frameEnd := List.getLast?_concat
    rw [isFrame, Frame.length_bytes, first, inside, digits, last]
    decide

/-- A frame ends at an index. -/
def Closes (stream : List UInt8) (index : Nat) : Prop :=
  8 ≤ index ∧ isFrame ((stream.drop (index - 8)).take 9) = true

instance (stream : List UInt8) : DecidablePred (Closes stream) := fun _ =>
  inferInstanceAs (Decidable (_ ∧ _))

theorem closes_iff {stream : List UInt8} {index : Nat} :
    Closes stream index ↔ ∃ frame, EndsAt stream index frame := by
  simp only [Closes, EndsAt, isFrame_iff, exists_and_left]

theorem closes_take {stream : List UInt8} {index length : Nat} (within : index < length) :
    Closes (stream.take length) index ↔ Closes stream index := by
  have window (late : 8 ≤ index) : ((stream.take length).drop (index - 8)).take 9 =
      (stream.drop (index - 8)).take 9 := by
    rw [List.drop_take, List.take_take]
    congr 1
    omega
  exact and_congr_right fun late => by rw [window late]

def framesBefore (stream : List UInt8) (index : Nat) : Nat := Nat.count (Closes stream) index

theorem framesBefore_take (stream : List UInt8) (index : Nat) :
    framesBefore (stream.take index) index = framesBefore stream index := by
  refine List.countP_congr fun place member => ?_
  simpa using closes_take (List.mem_range.mp member)

theorem framesBefore_succ (stream : List UInt8) (index : Nat) :
    framesBefore stream (index + 1) =
      framesBefore stream index + if Closes stream index then 1 else 0 :=
  Nat.count_succ ..

theorem closes_of_push {bytes : List UInt8} {byte : UInt8} {detection : Detection}
    (completed : ((after bytes).push byte).1 = some detection) :
    Closes (bytes ++ [byte]) bytes.length := by
  obtain ⟨frame, there, _⟩ := push_after_iff.mp completed
  exact closes_iff.mpr ⟨frame, endsAt_iff.mpr ⟨byte, by simp, by simpa using there⟩⟩

theorem not_closes_of_push {bytes : List UInt8} {byte : UInt8}
    (silent : ((after bytes).push byte).1 = none) : ¬Closes (bytes ++ [byte]) bytes.length := by
  intro closes
  obtain ⟨frame, ends⟩ := closes_iff.mp closes
  obtain ⟨last, found, there⟩ := endsAt_iff.mp ends
  obtain rfl : byte = last := by simpa using found
  have completed := push_after_iff.mpr ⟨frame, by simpa using there, rfl⟩
  rw [silent] at completed
  cases completed

/-- One more byte adds a frame when the decoder closes one at it. -/
theorem framesBefore_concat (bytes : List UInt8) (byte : UInt8) :
    framesBefore (bytes ++ [byte]) (bytes.length + 1) = framesBefore bytes bytes.length
      + if ((after bytes).push byte).1.isSome then 1 else 0 := by
  have before := framesBefore_take (bytes ++ [byte]) bytes.length
  rw [List.take_left] at before
  rw [framesBefore_succ, ← before]
  cases completed : ((after bytes).push byte).1 with
  | none => simp [not_closes_of_push completed]
  | some detection => simp [closes_of_push completed]

end Mecanum.Camera

namespace Mecanum.Shared.Sightings

open Camera

/-- What a byte does to a recorder and its board. -/
theorem push_eq (sightings : Sightings) (byte : UInt8) :
    sightings.push byte =
      match sightings.recorder.receiver.push byte with
      | (none, receiver) => (none, ⟨⟨receiver, sightings.recorder.sequence⟩, sightings.board⟩)
      | (some ⟨target, x, y⟩, receiver) =>
        let record := ⟨target, x, y, true, sightings.recorder.sequence + 1⟩
        (some record, ⟨⟨receiver, record.sequence⟩, sightings.board.publish record⟩) := by
  rw [push, Recorder.push]
  rcases sightings.recorder.receiver.push byte with ⟨_ | detection, receiver⟩ <;> rfl

theorem latest_of_push {sightings : Sightings} {byte : UInt8} {record : Record}
    (completed : (sightings.push byte).1 = some record) :
    (sightings.push byte).2.board.latest = some record := by
  rw [push_eq] at completed ⊢
  split at completed
  · cases completed
  · exact completed

/-- A recorder, new to a board, that has taken some bytes in. -/
def fed (board : Board) (bytes : List UInt8) : Sightings :=
  (Stream.run push ⟨.new, board⟩ bytes).2

/-- The recorder has counted the frames up to here, as a word. -/
theorem fed_recorder (board : Board) (bytes : List UInt8) :
    (fed board bytes).recorder = ⟨after bytes, (framesBefore bytes bytes.length).toUInt32⟩ := by
  induction bytes using List.reverseRecOn with
  | nil => rfl
  | append_singleton bytes byte ih =>
    rw [fed, Stream.run_concat, ← fed, push_eq, ih, after_concat, List.length_append,
      List.length_singleton, framesBefore_concat]
    rcases (after bytes).push byte with ⟨_ | detection, next⟩
    · rfl
    · simp

theorem push_fed (board : Board) (bytes : List UInt8) (byte : UInt8) :
    ((fed board bytes).push byte).1 = ((after bytes).push byte).1.map
      (·.record (framesBefore bytes bytes.length + 1)) := by
  rw [push_eq, fed_recorder]
  rcases (after bytes).push byte with ⟨_ | detection, next⟩
  · rfl
  · simp [Detection.record]

/-- A record is completed exactly by the last byte of a frame, which it tells. -/
theorem push_fed_iff {board : Board} {bytes : List UInt8} {byte : UInt8} {record : Record} :
    ((fed board bytes).push byte).1 = some record ↔
      ∃ frame : Frame, frame.bytes <:+ bytes ++ [byte] ∧
        frame.Told (framesBefore bytes bytes.length + 1) record := by
  simp only [push_fed, Option.map_eq_some_iff, push_after_iff, Frame.told_iff]
  constructor
  · rintro ⟨_, ⟨frame, there, rfl⟩, same⟩
    exact ⟨frame, there, same⟩
  · rintro ⟨frame, there, same⟩
    exact ⟨frame.detection, ⟨frame, there, rfl⟩, same⟩

/-- The record of the frame that ends at an index has the number of that frame. -/
theorem framesBefore_of_endsAt {stream : List UInt8} {index : Nat} {frame : Frame}
    (ends : EndsAt stream index frame) : framesBefore stream (index + 1) =
      framesBefore (stream.take index) (stream.take index).length + 1 := by
  obtain ⟨byte, found, _⟩ := endsAt_iff.mp ends
  have within : index < stream.length := (List.getElem?_eq_some_iff.mp found).1
  have length : (stream.take index).length = index := List.length_take_of_le (by omega)
  rw [length, framesBefore_take, framesBefore_succ, if_pos (closes_iff.mpr ⟨frame, ends⟩)]

/-- The records come out at the ends of frames, each with what its frame tells. -/
theorem mem_run_iff {board : Board} {stream : List UInt8} {index : Nat} {record : Record} :
    (index, record) ∈ (Stream.run push ⟨.new, board⟩ stream).1 ↔
      ∃ frame, EndsAt stream index frame ∧
        frame.Told (framesBefore stream (index + 1)) record := by
  rw [Stream.mem_run]
  constructor
  · rintro ⟨byte, found, completed⟩
    obtain ⟨frame, there, told⟩ := push_fed_iff.mp completed
    have ends := endsAt_iff.mpr ⟨byte, found, there⟩
    exact ⟨frame, ends, framesBefore_of_endsAt ends ▸ told⟩
  · rintro ⟨frame, ends, told⟩
    obtain ⟨byte, found, there⟩ := endsAt_iff.mp ends
    rw [framesBefore_of_endsAt ends] at told
    exact ⟨byte, found, push_fed_iff.mpr ⟨frame, there, told⟩⟩

/-- A completed record is the latest on the board. -/
theorem latest_of_mem_run {board : Board} {stream : List UInt8} {index : Nat} {record : Record}
    (completed : (index, record) ∈ (Stream.run push ⟨.new, board⟩ stream).1) :
    (fed board (stream.take (index + 1))).board.latest = some record := by
  obtain ⟨byte, found, told⟩ := (Stream.mem_run push).mp completed
  obtain ⟨within, rfl⟩ := List.getElem?_eq_some_iff.mp found
  rw [fed, ← List.take_concat_get' stream index within, Stream.run_concat]
  exact latest_of_push told

/-- A frame behind any bytes ends with its last character. -/
theorem endsAt_append (stream : List UInt8) (frame : Frame) :
    EndsAt (stream ++ frame.bytes) (stream.length + 8) frame := by
  refine ⟨Nat.le_add_left .., ?_⟩
  rw [Nat.add_sub_cancel, List.drop_left]
  exact List.take_of_length_le (Nat.le_refl 9)

/-- A byte of a stream completes a record exactly if it ends nine bytes that are `a`, seven digits
and `c`. The record has the target and the pixel that the digits spell and the number of the frame
in the stream, and it is then the latest on the board. So every target and pixel is received as it
is sent, whatever comes before. -/
theorem records_frames (board : Board) (stream : List UInt8) :
    (∀ index record, (index, record) ∈ (Stream.run push ⟨.new, board⟩ stream).1 ↔
        ∃ frame, EndsAt stream index frame ∧
          frame.Told (framesBefore stream (index + 1)) record) ∧
      (∀ index record, (index, record) ∈ (Stream.run push ⟨.new, board⟩ stream).1 →
        (fed board (stream.take (index + 1))).board.latest = some record) ∧
      ∀ (target : Fin 10) (x y : Fin 1000), ∃ record,
        (stream.length + 8, record) ∈
            (Stream.run push ⟨.new, board⟩ (stream ++ (Frame.of target x y).bytes)).1 ∧
          record.targetId.toNat = target ∧ record.x.toNat = x ∧ record.y.toNat = y := by
  refine ⟨fun _ _ => mem_run_iff, fun _ _ => latest_of_mem_run, fun target x y => ?_⟩
  have ends := endsAt_append stream (.of target x y)
  have told := (Frame.of target x y).told_record
    (framesBefore (stream ++ (Frame.of target x y).bytes) (stream.length + 8 + 1))
  refine ⟨_, mem_run_iff.mpr ⟨_, ends, told⟩, told.target, ?_, ?_⟩
  · rw [told.x, Frame.of, decimal_digitsOf]
  · rw [told.y, Frame.of, decimal_digitsOf]

/-- `a1a4158143c5a0001002c`: the first frame breaks off, and the others follow it. -/
def brokenOff : List UInt8 :=
  [97, 49, 97, 52, 49, 53, 56, 49, 52, 51, 99, 53, 97, 48, 48, 48, 49, 48, 48, 50, 99]

/-- Behind a frame broken off, the second whole frame has its number and is the latest. -/
theorem records_frames_brokenOff :
    (20, ⟨0, 1, 2, true, 2⟩) ∈ (Stream.run push ⟨.new, .empty⟩ brokenOff).1 ∧
      EndsAt brokenOff 20 ⟨0, ⟨0, 0, 1⟩, ⟨0, 0, 2⟩⟩ ∧
      (fed .empty (brokenOff.take 21)).board.latest = some ⟨0, 1, 2, true, 2⟩ := by
  obtain ⟨completes, latest, _⟩ := records_frames .empty brokenOff
  have ends : EndsAt brokenOff 20 ⟨0, ⟨0, 0, 1⟩, ⟨0, 0, 2⟩⟩ := ⟨by decide, by decide⟩
  have completed := (completes 20 ⟨0, 1, 2, true, 2⟩).mpr
    ⟨_, ends, rfl, rfl, rfl, rfl, by decide⟩
  exact ⟨completed, ends, latest 20 _ completed⟩

end Mecanum.Shared.Sightings
