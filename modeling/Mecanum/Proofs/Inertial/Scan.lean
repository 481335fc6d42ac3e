import Mecanum.Inertial.Packet
import Mecanum.Stream
import Mathlib.Data.List.TakeWhile

/-!
# The packets of a recorded stream

With a whole stream at hand, its packets are found from front to back: `scan` goes to the next
header, reads eleven bytes there, and goes on behind them if their sum is right, and behind the
header alone if it is not. The receiver sees one byte at a time and finds the same packets, each on
its last byte (`runFrom_eq_scan`).

The scan is also the easier way to see what garbage can do. It stands on every header that no packet
with a right sum covers (`mem_scan_of_clear`), however many false headers come before.
-/
namespace Mecanum.Inertial

/-- Eleven bytes by their places in a packet. -/
structure Packet where
  header : UInt8
  type : UInt8
  xLow : UInt8
  xHigh : UInt8
  yLow : UInt8
  yHigh : UInt8
  zLow : UInt8
  zHigh : UInt8
  temperatureLow : UInt8
  temperatureHigh : UInt8
  sum : UInt8
deriving DecidableEq

namespace Packet

def bytes (packet : Packet) : List UInt8 :=
  [packet.header, packet.type, packet.xLow, packet.xHigh, packet.yLow, packet.yHigh, packet.zLow,
    packet.zHigh, packet.temperatureLow, packet.temperatureHigh, packet.sum]

def ofBytes? : List UInt8 → Option Packet
  | [header, type, xLow, xHigh, yLow, yHigh, zLow, zHigh, temperatureLow, temperatureHigh, sum] =>
    some ⟨header, type, xLow, xHigh, yLow, yHigh, zLow, zHigh, temperatureLow, temperatureHigh, sum⟩
  | _ => none

/-- The last byte is the sum of the ten before, without carry. -/
def Intact (packet : Packet) : Prop :=
  packet.header + packet.type + packet.xLow + packet.xHigh + packet.yLow + packet.yHigh
    + packet.zLow + packet.zHigh + packet.temperatureLow + packet.temperatureHigh = packet.sum

instance (packet : Packet) : Decidable packet.Intact :=
  inferInstanceAs (Decidable (_ = _))

/-- Two bytes as a number in two's complement, low byte first. -/
def signed (low high : UInt8) : Int :=
  if high < 128 then low.toNat + 256 * high.toNat else low.toNat + 256 * high.toNat - 65536

def axes (packet : Packet) (range : Float32) : Axes where
  x := Binary32.ofInt (signed packet.xLow packet.xHigh) / 32768 * range
  y := Binary32.ofInt (signed packet.yLow packet.yHigh) / 32768 * range
  z := Binary32.ofInt (signed packet.zLow packet.zHigh) / 32768 * range

/-- The content of a packet of a known type. -/
def frame? (packet : Packet) : Option Frame :=
  match packet.type with
  | 0x51 => some (.acceleration (packet.axes 16))
  | 0x52 => some (.rate (packet.axes 2000))
  | 0x53 => some (.angle (packet.axes 180))
  | _ => none

/-- A packet is read from its own bytes only. -/
theorem ofBytes?_eq_some {bytes : List UInt8} {packet : Packet} :
    ofBytes? bytes = some packet ↔ bytes = packet.bytes := by
  constructor
  · intro read
    unfold ofBytes? at read
    split at read
    · cases read
      rfl
    · cases read
  · rintro rfl
    rfl

theorem exists_of_length {bytes : List UInt8} (length : bytes.length = packetLength) :
    ∃ packet : Packet, bytes = packet.bytes := by
  match bytes, length with
  | [_, _, _, _, _, _, _, _, _, _, _], _ => exact ⟨⟨_, _, _, _, _, _, _, _, _, _, _⟩, rfl⟩

@[simp]
theorem length_bytes (packet : Packet) : packet.bytes.length = packetLength := rfl

end Packet

/-! ## What the receiver reads -/

theorem sumHolds_bytes (packet : Packet) : sumHolds packet.bytes = decide packet.Intact := by
  rw [sumHolds, decide_eq_decide]
  simp [checksum, Packet.bytes, Packet.Intact]

theorem word_eq_signed (low high : UInt8) : word low high = Packet.signed low high := by
  have lowByte := low.toNat_lt
  have highByte := high.toNat_lt
  have half : high < 128 ↔ high.toNat < 128 := by simp [UInt8.lt_iff_toNat_lt]
  unfold word Packet.signed
  by_cases positive : high.toNat < 128
  · rw [if_pos (half.mpr positive), Int.bmod_def]
    split <;> omega
  · rw [if_neg (mt half.mp positive), Int.bmod_def]
    split <;> omega

theorem axes_bytes (packet : Packet) (range : Float32) :
    axes packet.bytes range = packet.axes range := by
  simp only [axes, scaled, word_eq_signed]
  rfl

theorem ofPacket?_bytes (packet : Packet) : Frame.ofPacket? packet.bytes = packet.frame? := by
  have type : packet.bytes.getD 1 0 = packet.type := rfl
  simp only [Frame.ofPacket?, axes_bytes, type]
  fun_cases Packet.frame? packet <;> simp_all

namespace Receiver

/--
What a push can do with the bytes held and the new one. Bytes before the first header are dropped,
and of the others a packet is read only once there are eleven.
-/
inductive Pushed (held : List UInt8) (byte : UInt8) : Option Frame × Receiver → Prop where
  | waiting {dropped bytes : List UInt8} (cut : held ++ [byte] = dropped ++ bytes)
      (headless : header ∉ dropped) (short : bytes.length < packetLength) :
      Pushed held byte (none, ⟨bytes⟩)
  | complete {dropped : List UInt8} {packet : Packet} (cut : held ++ [byte] = dropped ++ packet.bytes)
      (headless : header ∉ dropped) (headed : packet.header = header) (intact : packet.Intact) :
      Pushed held byte (packet.frame?, new)
  | broken {dropped lost bytes : List UInt8} {packet : Packet}
      (cut : held ++ [byte] = dropped ++ packet.bytes) (headless : header ∉ dropped)
      (headed : packet.header = header) (broken : ¬ packet.Intact)
      (resync : packet.bytes = packet.header :: (lost ++ bytes)) (hidden : header ∉ lost) :
      Pushed held byte (none, ⟨bytes⟩)

theorem exists_fromHeader (bytes : List UInt8) :
    ∃ dropped, bytes = dropped ++ fromHeader bytes ∧ header ∉ dropped := by
  refine ⟨bytes.takeWhile (· ≠ header), List.takeWhile_append_dropWhile.symm, fun inside => ?_⟩
  simpa using List.mem_takeWhile_imp inside

theorem head_fromHeader {bytes rest : List UInt8} {first : UInt8}
    (starts : fromHeader bytes = first :: rest) : first = header := by
  have stopped := List.head?_dropWhile_not (· ≠ header) bytes
  rw [← fromHeader, starts] at stopped
  simpa using stopped

/-- A byte is kept, dropped with the bytes in front of it, or closes a packet. -/
theorem pushed {held : List UInt8} (room : held.length < packetLength) (byte : UInt8) :
    Pushed held byte (push ⟨held⟩ byte) := by
  obtain ⟨dropped, cut, headless⟩ := exists_fromHeader (held ++ [byte])
  simp only [push]
  split
  next short => exact .waiting cut headless short
  next full =>
    have length : (fromHeader (held ++ [byte])).length = packetLength := by
      have total := congrArg List.length cut
      simp only [List.length_append, List.length_singleton] at total
      omega
    obtain ⟨packet, read⟩ := Packet.exists_of_length length
    have headed : packet.header = header := head_fromHeader read
    rw [read] at cut ⊢
    rw [sumHolds_bytes, ofPacket?_bytes]
    split
    next intact => exact .complete cut headless headed (of_decide_eq_true intact)
    next broken =>
      obtain ⟨lost, resync, hidden⟩ := exists_fromHeader packet.bytes.tail
      exact .broken cut headless headed (by simpa using broken) (congrArg _ resync) hidden

theorem room_new : new.held.length < packetLength := Nat.zero_lt_succ _

theorem Pushed.room {held : List UInt8} {byte : UInt8} {pushed : Option Frame × Receiver}
    (moved : Pushed held byte pushed) : pushed.2.held.length < packetLength := by
  cases moved with
  | waiting cut headless short => exact short
  | complete => exact Nat.zero_lt_succ _
  | @broken dropped lost bytes packet cut headless headed broken resync hidden =>
    have length := congrArg List.length resync
    simp only [Packet.length_bytes, List.length_cons, List.length_append] at length
    show bytes.length < packetLength
    omega

end Receiver

/-! ## The scan -/

/-- The packet that the eleven bytes of a stream from a position on are. -/
def packetAt? (stream : List UInt8) (start : Nat) : Option Packet :=
  Packet.ofBytes? ((stream.drop start).take packetLength)

/-- The position of the next header, or the end of the stream if none comes. -/
def nextHeader (stream : List UInt8) (start : Nat) : Nat :=
  start + (stream.drop start).idxOf header

/-- A packet is found where its bytes stand in the stream. -/
theorem packetAt?_eq_some {stream : List UInt8} {start : Nat} {packet : Packet} :
    packetAt? stream start = some packet ↔ ∃ rest, stream.drop start = packet.bytes ++ rest := by
  rw [packetAt?, Packet.ofBytes?_eq_some]
  constructor
  · intro read
    exact ⟨(stream.drop start).drop packetLength, by rw [← read, List.take_append_drop]⟩
  · rintro ⟨rest, there⟩
    rw [there, ← packet.length_bytes, List.take_left]

theorem length_of_packetAt? {stream : List UInt8} {start : Nat} {packet : Packet}
    (found : packetAt? stream start = some packet) : start + packetLength ≤ stream.length := by
  obtain ⟨rest, there⟩ := packetAt?_eq_some.mp found
  have length := congrArg List.length there
  simp only [List.length_drop, List.length_append, Packet.length_bytes] at length
  simp only [packetLength] at length ⊢
  omega

theorem le_nextHeader (stream : List UInt8) (start : Nat) : start ≤ nextHeader stream start :=
  Nat.le_add_right ..

/--
The frames of a stream from a position on, each with the index of its last byte: go to the next
header; if eleven bytes are left and their sum is right, tell the frame if the type is known and go
on behind the packet; if the sum is wrong, go on behind the header.
-/
def scan (stream : List UInt8) (start : Nat) : List (Nat × Frame) :=
  match found : packetAt? stream (nextHeader stream start) with
  | none => []
  | some packet =>
    if packet.Intact then
      (packet.frame?.map (nextHeader stream start + 10, ·)).toList
        ++ scan stream (nextHeader stream start + packetLength)
    else scan stream (nextHeader stream start + 1)
termination_by stream.length - start
decreasing_by
  all_goals
    have ends := length_of_packetAt? found
    have later := le_nextHeader stream start
    simp only [packetLength] at ends ⊢
    omega

theorem scan_of_none {stream : List UInt8} {start : Nat}
    (none : packetAt? stream (nextHeader stream start) = none) : scan stream start = [] := by
  rw [scan]
  split
  · rfl
  next found => rw [none] at found; cases found

/-- Behind an intact packet the scan goes on after the packet. -/
theorem scan_of_intact {stream : List UInt8} {start : Nat} {packet : Packet}
    (found : packetAt? stream (nextHeader stream start) = some packet) (intact : packet.Intact) :
    scan stream start = (packet.frame?.map (nextHeader stream start + 10, ·)).toList
      ++ scan stream (nextHeader stream start + packetLength) := by
  rw [scan]
  split
  next none => rw [found] at none; cases none
  next same =>
    rw [found] at same
    cases same
    rw [if_pos intact]

/-- Behind a broken packet the scan goes on after its header. -/
theorem scan_of_broken {stream : List UInt8} {start : Nat} {packet : Packet}
    (found : packetAt? stream (nextHeader stream start) = some packet) (broken : ¬ packet.Intact) :
    scan stream start = scan stream (nextHeader stream start + 1) := by
  rw [scan]
  split
  next none => rw [found] at none; cases none
  next same =>
    rw [found] at same
    cases same
    rw [if_neg broken]

/-- The scan depends on the start only through the next header. -/
theorem scan_congr {stream : List UInt8} {start later : Nat}
    (same : nextHeader stream start = nextHeader stream later) :
    scan stream start = scan stream later := by
  have found : packetAt? stream (nextHeader stream later) =
      packetAt? stream (nextHeader stream start) := by rw [same]
  cases here : packetAt? stream (nextHeader stream start) with
  | none => rw [scan_of_none here, scan_of_none (found.trans here)]
  | some packet =>
    by_cases intact : packet.Intact
    · rw [scan_of_intact here intact, scan_of_intact (found.trans here) intact, same]
    · rw [scan_of_broken here intact, scan_of_broken (found.trans here) intact, same]

theorem nextHeader_append {stream dropped rest : List UInt8} {start : Nat}
    (there : stream.drop start = dropped ++ rest) (headless : header ∉ dropped) :
    nextHeader stream start = nextHeader stream (start + dropped.length) := by
  have behind : stream.drop (start + dropped.length) = rest := by
    rw [← List.drop_drop, there, List.drop_left]
  rw [nextHeader, nextHeader, there, behind, List.idxOf_append, if_neg headless,
    Nat.add_assoc, Nat.add_comm (List.idxOf ..)]

theorem nextHeader_of_header {stream rest : List UInt8} {start : Nat}
    (there : stream.drop start = header :: rest) : nextHeader stream start = start := by
  rw [nextHeader, there, List.idxOf_cons_self, Nat.add_zero]

theorem packetAt?_nextHeader {stream rest : List UInt8} {start : Nat} {packet : Packet}
    (there : stream.drop start = packet.bytes ++ rest) (headed : packet.header = header) :
    nextHeader stream start = start ∧ packetAt? stream (nextHeader stream start) = some packet := by
  have first : stream.drop start = header :: (packet.bytes.tail ++ rest) := by
    rw [there, ← headed]
    rfl
  have stays := nextHeader_of_header first
  exact ⟨stays, stays.symm ▸ packetAt?_eq_some.mpr ⟨rest, there⟩⟩

/-- In fewer bytes than a packet has, the scan finds nothing. -/
theorem scan_of_short {stream : List UInt8} {start : Nat}
    (short : stream.length < start + packetLength) : scan stream start = [] := by
  apply scan_of_none
  cases found : packetAt? stream (nextHeader stream start) with
  | none => rfl
  | some packet =>
    have ends := length_of_packetAt? found
    have later := le_nextHeader stream start
    omega

/-! ## The receiver finds what the scan finds -/

theorem scan_append {stream dropped bytes rest : List UInt8} {start : Nat}
    (there : stream.drop start = dropped ++ bytes ++ rest) (headless : header ∉ dropped) :
    stream.drop (start + dropped.length) = bytes ++ rest ∧
      scan stream start = scan stream (start + dropped.length) := by
  rw [List.append_assoc] at there
  exact ⟨by rw [← List.drop_drop, there, List.drop_left],
    scan_congr (nextHeader_append there headless)⟩

/--
Running over the rest of a stream, a receiver that holds the bytes before it from a position on
finds the packets of the stream from that position on.
-/
theorem runFrom_eq_scan {stream held rest : List UInt8} {start : Nat}
    (room : held.length < packetLength) (there : stream.drop start = held ++ rest) :
    (Stream.runFrom Receiver.push (start + held.length) ⟨held⟩ rest).1 = scan stream start := by
  induction rest generalizing held start with
  | nil =>
    have length := congrArg List.length there
    simp only [List.length_drop, List.append_nil] at length
    exact (scan_of_short (by omega)).symm
  | cons byte rest step =>
    have there : stream.drop start = held ++ [byte] ++ rest := by
      rw [there, List.append_assoc, List.singleton_append]
    have moved := Receiver.pushed room byte
    have roomy := moved.room
    rw [Stream.runFrom_cons]
    generalize Receiver.push ⟨held⟩ byte = pushed at moved roomy ⊢
    -- What the receiver drops the scan passes over, so both go on at the same byte.
    cases moved with
    | @waiting dropped bytes cut headless short =>
      obtain ⟨behind, passed⟩ := scan_append (cut ▸ there) headless
      have index : start + held.length + 1 = start + dropped.length + bytes.length := by
        have length := congrArg List.length cut
        simp only [List.length_append, List.length_singleton] at length
        omega
      rw [passed, ← step roomy behind, index]
      rfl
    | @complete dropped packet cut headless headed intact =>
      obtain ⟨behind, passed⟩ := scan_append (cut ▸ there) headless
      obtain ⟨stays, found⟩ := packetAt?_nextHeader behind headed
      have next : stream.drop (start + dropped.length + packetLength) = rest := by
        rw [← List.drop_drop, behind, ← packet.length_bytes, List.drop_left]
      have index : start + held.length = start + dropped.length + 10 := by
        have length := congrArg List.length cut
        simp only [List.length_append, List.length_singleton, Packet.length_bytes,
          packetLength] at length
        omega
      rw [passed, scan_of_intact found intact, stays, ← @step [] _ roomy next, index]
      rfl
    | @broken dropped lost bytes packet cut headless headed broken resync hidden =>
      obtain ⟨behind, passed⟩ := scan_append (cut ▸ there) headless
      obtain ⟨stays, found⟩ := packetAt?_nextHeader behind headed
      have tail : stream.drop (start + dropped.length + 1) = lost ++ bytes ++ rest := by
        rw [← List.drop_drop, behind, resync]
        rfl
      obtain ⟨behind, hidden⟩ := scan_append tail hidden
      have index : start + held.length + 1 =
          start + dropped.length + 1 + lost.length + bytes.length := by
        have length := congrArg List.length (cut.trans (congrArg (dropped ++ ·) resync))
        simp only [List.length_append, List.length_cons, List.length_nil] at length
        omega
      rw [passed, scan_of_broken found broken, stays, hidden, ← step roomy behind, index]
      rfl

theorem run_new (stream : List UInt8) :
    (Stream.run Receiver.push .new stream).1 = scan stream 0 :=
  runFrom_eq_scan Receiver.room_new rfl

theorem room_runFrom {held : List UInt8} (room : held.length < packetLength) (index : Nat)
    (stream : List UInt8) :
    (Stream.runFrom Receiver.push index ⟨held⟩ stream).2.held.length < packetLength := by
  induction stream generalizing held index with
  | nil => exact room
  | cons byte rest step =>
    apply step
    exact (Receiver.pushed room byte).room

/--
Over any stream the receiver completes the packets that the scan finds, each on its last byte. At
every push there is room for the byte, and a packet is read from eleven bytes.
-/
theorem run_eq_scan (stream : List UInt8) :
    (Stream.run Receiver.push .new stream).1 = scan stream 0 ∧
      ∀ taken byte,
        (Stream.run Receiver.push .new taken).2.held.length < packetLength ∧
        Receiver.Pushed (Stream.run Receiver.push .new taken).2.held byte
          ((Stream.run Receiver.push .new taken).2.push byte) := by
  refine ⟨run_new stream, fun taken byte => ?_⟩
  have room := room_runFrom Receiver.room_new 0 taken
  exact ⟨room, Receiver.pushed room byte⟩

/-! ## Genuine packets -/

/-- A frame is told on the eleventh byte behind the position it is looked for from, or later. -/
theorem le_of_mem_scan {stream : List UInt8} {start index : Nat} {frame : Frame}
    (told : (index, frame) ∈ scan stream start) : start + 10 ≤ index := by
  fun_induction scan stream start with
  | case1 => cases told
  | case2 start packet found intact step =>
    have later := le_nextHeader stream start
    rcases List.mem_append.mp told with here | further
    · simp only [Option.mem_toList, Option.map_eq_some_iff, Prod.mk.injEq] at here
      obtain ⟨_, _, rfl, _⟩ := here
      omega
    · have := step further
      omega
  | case3 start packet found broken step =>
    have later := le_nextHeader stream start
    have := step told
    omega

/-- At the position stands a header, and the eleven bytes from it on have the right sum. -/
def IntactAt (stream : List UInt8) (start : Nat) : Prop :=
  ∃ packet, packetAt? stream start = some packet ∧ packet.header = header ∧ packet.Intact

instance (stream : List UInt8) (start : Nat) : Decidable (IntactAt stream start) :=
  decidable_of_iff (((packetAt? stream start).any fun packet =>
    packet.header = header ∧ packet.Intact) = true) (by simp [IntactAt, Option.any_eq_true])

theorem exists_packetAt? {stream : List UInt8} {start : Nat}
    (long : start + packetLength ≤ stream.length) : ∃ packet, packetAt? stream start = some packet := by
  have length : ((stream.drop start).take packetLength).length = packetLength := by
    rw [List.length_take, List.length_drop]
    omega
  obtain ⟨packet, read⟩ := Packet.exists_of_length length
  exact ⟨packet, Packet.ofBytes?_eq_some.mpr read⟩

theorem header_of_packetAt? {stream : List UInt8} {start : Nat} {packet : Packet}
    (found : packetAt? stream (nextHeader stream start) = some packet) : packet.header = header := by
  obtain ⟨rest, there⟩ := packetAt?_eq_some.mp found
  rw [nextHeader, ← List.drop_drop] at there
  have first : (stream.drop start)[(stream.drop start).idxOf header]? = some packet.header := by
    rw [← List.head?_drop, there]
    rfl
  obtain ⟨inside, first⟩ := List.getElem?_eq_some_iff.mp first
  rw [← first, List.getElem_idxOf]

/-- The next header is not behind a header that stands in the stream. -/
theorem nextHeader_le {stream rest : List UInt8} {start behind : Nat} (before : start ≤ behind)
    (there : stream.drop behind = header :: rest) : nextHeader stream start ≤ behind := by
  have cut : stream.drop start = (stream.drop start).take (behind - start) ++ header :: rest := by
    rw [← there, ← Nat.add_sub_cancel' before, ← List.drop_drop, Nat.add_sub_cancel_left,
      List.take_append_drop]
  have length : ((stream.drop start).take (behind - start)).length ≤ behind - start :=
    List.length_take_le ..
  rw [nextHeader, cut, List.idxOf_append]
  split
  next inside =>
    have := List.idxOf_lt_length_of_mem inside
    omega
  · rw [List.idxOf_cons_self]
    omega

/--
What is told on a byte behind a header does not depend on where the scan comes from, if no packet
with a right sum that begins before the header reaches over it.
-/
theorem mem_scan_of_clear {stream rest : List UInt8} {start behind index : Nat} {frame : Frame}
    (headed : stream.drop behind = header :: rest) (long : behind + packetLength ≤ stream.length)
    (clear : ∀ j, behind < j + packetLength → j < behind → ¬ IntactAt stream j)
    (before : start ≤ behind) (late : behind ≤ index) :
    (index, frame) ∈ scan stream start ↔ (index, frame) ∈ scan stream behind := by
  induction distance : behind - start using Nat.strong_induction_on generalizing start with
  | _ distance step =>
    have later := le_nextHeader stream start
    rcases (nextHeader_le before headed).eq_or_lt with same | earlier
    · rw [scan_congr (same.trans (nextHeader_of_header headed).symm)]
    · have fits : nextHeader stream start + packetLength ≤ stream.length := by omega
      obtain ⟨packet, found⟩ := exists_packetAt? fits
      by_cases intact : packet.Intact
      · have apart : nextHeader stream start + packetLength ≤ behind := by
          by_contra overlap
          exact clear _ (by omega) earlier ⟨packet, found, header_of_packetAt? found, intact⟩
        have told : (index, frame) ∉ (packet.frame?.map (nextHeader stream start + 10, ·)).toList := by
          simp only [Option.mem_toList, Option.map_eq_some_iff, Prod.mk.injEq, packetLength] at apart ⊢
          omega
        rw [scan_of_intact found intact, List.mem_append, or_iff_right told]
        exact step _ (by simp only [packetLength] at *; omega) apart rfl
      · rw [scan_of_broken found intact]
        exact step _ (by omega) earlier rfl

/--
Garbage hides no packet. If no header in front of a packet has a right sum that reaches over its
first byte, the packet is told on its last byte and nothing is told on its others.
-/
theorem genuine_received {stream : List UInt8} {start : Nat} {packet : Packet} {frame : Frame}
    (there : packetAt? stream start = some packet) (headed : packet.header = header)
    (intact : packet.Intact) (known : packet.frame? = some frame)
    (clear : ∀ j, start < j + packetLength → j < start → ¬ IntactAt stream j) {index : Nat}
    {byte : UInt8} (pushed : stream[index]? = some byte) (first : start ≤ index)
    (last : index ≤ start + 10) :
    ((Stream.run Receiver.push .new (stream.take index)).2.push byte).1 =
      if index = start + 10 then some frame else none := by
  obtain ⟨rest, bytes⟩ := packetAt?_eq_some.mp there
  have starts : stream.drop start = header :: (packet.bytes.tail ++ rest) := by
    rw [bytes, ← headed]
    rfl
  have told (value : Frame) :
      ((Stream.run Receiver.push .new (stream.take index)).2.push byte).1 = some value ↔
        (index, value) ∈ (Stream.run Receiver.push .new stream).1 := by
    rw [Stream.mem_run]
    simp only [pushed, Option.some.injEq, exists_eq_left']
  obtain ⟨stays, found⟩ := packetAt?_nextHeader bytes headed
  have scanned (value : Frame) : (index, value) ∈ (Stream.run Receiver.push .new stream).1 ↔
      index = start + 10 ∧ value = frame := by
    have further : (index, value) ∉ scan stream (start + packetLength) := by
      intro further
      have := le_of_mem_scan further
      simp only [packetLength] at this
      omega
    rw [run_new, mem_scan_of_clear starts (length_of_packetAt? there) clear
      (Nat.zero_le start) first, scan_of_intact found intact, stays, known]
    simp [further]
  split
  next same => exact (told frame).mpr ((scanned frame).mpr ⟨same, rfl⟩)
  next other =>
    cases value : ((Stream.run Receiver.push .new (stream.take index)).2.push byte).1 with
    | none => rfl
    | some received =>
      exact absurd ((scanned received).mp ((told received).mp value)).1 other

/-- A packet with a header among its data, behind two headers that are none. -/
def garbled : List UInt8 :=
  [0x55, 0x01, 0x55, 0x55, 0x53, 0, 0, 0, 0, 0x55, 0x15, 0, 0, 0x12]

/-- Headers in garbled bytes do not hide the packet that follows them. -/
theorem genuine_received_garbled :
    (∀ j < 3, ¬ IntactAt garbled j) ∧
      ∃ packet, packetAt? garbled 3 = some packet ∧ packet.header = header ∧ packet.Intact ∧
        ((Stream.run Receiver.push .new (garbled.take 13)).2.push 0x12).1 = packet.frame? := by
  have clear : ∀ j < 3, ¬ IntactAt garbled j := by decide
  have there : packetAt? garbled 3 = some ⟨0x55, 0x53, 0, 0, 0, 0, 0x55, 0x15, 0, 0, 0x12⟩ := rfl
  have last : garbled[13]? = some 0x12 := rfl
  refine ⟨clear, _, there, rfl, by decide, ?_⟩
  exact genuine_received there rfl (by decide) rfl (fun j _ => clear j) last (by decide) (by decide)

end Mecanum.Inertial
