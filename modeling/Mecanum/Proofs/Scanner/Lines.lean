import Mathlib.Data.List.DropRight
import Mathlib.Data.List.Induction
import Mecanum.Scanner.Line
import Mecanum.Stream

/-!
# The lines of a scanner stream

A stream is cut at each carriage return and each line feed. What stands behind the last one is the
current line, of which the framer holds the first fifteen bytes; the others are complete, and those
of at least three bytes give the tokens.
-/
namespace Mecanum.Scanner

/-- Whether a byte ends a line: a carriage return or a line feed. -/
def isBreak (byte : UInt8) : Bool := byte = 13 || byte = 10

theorem isTerminator_eq : isTerminator = isBreak := rfl

/-- The complete lines of a stream, without the bytes that end them. -/
def lines (stream : List UInt8) : List (List UInt8) := (stream.splitOnP isBreak).dropLast

/-- The bytes behind the last terminator. -/
def currentLine (stream : List UInt8) : List UInt8 := stream.rtakeWhile (!isBreak ·)

/-- The first fifteen bytes of the lines of at least three. -/
def tokens (stream : List UInt8) : List Token :=
  ((lines stream).filter (3 ≤ ·.length)).map (·.take 15)

/-! ## Lines -/

theorem currentLine_terminator {byte : UInt8} (ends : isBreak byte = true)
    (bytes : List UInt8) : currentLine (bytes ++ [byte]) = [] :=
  List.rtakeWhile_concat_neg _ _ _ (by simp [ends])

theorem currentLine_inside {byte : UInt8} (inside : isBreak byte = false)
    (bytes : List UInt8) : currentLine (bytes ++ [byte]) = currentLine bytes ++ [byte] :=
  List.rtakeWhile_concat_pos _ _ _ (by simp [inside])

theorem currentLine_append {line : List UInt8} (inside : ∀ byte ∈ line, isBreak byte = false)
    (bytes : List UInt8) : currentLine (bytes ++ line) = currentLine bytes ++ line := by
  induction line using List.reverseRecOn with
  | nil => simp
  | append_singleton line byte ih =>
    obtain ⟨front, last⟩ := List.forall_mem_append.mp inside
    rw [← List.append_assoc, currentLine_inside (last byte (by simp)), ih front, List.append_assoc]

theorem isBreak_currentLine (stream : List UInt8) :
    ∀ byte ∈ currentLine stream, isBreak byte = false := by
  intro byte member
  simpa using List.mem_rtakeWhile_imp member

/-- The current line stands behind a terminator, or is all there is. -/
theorem cases_currentLine (stream : List UInt8) :
    currentLine stream = stream ∨
      ∃ front byte, isBreak byte = true ∧ stream = front ++ byte :: currentLine stream := by
  induction stream using List.reverseRecOn with
  | nil => exact .inl rfl
  | append_singleton bytes byte ih =>
    cases ends : isBreak byte with
    | true => exact .inr ⟨bytes, byte, ends, by rw [currentLine_terminator ends]⟩
    | false =>
      rw [currentLine_inside ends]
      rcases ih with whole | ⟨front, terminator, ends, split⟩
      · exact .inl (by rw [whole])
      · refine .inr ⟨front, terminator, ends, ?_⟩
        conv => lhs; rw [split]
        simp

/-- A piece without a terminator is no complete line. -/
theorem lines_single {line : List UInt8} (inside : ∀ byte ∈ line, isBreak byte = false) :
    lines line = [] := by
  rw [lines, List.splitOnP_eq_singleton inside, List.dropLast_singleton]

/-- What stands behind a terminator is no complete line before it ends. -/
theorem lines_behind {front line : List UInt8} {byte : UInt8} (ends : isBreak byte = true)
    (inside : ∀ byte ∈ line, isBreak byte = false) :
    lines (front ++ byte :: line) = front.splitOnP isBreak := by
  rw [lines, List.splitOnP_append_cons _ _ ends, List.splitOnP_eq_singleton inside,
    List.dropLast_concat]

/-- The last piece of a stream is the current line. -/
theorem splitOnP_eq (stream : List UInt8) :
    stream.splitOnP isBreak = lines stream ++ [currentLine stream] := by
  have inside := isBreak_currentLine stream
  have single := List.splitOnP_eq_singleton inside
  rcases cases_currentLine stream with whole | ⟨front, byte, ends, split⟩
  · rw [whole] at single inside
    rw [lines_single inside, whole, single, List.nil_append]
  · generalize currentLine stream = line at inside single split
    subst split
    rw [lines_behind ends inside, List.splitOnP_append_cons _ _ ends, single]

theorem lines_terminator {byte : UInt8} (ends : isBreak byte = true) (bytes : List UInt8) :
    lines (bytes ++ [byte]) = lines bytes ++ [currentLine bytes] := by
  rw [lines_behind ends (List.forall_mem_nil _), splitOnP_eq]

theorem lines_inside {byte : UInt8} (inside : isBreak byte = false) (bytes : List UInt8) :
    lines (bytes ++ [byte]) = lines bytes := by
  have before := isBreak_currentLine bytes
  have after : ∀ other ∈ currentLine bytes ++ [byte], isBreak other = false :=
    List.forall_mem_append.mpr ⟨before, List.forall_mem_singleton.mpr inside⟩
  rcases cases_currentLine bytes with whole | ⟨front, terminator, ends, split⟩
  · rw [whole] at before after
    rw [lines_single before, lines_single after]
  · generalize currentLine bytes = line at before after split
    subst split
    rw [List.append_assoc, List.cons_append, lines_behind ends after, lines_behind ends before]

/-! ## The framer -/

def framer (stream : List UInt8) : Framer := ⟨(currentLine stream).take 15⟩

theorem tokenOf_take (line : List UInt8) : tokenOf (line.take 15) =
    if 3 ≤ line.length then some (line.take 15) else none := by
  have length : 3 ≤ (line.take 15).length ↔ 3 ≤ line.length := by
    rw [List.length_take]
    omega
  simp only [tokenOf, tokenLeast, length]

theorem push_terminator {byte : UInt8} (ends : isBreak byte = true) (bytes : List UInt8) :
    (framer bytes).push byte =
      (tokenOf ((currentLine bytes).take 15), framer (bytes ++ [byte])) := by
  rw [Framer.push, isTerminator_eq, if_pos ends, framer, framer, currentLine_terminator ends]
  rfl

theorem push_inside {byte : UInt8} (inside : isBreak byte = false) (bytes : List UInt8) :
    (framer bytes).push byte = (none, framer (bytes ++ [byte])) := by
  rw [Framer.push, isTerminator_eq, if_neg (by simp [inside]), framer, framer,
    currentLine_inside inside]
  simp only [List.length_take, tokenCapacity]
  by_cases room : (currentLine bytes).length < 15
  · have longer : (currentLine bytes ++ [byte]).length ≤ 15 := by
      rw [List.length_append]
      exact room
    rw [if_pos (by omega), List.take_of_length_le longer, List.take_of_length_le (by omega)]
  · rw [if_neg (by omega), List.take_append_of_le_length (by omega)]

/-- A byte makes the framer that of the longer stream, and completes the token that it adds. -/
theorem push_framer (bytes : List UInt8) (byte : UInt8) :
    ((framer bytes).push byte).2 = framer (bytes ++ [byte]) ∧
      tokens (bytes ++ [byte]) = tokens bytes ++ ((framer bytes).push byte).1.toList := by
  cases ends : isBreak byte with
  | true =>
    rw [push_terminator ends, tokens, lines_terminator ends, tokenOf_take]
    refine ⟨rfl, ?_⟩
    by_cases long : 3 ≤ (currentLine bytes).length <;> simp [tokens, long]
  | false =>
    rw [push_inside ends, tokens, lines_inside ends]
    exact ⟨rfl, (List.append_nil _).symm⟩

/-- Further bytes only add tokens. -/
theorem tokens_append (bytes more : List UInt8) :
    ∃ rest, tokens (bytes ++ more) = tokens bytes ++ rest := by
  induction more using List.reverseRecOn with
  | nil => exact ⟨[], by simp⟩
  | append_singleton front byte ih =>
    obtain ⟨rest, grown⟩ := ih
    rw [← List.append_assoc, (push_framer (bytes ++ front) byte).2, grown, List.append_assoc]
    exact ⟨_, rfl⟩

/-- A line that is begun behind a terminator, and is no noise, gives the next token. -/
theorem tokens_line {bytes line : List UInt8} {byte : UInt8} (fresh : currentLine bytes = [])
    (inside : ∀ byte ∈ line, isBreak byte = false) (ends : isBreak byte = true)
    (long : 3 ≤ line.length) (more : List UInt8) :
    ∃ rest, tokens (bytes ++ (line ++ byte :: more)) =
      tokens bytes ++ line.take 15 :: rest := by
  obtain ⟨rest, grown⟩ := tokens_append (bytes ++ line ++ [byte]) more
  have unbroken : lines (bytes ++ line) = lines bytes := by
    clear long grown
    induction line using List.reverseRecOn with
    | nil => rw [List.append_nil]
    | append_singleton line last ih =>
      obtain ⟨front, single⟩ := List.forall_mem_append.mp inside
      rw [← List.append_assoc, lines_inside (single last (by simp)), ih front]
  refine ⟨rest, ?_⟩
  rw [List.append_cons, ← List.append_assoc, ← List.append_assoc, grown, tokens,
    lines_terminator ends, unbroken, currentLine_append inside, fresh, List.nil_append]
  simp [tokens, long]

theorem run_framer (stream : List UInt8) :
    (Stream.run Framer.push .new stream).2 = framer stream := by
  induction stream using List.reverseRecOn with
  | nil => rfl
  | append_singleton bytes byte ih => rw [Stream.run_concat, ih, (push_framer bytes byte).1]

/-- A byte completes a token exactly if it is the terminator of a line that is no noise. -/
theorem mem_run_iff {stream : List UInt8} {index : Nat} {token : Token} :
    (index, token) ∈ (Stream.run Framer.push .new stream).1 ↔
      ∃ byte, stream[index]? = some byte ∧ isBreak byte = true ∧
        3 ≤ (currentLine (stream.take index)).length ∧
        token = (currentLine (stream.take index)).take 15 := by
  simp only [Stream.mem_run, run_framer]
  refine exists_congr fun byte => and_congr_right fun _ => ?_
  cases ends : isBreak byte with
  | true =>
    rw [push_terminator ends, tokenOf_take]
    by_cases long : 3 ≤ (currentLine (stream.take index)).length <;> simp [long, eq_comm]
  | false => simp [push_inside ends]

end Mecanum.Scanner
