/-!
# Byte streams

A receiver takes bytes one by one and now and then completes a value. Run over a stream it gives
the values with the index of the byte that completed each.
-/
namespace Mecanum.Stream

variable {σ α : Type}

/-- The values that a stream completes, where the first byte has index `index`. -/
def runFrom (push : σ → UInt8 → Option α × σ) (index : Nat) (state : σ) :
    List UInt8 → List (Nat × α) × σ
  | [] => ([], state)
  | byte :: rest =>
    let (completed, state) := push state byte
    let (values, state) := runFrom push (index + 1) state rest
    (match completed with
      | some value => (index, value) :: values
      | none => values, state)

/-- The values that a stream completes, and the receiver behind it. -/
def run (push : σ → UInt8 → Option α × σ) (state : σ) (bytes : List UInt8) :
    List (Nat × α) × σ :=
  runFrom push 0 state bytes

/-- The first byte completes what its push tells, and the rest is run behind it. -/
theorem runFrom_cons (push : σ → UInt8 → Option α × σ) (index : Nat) (state : σ) (byte : UInt8)
    (rest : List UInt8) :
    (runFrom push index state (byte :: rest)).1 =
      ((push state byte).1.map (index, ·)).toList
        ++ (runFrom push (index + 1) (push state byte).2 rest).1 := by
  simp only [runFrom]
  cases (push state byte).1 <;> rfl

theorem le_of_mem_runFrom (push : σ → UInt8 → Option α × σ) {start index : Nat} {state : σ}
    {bytes : List UInt8} {value : α} (completed : (index, value) ∈ (runFrom push start state bytes).1) :
    start ≤ index := by
  induction bytes generalizing start state with
  | nil => cases completed
  | cons byte rest step =>
    rw [runFrom_cons, List.mem_append, Option.mem_toList, Option.map_eq_some_iff] at completed
    rcases completed with ⟨_, _, same⟩ | later
    · cases same
      exact Nat.le_refl _
    · exact Nat.le_of_succ_le (step later)

theorem mem_runFrom (push : σ → UInt8 → Option α × σ) {start index : Nat} {state : σ}
    {bytes : List UInt8} {value : α} :
    (start + index, value) ∈ (runFrom push start state bytes).1 ↔
      ∃ byte, bytes[index]? = some byte ∧
        (push (runFrom push start state (bytes.take index)).2 byte).1 = some value := by
  induction bytes generalizing start index state with
  | nil => simp [runFrom]
  | cons byte rest step =>
    rw [runFrom_cons, List.mem_append, Option.mem_toList, Option.map_eq_some_iff]
    cases index with
    | zero =>
      have later : (start, value) ∉ (runFrom push (start + 1) (push state byte).2 rest).1 :=
        fun completed => absurd (le_of_mem_runFrom push completed) (Nat.not_succ_le_self start)
      simp [later, runFrom]
    | succ index =>
      have position : start + (index + 1) = start + 1 + index := by omega
      have behind : (runFrom push start state ((byte :: rest).take (index + 1))).2 =
          (runFrom push (start + 1) (push state byte).2 (rest.take index)).2 := rfl
      have first : ¬ ∃ told, (push state byte).1 = some told ∧
          (start, told) = (start + (index + 1), value) := by simp
      rw [position, step, List.getElem?_cons_succ, behind, ← position, or_iff_right first]

/-- A value is completed at an index exactly if the push of the byte there tells it. -/
theorem mem_run (push : σ → UInt8 → Option α × σ) {index : Nat} {state : σ} {bytes : List UInt8}
    {value : α} :
    (index, value) ∈ (run push state bytes).1 ↔
      ∃ byte, bytes[index]? = some byte ∧
        (push (run push state (bytes.take index)).2 byte).1 = some value := by
  simpa only [run, Nat.zero_add] using @mem_runFrom σ α push 0 index state bytes value

/-- How a stream is cut into pieces makes no difference, but for where the indices start. -/
theorem runFrom_append (push : σ → UInt8 → Option α × σ) (index : Nat) (state : σ)
    (front back : List UInt8) :
    runFrom push index state (front ++ back) =
      ((runFrom push index state front).1
          ++ (runFrom push (index + front.length) (runFrom push index state front).2 back).1,
        (runFrom push (index + front.length) (runFrom push index state front).2 back).2) := by
  induction front generalizing index state with
  | nil => rfl
  | cons byte rest step =>
    have position : index + 1 + rest.length = index + (byte :: rest).length := by
      rw [List.length_cons]; omega
    simp only [List.cons_append, runFrom, step, position]
    cases (push state byte).1 <;> rfl

/-- One more byte is pushed into the receiver that the stream has left. -/
theorem run_concat (push : σ → UInt8 → Option α × σ) (state : σ) (bytes : List UInt8)
    (byte : UInt8) :
    (run push state (bytes ++ [byte])).2 = (push (run push state bytes).2 byte).2 := by
  rw [run, runFrom_append]
  rfl

/-- One more byte adds the value that it completes. -/
theorem values_concat (push : σ → UInt8 → Option α × σ) (state : σ) (bytes : List UInt8)
    (byte : UInt8) :
    (run push state (bytes ++ [byte])).1 = (run push state bytes).1 ++
      ((push (run push state bytes).2 byte).1.map (bytes.length, ·)).toList := by
  rw [run, runFrom_append, runFrom_cons, Nat.zero_add]
  simp [run, runFrom]

end Mecanum.Stream
