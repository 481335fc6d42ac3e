import Mecanum.Proofs.Crew.Codes
import Mecanum.Proofs.Scanner.Lines

/-!
# Tokens on a schedule

The bytes that the scanner intake takes in on a schedule are a stream. On every schedule the tokens
framed so far are those of its lines, each framed on the terminator of its line, and what has gone
into the queue is what the mission has taken and then what is still in the queue.
-/
namespace Mecanum.Robot.Crew

open Mission (Errand)
open Motion (WheelDrive)
open Scanner (Token)

variable {W : Type}

/-! ### What the moves yield -/

def Event.framed? : Event → Option Token
  | framed token => some token
  | _ => none

/-- The tokens completed, whether the queue had room for them or not. -/
def framings (history : List Event) : List Token := history.filterMap Event.framed?

/-- The byte that a move takes into the scanner intake. -/
def byteOf (crew : Crew W) : Move W → List UInt8
  | .intake .scanner => (crew.shared.scannerBytes.pop?.map Prod.fst).toList
  | _ => []

/-- The tokens completed by a move that find room in the queue, which holds two. -/
def admittedOf (crew : Crew W) (events : List Event) : List Token :=
  if crew.shared.tokens.toList.length < 2 then framings events else []

section Gather

variable [WheelDrive W] {α : Type}

/-- What the moves of a schedule yield one after another. -/
def gather (yield : Crew W → Move W → List Event → List α) (crew : Crew W) :
    List (Move W) → List α
  | [] => []
  | move :: rest =>
    match crew.step move with
    | .error _ => []
    | .ok (next, events) => yield crew move events ++ gather yield next rest

def scanned (crew : Crew W) (schedule : List (Move W)) : List UInt8 :=
  gather (fun crew move _ => crew.byteOf move) crew schedule

/-- The tokens that go into the queue. -/
def admitted (crew : Crew W) (schedule : List (Move W)) : List Token :=
  gather (fun crew _ events => crew.admittedOf events) crew schedule

variable {yield : Crew W → Move W → List Event → List α} {crew : Crew W} {first : List (Move W)}

theorem Sound.gather_append (sound : crew.Sound first) (later : List (Move W)) :
    gather yield crew (first ++ later) =
      gather yield crew first ++ gather yield (crew.run first).1 later := by
  induction first generalizing crew with
  | nil => rfl
  | cons move rest ih =>
    obtain ⟨next, events, moved, onward⟩ := sound
    simp only [List.cons_append, gather, run, moved, ih onward, List.append_assoc]

/-- Behind a fault nothing more is gathered. -/
theorem gather_append_of_fault (faulty : ¬crew.Sound first) (later : List (Move W)) :
    gather yield crew (first ++ later) = gather yield crew first := by
  induction first generalizing crew with
  | nil => exact absurd trivial faulty
  | cons move rest ih =>
    rw [List.cons_append, gather, gather]
    cases moved : crew.step move with
    | error fault => rfl
    | ok result =>
      have onward : ¬result.1.Sound rest := fun sound => faulty ⟨_, _, moved, sound⟩
      simp only [ih onward]

end Gather

/-! ### Events that frame nothing -/

def Event.isFraming (event : Event) : Bool := event.framed?.isSome

theorem framings_append (front back : List Event) :
    framings (front ++ back) = framings front ++ framings back :=
  List.filterMap_append ..

theorem framings_aside {events : List Event} (aside : ∀ event ∈ events, event.isFraming = false) :
    framings events = [] := by
  refine List.filterMap_eq_nil_iff.mpr fun event member => ?_
  simpa [Event.isFraming] using aside event member

theorem taken_append (front back : List Event) :
    taken (front ++ back) = taken front ++ taken back :=
  List.filterMap_append ..

theorem taken_aside {events : List Event} (aside : ∀ event ∈ events, event.isToken = false) :
    taken events = [] := by
  refine List.filterMap_eq_nil_iff.mpr fun event member => ?_
  have quiet := aside event member
  cases event with
  | replied reply => cases reply <;> first | rfl | cases quiet
  | _ => rfl

theorem framings_quiet {events : List Event} (quiet : ∀ event ∈ events, event.isToken = false) :
    framings events = [] := by
  refine framings_aside fun event member => ?_
  have quiet := quiet event member
  cases event <;> first | rfl | cases quiet

theorem isFraming_endings (progress : Mission.Progress) :
    ∀ event ∈ endings progress, event.isFraming = false :=
  forall_endings (fun _ => rfl) progress

/-! ### The framer -/

section Framer

variable {crew next : Crew W} {events opening : List Event}

/-- An operation of the mission frames nothing. -/
private theorem operate_framer {errand : Errand} (opened : framings opening = [])
    (moved : crew.operate opening errand = .ok (next, events)) :
    next.framer = crew.framer ∧ framings events = [] := by
  unfold operate at moved
  split at moved
  next =>
    cases moved
    exact ⟨rfl, opened⟩
  next =>
    cases moved
    rw [framings_append, opened, framings_aside (forall_requestsOf (fun _ => rfl) errand)]
    exact ⟨rfl, rfl⟩
  next reply _ _ =>
    obtain ⟨progress, resumed, produced⟩ := bind_eq_ok_iff.mp moved
    cases produced
    rw [framings_append, opened, framings_aside (List.forall_mem_cons.mpr
      ⟨rfl, isFraming_endings progress⟩)]
    exact ⟨rfl, rfl⟩

/-- The mission leaves the framer alone. -/
private theorem stepMission_framer (moved : crew.stepMission = .ok (next, events)) :
    next.framer = crew.framer ∧ framings events = [] := by
  unfold stepMission at moved
  split at moved
  next =>
    obtain ⟨progress, resumed, produced⟩ := bind_eq_ok_iff.mp moved
    cases produced
    exact ⟨rfl, framings_aside (List.forall_mem_cons.mpr ⟨rfl, isFraming_endings progress⟩)⟩
  next => exact operate_framer rfl moved
  next =>
    split at moved
    next =>
      obtain ⟨progress, entered, produced⟩ := bind_eq_ok_iff.mp moved
      cases produced
      exact ⟨rfl, framings_aside (List.forall_mem_cons.mpr ⟨rfl, isFraming_endings progress⟩)⟩
    next =>
      split at moved
      next => exact operate_framer rfl moved
      next =>
        cases moved
        exact ⟨rfl, rfl⟩

/-- A byte taken in moves the framer on, if it comes from the scanner. -/
private theorem intake_framer (bytes : List UInt8) (framer : crew.framer = Scanner.framer bytes)
    (port : Port) :
    (crew.intake port).1.framer = Scanner.framer (bytes ++ crew.byteOf (.intake port)) ∧
      Scanner.tokens (bytes ++ crew.byteOf (.intake port)) =
        Scanner.tokens bytes ++ framings (crew.intake port).2 := by
  cases port with
  | inertial =>
    simp only [intake, takeInertial, byteOf, List.append_nil]
    split
    · exact ⟨framer, (List.append_nil _).symm⟩
    · refine ⟨framer, ?_⟩
      cases (crew.provider.feed _ _).published <;> exact (List.append_nil _).symm
  | camera =>
    simp only [intake, takeCamera, byteOf, List.append_nil]
    split
    · exact ⟨framer, (List.append_nil _).symm⟩
    · split <;> exact ⟨framer, (List.append_nil _).symm⟩
  | scanner =>
    simp only [intake, takeScanner, byteOf]
    cases crew.shared.scannerBytes.pop? with
    | none => simpa [framings] using framer
    | some entry =>
      obtain ⟨byte, rest⟩ := entry
      obtain ⟨state, grown⟩ := Scanner.push_framer bytes byte
      rw [← framer] at state grown
      have told : (Scanner.Intake.feed crew.framer byte crew.shared.tokens).framer =
          (crew.framer.push byte).2 ∧
          (Scanner.Intake.feed crew.framer byte crew.shared.tokens).framed =
            (crew.framer.push byte).1 := by
        unfold Scanner.Intake.feed
        rcases crew.framer.push byte with ⟨_ | token, framer⟩
        · exact ⟨rfl, rfl⟩
        · dsimp only
          split <;> exact ⟨rfl, rfl⟩
      refine ⟨told.1.trans state, grown.trans ?_⟩
      simp only [told.2]
      cases (crew.framer.push byte).1 <;> rfl

/-- A move keeps the framer that of the stream, and frames what its byte adds to the tokens. -/
theorem step_framer [WheelDrive W] {move : Move W} {bytes : List UInt8}
    (framer : crew.framer = Scanner.framer bytes) (moved : crew.step move = .ok (next, events)) :
    next.framer = Scanner.framer (bytes ++ crew.byteOf move) ∧
      Scanner.tokens (bytes ++ crew.byteOf move) = Scanner.tokens bytes ++ framings events := by
  have apart (unread : crew.byteOf move = []) (same : next.framer = crew.framer)
      (quiet : framings events = []) :
      next.framer = Scanner.framer (bytes ++ crew.byteOf move) ∧
        Scanner.tokens (bytes ++ crew.byteOf move) = Scanner.tokens bytes ++ framings events := by
    rw [unread, quiet, List.append_nil, List.append_nil]
    exact ⟨same.trans framer, rfl⟩
  cases move with
  | mission =>
    obtain ⟨same, quiet⟩ := stepMission_framer moved
    exact apart rfl same quiet
  | watchdog =>
    simp only [step, stepWatchdog] at moved
    split at moved
    next =>
      obtain ⟨progress, resumed, produced⟩ := bind_eq_ok_iff.mp moved
      cases produced
      exact apart rfl rfl
        (framings_aside (List.forall_mem_cons.mpr ⟨rfl, isFraming_endings progress⟩))
    next =>
      cases moved
      exact apart rfl rfl rfl
  | motion =>
    obtain ⟨step, stepped, produced⟩ := bind_eq_ok_iff.mp moved
    cases produced
    exact apart rfl rfl rfl
  | arm now body pulses =>
    obtain ⟨step, stepped, produced⟩ := bind_eq_ok_iff.mp moved
    cases produced
    exact apart rfl rfl
      (framings_aside
        (forall_serve (fun _ => rfl) (fun _ => rfl) (fun _ => rfl) crew step.entry step.task))
  | intake port =>
    have taken := intake_framer bytes framer port
    rw [Except.ok.inj moved] at taken
    exact taken
  | button reading =>
    cases moved
    refine apart rfl rfl ?_
    split <;> rfl
  | arrival port byte =>
    cases moved
    exact apart rfl rfl rfl
  | wheels wheels =>
    cases moved
    exact apart rfl rfl rfl
  | heading snapshot =>
    cases moved
    exact apart rfl rfl rfl

/-- The tokens framed on a schedule are those of the bytes taken in. -/
theorem run_framer [WheelDrive W] {bytes : List UInt8} (framer : crew.framer = Scanner.framer bytes)
    (schedule : List (Move W)) :
    (crew.run schedule).1.framer = Scanner.framer (bytes ++ crew.scanned schedule) ∧
      Scanner.tokens (bytes ++ crew.scanned schedule) =
        Scanner.tokens bytes ++ framings (crew.run schedule).2 := by
  induction schedule generalizing crew bytes with
  | nil => simpa [run, scanned, gather, framings] using framer
  | cons move rest ih =>
    simp only [run, scanned, gather]
    cases moved : crew.step move with
    | error fault => simpa [framings] using framer
    | ok result =>
      obtain ⟨state, grown⟩ := step_framer framer moved
      obtain ⟨last, all⟩ := ih state
      dsimp only
      rw [← List.append_assoc, framings_append, ← List.append_assoc, ← grown]
      exact ⟨last, all⟩

end Framer

/-! ### The queue -/

section Queue

variable {crew next : Crew W} {move : Move W} {events : List Event}

/-- An operation takes the oldest token, or leaves the queue alone. -/
private theorem queue_operated {opening behind : List Event} {errand : Errand}
    (begun : Begun crew opening errand) (left : Behind errand (errand.step crew.shared) behind)
    (shared : next.shared = (errand.step crew.shared).shared) :
    framings (opening ++ behind) = [] ∧
      crew.shared.tokens.toList = taken (opening ++ behind) ++ next.shared.tokens.toList := by
  rw [framings_append, taken_append, framings_quiet begun.isToken, taken_aside begun.isToken,
    List.nil_append, List.nil_append, shared]
  rcases tokens_step errand crew.shared with ⟨token, rest, held, gone, told⟩ | ⟨same, untold⟩
  · rw [held, gone]
    generalize errand.step crew.shared = result at left told
    cases left with
    | @ended _ _ progress =>
      cases told
      have quiet : ∀ event ∈ endings progress, event.isToken = false :=
        forall_endings (fun _ => rfl) progress
      rw [← List.singleton_append, framings_append, taken_append, framings_quiet quiet,
        taken_aside quiet]
      exact ⟨rfl, rfl⟩
    | _ => cases told
  · have quiet : ∀ event ∈ behind, event.isToken = false := by
      generalize errand.step crew.shared = result at left untold
      cases left with
      | blocked => exact List.forall_mem_nil _
      | moved => exact forall_requestsOf (fun _ => rfl) errand
      | @ended reply _ progress =>
        refine List.forall_mem_cons.mpr ⟨?_, forall_endings (fun _ => rfl) progress⟩
        cases reply with
        | token token => exact absurd rfl (untold token)
        | _ => rfl
    rw [framings_quiet quiet, taken_aside quiet, same]
    exact ⟨rfl, rfl⟩

/-- What is in the queue and what goes into it is what the mission takes and what is left. -/
theorem Supply.queue (supply : Supply crew move next events) :
    crew.shared.tokens.toList ++ crew.admittedOf events =
      taken events ++ next.shared.tokens.toList := by
  have apart (same : next.shared.tokens = crew.shared.tokens)
      (quiet : ∀ event ∈ events, event.isToken = false) :
      crew.shared.tokens.toList ++ crew.admittedOf events =
        taken events ++ next.shared.tokens.toList := by
    rw [admittedOf, framings_quiet quiet, taken_aside quiet, same, ite_self, List.append_nil,
      List.nil_append]
  cases supply with
  | operation begun left shared =>
    obtain ⟨unframed, queue⟩ := queue_operated begun left shared
    rw [admittedOf, unframed, ite_self, List.append_nil, queue]
  | sample reading shared =>
    refine apart (by rw [shared]; split <;> rfl) ?_
    split
    · exact List.forall_mem_singleton.mpr rfl
    · exact List.forall_mem_nil _
  | headed _ _ tokens => exact apart tokens (List.forall_mem_singleton.mpr rfl)
  | @framed _ token _ _ tokens =>
    have slots : Shared.tokenSlots = 2 := rfl
    rw [admittedOf, tokens]
    cases pushed : crew.shared.tokens.push? token with
    | some longer =>
      have room : crew.shared.tokens.toList.length < 2 := by
        by_contra full
        have bound := crew.shared.tokens.bounded
        rw [Shared.Queue.push?_eq_none_iff.mpr (by omega)] at pushed
        cases pushed
      rw [if_pos room, Option.getD_some, Shared.Queue.toList_push? pushed]
      rfl
    | none =>
      have full := Shared.Queue.push?_eq_none_iff.mp pushed
      rw [if_neg (by omega), List.append_nil]
      rfl
  | apart _ same _ quiet =>
    have tokens : next.shared.tokens = crew.shared.tokens :=
      congrArg (fun supplied => supplied.2.2) same
    exact apart tokens fun event member => isToken_of_bears (quiet event member)

variable [WheelDrive W]

/-- The mission takes the tokens in the order in which they went into the queue, and each once. -/
theorem run_queue (crew : Crew W) (schedule : List (Move W)) :
    crew.shared.tokens.toList ++ crew.admitted schedule =
      taken (crew.run schedule).2 ++ (crew.run schedule).1.shared.tokens.toList := by
  induction schedule generalizing crew with
  | nil => simp [admitted, gather, run, taken]
  | cons move rest ih =>
    simp only [run, admitted, gather]
    cases moved : crew.step move with
    | error fault => simp [taken]
    | ok result =>
      dsimp only
      rw [taken_append, List.append_assoc, ← ih, ← List.append_assoc, ← List.append_assoc,
        ← (step_supply moved).queue]
      rfl

/-- An empty queue has room for the next token. -/
theorem head?_admitted {crew : Crew W} (empty : crew.shared.tokens.toList = [])
    (schedule : List (Move W)) :
    (crew.admitted schedule).head? = (framings (crew.run schedule).2).head? := by
  induction schedule generalizing crew with
  | nil => rfl
  | cons move rest ih =>
    simp only [run, admitted, gather]
    cases moved : crew.step move with
    | error fault => rfl
    | ok result =>
      obtain ⟨next, events⟩ := result
      have room : crew.admittedOf events = framings events := by
        rw [admittedOf, if_pos (by rw [empty]; decide)]
      have queue := (step_supply moved).queue
      rw [room, empty, List.nil_append] at queue
      dsimp only
      rw [room, framings_append]
      cases framed : framings events with
      | cons token others => rfl
      | nil =>
        rw [framed] at queue
        exact ih (List.append_eq_nil_iff.mp queue.symm).2

end Queue

end Mecanum.Robot.Crew
