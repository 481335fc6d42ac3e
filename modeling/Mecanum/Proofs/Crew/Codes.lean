import Mathlib.Data.List.Basic
import Mecanum.Proofs.Crew.Arm
import Mecanum.Proofs.Crew.Moments

/-!
# Task codes and runs

Scanned tokens wait in a queue that outlives the runs. The mission takes the oldest, so the token
that it takes was scanned behind some earlier moment, such as the end of the run before, exactly if
it has taken as many tokens since that moment as waited then. If a token waits when a run ends, the
next run takes that one first, and adopts it if it is a task code.
-/
namespace Mecanum.Robot.Crew

open Mission (Errand)
open Motion (WheelDrive)
open Scanner (Token)

variable {W : Type}

/-! ### The tokens that wait -/

def Event.token? : Event → Option Token
  | replied (.token token) => some token
  | _ => none

def taken (history : List Event) : List Token := history.filterMap Event.token?

/-- What one event does to the tokens that wait, each with the place of the event that framed it. -/
def queueUp (waiting : List (Nat × Token)) (place : Nat) : Event → List (Nat × Token)
  | .framed token =>
    if waiting.length < Shared.tokenSlots then waiting ++ [(place, token)] else waiting
  | .replied (.token _) => waiting.tail
  | _ => waiting

/-- The tokens that wait behind a history, the oldest first, each with its place in the history. -/
def waiting (history : List Event) : List (Nat × Token) :=
  history.zipIdx.foldl (fun before numbered => queueUp before numbered.2 numbered.1) []

theorem waiting_concat (history : List Event) (event : Event) :
    waiting (history ++ [event]) = queueUp (waiting history) history.length event := by
  simp [waiting, List.zipIdx_append]

/-- Whether an event bears on the tokens. -/
def Event.isToken : Event → Bool
  | framed _ | replied (.token _) => true
  | _ => false

/-- What is no token changes nothing for those that wait. -/
theorem waiting_aside {events : List Event} (aside : ∀ event ∈ events, event.isToken = false)
    (history : List Event) : waiting (history ++ events) = waiting history := by
  induction events using List.reverseRecOn with
  | nil => rw [List.append_nil]
  | append_singleton earlier event ih =>
    have last : event.isToken = false := aside event List.mem_concat_self
    rw [← List.append_assoc, waiting_concat,
      ih fun other member => aside other (List.mem_append_left _ member)]
    cases event with
    | framed => cases last
    | replied reply => cases reply <;> first | rfl | cases last
    | _ => rfl

/-- What waits behind a history stands in it at its place. -/
theorem getElem?_of_mem_waiting {history : List Event} {place : Nat} {token : Token}
    (member : (place, token) ∈ waiting history) : history[place]? = some (.framed token) := by
  induction history using List.reverseRecOn with
  | nil => cases member
  | append_singleton earlier event ih =>
    have old (before : (place, token) ∈ waiting earlier) :
        (earlier ++ [event])[place]? = some (.framed token) := by
      obtain ⟨within, found⟩ := List.getElem?_eq_some_iff.mp (ih before)
      rw [List.getElem?_append_left within]
      exact ih before
    rw [waiting_concat] at member
    cases event with
    | framed other =>
      simp only [queueUp] at member
      split at member
      · rcases List.mem_append.mp member with before | new
        · exact old before
        · cases List.mem_singleton.mp new
          exact List.getElem?_concat_length
      · exact old member
    | replied reply =>
      cases reply <;> first | exact old member | exact old (List.mem_of_mem_tail member)
    | _ => exact old member

/-- No more tokens wait than the queue has slots for. -/
theorem length_waiting_le (history : List Event) :
    (waiting history).length ≤ Shared.tokenSlots := by
  induction history using List.reverseRecOn with
  | nil => exact Nat.zero_le _
  | append_singleton earlier event ih =>
    rw [waiting_concat]
    cases event with
    | framed token =>
      rw [queueUp]
      split
      next room => rw [List.length_append]; exact room
      next => exact ih
    | replied reply => cases reply <;> simp only [queueUp, List.length_tail] <;> omega
    | _ => exact ih

theorem taken_concat (history : List Event) (event : Event) :
    taken (history ++ [event]) = taken history ++ event.token?.toList := by
  rw [taken, List.filterMap_append, taken]
  cases told : event.token? <;> simp [told]

/-- Behind some further events the oldest of the tokens are gone, as many as have been taken, and
the new ones are behind the others. -/
theorem waiting_append (front since : List Event) :
    ∃ new, waiting (front ++ since) = (waiting front).drop (taken since).length ++ new ∧
      ∀ entry ∈ new, front.length ≤ entry.1 := by
  induction since using List.reverseRecOn with
  | nil => exact ⟨[], by simp [taken], List.forall_mem_nil _⟩
  | append_singleton earlier event ih =>
    obtain ⟨new, split, later⟩ := ih
    rw [← List.append_assoc, waiting_concat, split, taken_concat]
    cases told : event.token? with
    | none =>
      rw [Option.toList_none, List.append_nil]
      cases event with
      | framed token =>
        rw [queueUp]
        split
        · refine ⟨new ++ [((front ++ earlier).length, token)], (List.append_assoc ..), ?_⟩
          refine List.forall_mem_append.mpr ⟨later, List.forall_mem_singleton.mpr ?_⟩
          simp
        · exact ⟨new, rfl, later⟩
      | replied reply => cases reply <;> first | exact ⟨new, rfl, later⟩ | cases told
      | _ => exact ⟨new, rfl, later⟩
    | some token =>
      -- The oldest of the old ones goes, and without any the oldest of the new ones.
      have tail : queueUp ((waiting front).drop (taken earlier).length ++ new)
          (front ++ earlier).length event =
            ((waiting front).drop (taken earlier).length ++ new).tail := by
        cases event with
        | replied reply => cases reply <;> first | rfl | cases told
        | _ => cases told
      rw [tail, Option.toList_some, List.length_append, List.length_singleton, ← List.drop_drop]
      cases (waiting front).drop (taken earlier).length with
      | nil => exact ⟨new.tail, rfl, fun entry member => later entry (List.mem_of_mem_tail member)⟩
      | cons oldest others => exact ⟨new, rfl, later⟩

/-! ### The queue -/

/-- The tokens in the queue are those that wait behind the history. -/
def Stocked (crew : Crew W) (history : List Event) : Prop :=
  (waiting history).map Prod.snd = crew.shared.tokens.toList

theorem isToken_of_bears {event : Event} (aside : event.bears = false) : event.isToken = false := by
  cases event with
  | replied reply => cases reply <;> first | rfl | cases aside
  | framed => cases aside
  | _ => rfl

theorem Begun.isToken {crew : Crew W} {opening : List Event} {errand : Errand}
    (begun : Begun crew opening errand) : ∀ event ∈ opening, event.isToken = false :=
  begun.forall_opening fun _ => rfl

/-- An errand takes the oldest token out of the queue, or leaves the queue alone. -/
theorem tokens_step (errand : Errand) (shared : Shared.State) :
    (∃ token rest, shared.tokens.toList = token :: rest ∧
        (errand.step shared).shared.tokens.toList = rest ∧
        (errand.step shared).reply? = some (.token token)) ∨
      (errand.step shared).shared.tokens = shared.tokens ∧
        ∀ token, (errand.step shared).reply? ≠ some (.token token) := by
  by_cases asks : errand = .token
  · subst asks
    rw [Errand.step]
    cases popped : shared.tokens.pop? with
    | some entry => exact .inl ⟨entry.1, entry.2.toList, Shared.Queue.toList_pop? popped, rfl, rfl⟩
    | none => exact .inr ⟨rfl, fun token => by simp [Errand.Step.reply?]⟩
  · have way := errand.step_stepped shared
    generalize errand.step shared = result at way ⊢
    cases way with
    | tokenAwaited | tokenTaken => exact absurd rfl asks
    | _ => exact .inr ⟨rfl, fun token => by simp [Errand.Step.reply?]⟩

/-- Without a token framed or taken, the same tokens wait. -/
theorem Stocked.aside {crew next : Crew W} {history events : List Event}
    (stocked : Stocked crew history) (tokens : next.shared.tokens = crew.shared.tokens)
    (quiet : ∀ event ∈ events, event.isToken = false) : Stocked next (history ++ events) := by
  rw [Stocked, waiting_aside quiet, tokens, stocked]

/-- A framed token waits behind the others, if the queue has room. -/
theorem Stocked.framed {crew next : Crew W} {history : List Event} {token : Token}
    (stocked : Stocked crew history)
    (tokens : next.shared.tokens = (crew.shared.tokens.push? token).getD crew.shared.tokens) :
    Stocked next (history ++ [.framed token]) := by
  have same : (waiting history).length = crew.shared.tokens.toList.length := by
    rw [← stocked, List.length_map]
  rw [Stocked, waiting_concat, queueUp, tokens, same]
  cases pushed : crew.shared.tokens.push? token with
  | some longer =>
    have room : crew.shared.tokens.toList.length < Shared.tokenSlots := by
      by_contra full
      have bound := crew.shared.tokens.bounded
      rw [Shared.Queue.push?_eq_none_iff.mpr (by omega)] at pushed
      cases pushed
    rw [if_pos room, List.map_append, stocked, Option.getD_some, Shared.Queue.toList_push? pushed]
    rfl
  | none =>
    have full := Shared.Queue.push?_eq_none_iff.mp pushed
    rw [if_neg (by omega)]
    exact stocked

private theorem isToken_endings (progress : Mission.Progress) :
    ∀ event ∈ endings progress, event.isToken = false :=
  forall_endings (fun _ => rfl) progress

/-- The mission takes the token that has waited longest, and nothing else of it bears on them. -/
theorem Stocked.operated {crew next : Crew W} {history opening behind : List Event}
    {errand : Errand} (stocked : Stocked crew history) (begun : Begun crew opening errand)
    (left : Behind errand (errand.step crew.shared) behind)
    (shared : next.shared = (errand.step crew.shared).shared) :
    Stocked next (history ++ (opening ++ behind)) := by
  rcases tokens_step errand crew.shared with ⟨token, rest, held, gone, told⟩ | ⟨same, untold⟩
  · rw [← shared] at gone
    generalize errand.step crew.shared = result at left told
    cases left with
    | ended =>
      cases told
      rw [Stocked, ← List.append_assoc, List.append_cons, waiting_aside (isToken_endings _),
        waiting_concat, waiting_aside begun.isToken, queueUp, List.map_tail, stocked, gone, held]
      rfl
    | _ => cases told
  · refine stocked.aside (by rw [shared, same]) (List.forall_mem_append.mpr ⟨begun.isToken, ?_⟩)
    generalize errand.step crew.shared = result at left untold
    cases left with
    | blocked => exact List.forall_mem_nil _
    | moved => exact forall_requestsOf (fun _ => rfl) errand
    | @ended reply _ _ =>
      refine List.forall_mem_cons.mpr ⟨?_, isToken_endings _⟩
      cases reply with
      | token token => exact absurd rfl (untold token)
      | _ => rfl

/-- Every move that bears on the tokens keeps queue and history in step. -/
theorem Stocked.supplied {crew next : Crew W} {move : Move W} {history events : List Event}
    (stocked : Stocked crew history) (supply : Supply crew move next events) :
    Stocked next (history ++ events) := by
  cases supply with
  | operation begun left shared => exact stocked.operated begun left shared
  | sample reading shared =>
    refine stocked.aside (by rw [shared]; split <;> rfl) ?_
    split
    · exact List.forall_mem_singleton.mpr rfl
    · exact List.forall_mem_nil _
  | headed _ _ tokens => exact stocked.aside tokens (List.forall_mem_singleton.mpr rfl)
  | framed _ _ tokens => exact stocked.framed tokens
  | apart _ same _ quiet =>
    have tokens : next.shared.tokens = crew.shared.tokens :=
      congrArg (fun supplied => supplied.2.2) same
    exact stocked.aside tokens fun event member => isToken_of_bears (quiet event member)

section Schedules

variable [WheelDrive W] {setup : Setup} {wheels : W} {schedule : List (Move W)}

theorem stocked_reached (setup : Setup) (wheels : W) (schedule : List (Move W)) :
    Stocked (reached setup wheels schedule) (history setup wheels schedule) :=
  @run_keeps W _ Stocked (fun stocked moved => stocked.supplied (step_supply moved))
    (new setup wheels) [] rfl schedule

/-- A token that the mission takes is the oldest that waits. -/
theorem oldest_taken {front back : List Event} {token : Token}
    (split : history setup wheels schedule = front ++ .replied (.token token) :: back) :
    ∃ place rest, waiting front = (place, token) :: rest := by
  obtain ⟨first, next, early, late, transition, rfl⟩ := history_split split
  cases transition.answered with
  | @ended _ errand _ _ begun stepped =>
    rw [waiting_aside begun.isToken]
    rcases tokens_step errand (reached setup wheels first).shared with
      ⟨oldest, rest, held, _, told⟩ | ⟨_, untold⟩
    · rw [stepped] at told
      cases told
      have stocked := stocked_reached setup wheels first
      rw [Stocked, held] at stocked
      obtain ⟨entry, others, first, rfl, _⟩ := List.map_eq_cons_iff.mp stocked
      exact ⟨entry.1, others, first⟩
    · refine absurd ?_ (untold token)
      rw [stepped]
      rfl

/-- The token that the mission takes was framed behind an earlier moment, such as the end of a run,
exactly if as many tokens have been taken since then as waited at that moment; and at most two
wait. -/
theorem taken_fresh_iff {front since back : List Event} {token : Token}
    (split : history setup wheels schedule = front ++ since ++ .replied (.token token) :: back) :
    ∃ place, (history setup wheels schedule)[place]? = some (.framed token) ∧
      (waiting (front ++ since)).head? = some (place, token) ∧
      (front.length ≤ place ↔ (waiting front).length ≤ (taken since).length) ∧
      (waiting front).length ≤ Shared.tokenSlots := by
  obtain ⟨place, rest, oldest⟩ := oldest_taken split
  obtain ⟨new, queue, later⟩ := waiting_append front since
  have framed (history : List Event) (member : (place, token) ∈ waiting history) :
      place < history.length ∧ history[place]? = some (.framed token) :=
    ⟨(List.getElem?_eq_some_iff.mp (getElem?_of_mem_waiting member)).1,
      getElem?_of_mem_waiting member⟩
  have present := framed (front ++ since) (by rw [oldest]; exact List.mem_cons_self)
  refine ⟨place, ?_, by rw [oldest]; rfl, ?_, ?_⟩
  · rw [split, List.getElem?_append_left present.1]
    exact present.2
  · -- The oldest is one of those from before, as long as any of them is left.
    rw [oldest] at queue
    cases left : (waiting front).drop (taken since).length with
    | nil =>
      rw [left, List.nil_append] at queue
      have behind : front.length ≤ place :=
        later (place, token) (queue ▸ List.mem_cons_self)
      exact iff_of_true behind (List.drop_eq_nil_iff.mp left)
    | cons first others =>
      rw [left, List.cons_append] at queue
      have member : (place, token) ∈ waiting front := by
        rw [(List.cons.inj queue).1]
        exact List.mem_of_mem_drop (left ▸ List.mem_cons_self)
      have before := (framed front member).1
      refine iff_of_false (by omega) fun gone => ?_
      rw [List.drop_eq_nil_iff.mpr gone] at left
      cases left
  · exact length_waiting_le front

end Schedules

/-- A run as far as the wait for a code. -/
def toScan : List (Move Motion.SimulatedChassis) :=
  [.mission, .mission, .button .low, .mission, .button .high, .mission, .mission] ++ rollOut ++
    rollOut

/-- The code `123+123`. -/
def firstCode : Token := [49, 50, 51, 43, 49, 50, 51]

/-- The code `321+321`. -/
def lateCode : Token := [51, 50, 49, 43, 51, 50, 49]

/-- The second code is scanned while the first run is past its own. A watchdog ends that run, and
the next run waits for a code. -/
def staleCode : List (Move Motion.SimulatedChassis) :=
  toScan ++ scan (firstCode ++ [10]) ++ [.mission, .mission, .mission] ++ scan (lateCode ++ [10]) ++
    [.watchdog, .mission] ++ toScan ++ [.mission, .mission]

def staleHistory : List Event :=
  history { mission := { timeout := some 1000 } } (.new {}) staleCode

/-- One token waits when the first run ends and none has been taken since, so the one that the
second run takes is from before. -/
theorem taken_fresh_iff_staleCode :
    staleHistory = staleHistory.take 27 ++ (staleHistory.drop 27).take 17 ++
        .replied (.token lateCode) :: staleHistory.drop 45 ∧
      ∃ place, staleHistory[place]? = some (.framed lateCode) ∧ ¬27 ≤ place := by
  have split : staleHistory = staleHistory.take 27 ++ (staleHistory.drop 27).take 17 ++
      .replied (.token lateCode) :: staleHistory.drop 45 := by decide +kernel
  have waits : (waiting (staleHistory.take 27)).length = 1 := by decide +kernel
  have untaken : (taken ((staleHistory.drop 27).take 17)).length = 0 := by decide +kernel
  have length : (staleHistory.take 27).length = 27 := by decide +kernel
  obtain ⟨place, framed, _, fresh, _⟩ := taken_fresh_iff split
  rw [length, waits, untaken] at fresh
  exact ⟨split, place, framed, fun behind => by have := fresh.mp behind; omega⟩

/-- A code framed behind the scan of one run and before the end of that run, and never again, is the
plan of the next run. -/
theorem stale_code_adopted :
    staleHistory = staleHistory.take 18 ++
        [.replied (.token firstCode), .ended (.ok .goPlate1),
          .entered .goPlate1 ⟨⟨.red, .green, .blue⟩, ⟨.red, .green, .blue⟩⟩,
          .called (.drive (.drive .forward 300 699)), .framed lateCode, .replied .expired,
          .called .halt, .replied .done, .ended (.error ⟨.move⟩)] ++
        (staleHistory.drop 27).take 17 ++
        [.replied (.token lateCode), .ended (.ok .goPlate1),
          .entered .goPlate1 ⟨⟨.blue, .green, .red⟩, ⟨.blue, .green, .red⟩⟩] ∧
      staleHistory.count (.framed lateCode) = 1 := by
  constructor <;> decide +kernel

end Mecanum.Robot.Crew
