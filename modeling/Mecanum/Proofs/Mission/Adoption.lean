import Mecanum.Proofs.Mission.Runner

/-!
# Adopting a task code

A task code is read off the positions of its six digits. The state that scans drives to the code and
then takes tokens until the first that is one; that plan is adopted, and the state is over. A
watchdog ends it without a plan.
-/
namespace Mecanum.Mission

/-! ### Task codes -/

def Color.digit : Color → UInt8
  | red => 49
  | green => 50
  | blue => 51

/-- The digit of a colour reads as this colour alone. -/
theorem Color.ofDigit?_eq_some {byte : UInt8} {color : Color} :
    ofDigit? byte = some color ↔ byte = color.digit := by
  constructor
  · intro read
    unfold ofDigit? at read
    split at read
    next same => cases read; exact same
    next =>
      split at read
      next same => cases read; exact same
      next =>
        split at read
        next same => cases read; exact same
        next => cases read
  · rintro rfl
    cases color <;> rfl

namespace Plan

/-- The task code of a plan with a separator, and whatever follows it. -/
def code (plan : Plan) (separator : UInt8) (rest : List UInt8) : List UInt8 :=
  plan.first.toList.map Color.digit ++ separator :: plan.second.toList.map Color.digit ++ rest

theorem colorAt_eq_ok {token : List UInt8} {index : Nat} {color : Color} :
    colorAt token index = .ok color ↔ token.getD index 0 = color.digit := by
  rw [← Color.ofDigit?_eq_some, colorAt]
  cases Color.ofDigit? (token.getD index 0) <;> simp

theorem mapM_eq_ok {α β ε : Type} {f : α → Except ε β} {trio : Trio α} {result : Trio β} :
    trio.mapM f = .ok result ↔
      f trio.first = .ok result.first ∧ f trio.second = .ok result.second ∧
        f trio.third = .ok result.third := by
  obtain ⟨first, second, third⟩ := result
  unfold Trio.mapM
  cases f trio.first <;> cases f trio.second <;> cases f trio.third <;>
    simp [bind, Except.bind, pure, Except.pure]

theorem length_code (plan : Plan) (separator : UInt8) (rest : List UInt8) :
    (plan.code separator rest).length = codeLength + rest.length := by
  simp only [code, Trio.toList, codeLength, List.length_append, List.length_map, List.length_cons,
    List.length_nil]

/-- A token is read as a plan exactly if its first, second and third and its fifth, sixth and
seventh byte are the characters of the colours. -/
theorem parse_eq_ok_iff {token : List UInt8} {plan : Plan} :
    parse token = .ok plan ↔ ∃ separator rest, token = plan.code separator rest := by
  have whole (long : ¬token.length < codeLength) : parse token = .ok plan ↔
      (positions .first).mapM (colorAt token) = .ok plan.first ∧
        (positions .second).mapM (colorAt token) = .ok plan.second := by
    obtain ⟨first, second⟩ := plan
    rw [parse, if_neg long]
    cases (positions .first).mapM (colorAt token) <;>
      cases (positions .second).mapM (colorAt token) <;>
        simp [bind, Except.bind, pure, Except.pure]
  by_cases short : token.length < codeLength
  · refine iff_of_false (by simp [parse, short]) ?_
    rintro ⟨separator, rest, rfl⟩
    rw [length_code] at short
    omega
  · rw [whole short]
    simp only [mapM_eq_ok, colorAt_eq_ok, positions]
    constructor
    · have length : (token.take codeLength).length = codeLength :=
        List.length_take_of_le (Nat.le_of_not_lt short)
      rw [← List.take_append_drop codeLength token]
      generalize token.drop codeLength = rest
      match token.take codeLength, length with
      | [_, _, _, separator, _, _, _], _ =>
        rintro ⟨⟨rfl, rfl, rfl⟩, rfl, rfl, rfl⟩
        exact ⟨separator, rest, rfl⟩
    · rintro ⟨separator, rest, rfl⟩
      exact ⟨⟨rfl, rfl, rfl⟩, rfl, rfl, rfl⟩

theorem take_code (plan : Plan) (separator : UInt8) (rest : List UInt8) :
    (plan.code separator rest).take 15 = plan.code separator (rest.take 8) := rfl

end Plan

/-! ### The state that scans -/

namespace Runner

/-- Whether an action is one of those on the way to a code. -/
def Approaches (action : Action) : Prop :=
  action = .rezeroHeading ∨ ∃ command, action = .drive command

/-- The places of a runner from the entry into the state that scans, with the plan that it has then,
up to a task code. -/
inductive Seeks (before : Plan) (runner : Runner) : Prop where
  | underWay {action : Action} {way : Script} {event : Event} (state : runner.state = .scanCode)
      (plan : runner.plan = before)
      (busy : runner.activity = .busy (.action action) (way ++ [.awaitScan]) event)
      (moves : ∀ move ∈ action :: way, Approaches move)
  | waiting {event : Event} (state : runner.state = .scanCode) (plan : runner.plan = before)
      (busy : runner.activity = .busy (.action .awaitScan) [] event)
  | aborting {timeout : Timeout} {event : Event} (state : runner.state = .scanCode)
      (plan : runner.plan = before) (busy : runner.activity = .busy (.abort timeout) [] event)
  | aborted (state : runner.state = .idle) (plan : runner.plan = .default)
      (resting : runner.activity = .resting)

/-- The runner behind a token that is a task code. -/
def adopt (runner : Runner) (plan : Plan) : Runner :=
  { runner with plan := plan, state := .goPlate1, activity := .resting }

variable {before : Plan} {runner : Runner} {answer : Reply} {progress : Progress}

/-- On entering its second state the runner seeks a code. -/
theorem seeks_enter (entered : runner.enter = .ok progress) (state : runner.state = .scanCode) :
    progress.runner.Seeks runner.plan := by
  obtain ⟨script, written, produced⟩ := bind_eq_ok_iff.mp entered
  rw [state] at written
  cases written
  cases produced
  have moves : ∀ move ∈ [.rezeroHeading, Script.drive .slideLeft 100 132,
      Script.drive .forward 300 686], Approaches move := by
    simp [Approaches, Script.drive]
  exact @Seeks.underWay _ _ _ [_, _] .completed state rfl rfl moves

/-- What a reply leads to in the state that scans. -/
inductive Sought (before : Plan) (runner : Runner) (answer : Reply) (next : Runner) : Prop where
  | onward (seeks : next.Seeks before)
      (rejected : runner.call? = some .awaitToken → ∀ token, answer = .token token →
        ∃ error, Plan.parse token = .error error)
  | adopted {token : Scanner.Token} {plan : Plan} (taken : answer = .token token)
      (code : Plan.parse token = .ok plan) (ended : next = runner.adopt plan)

private theorem Seeks.proceed {runner : Runner} {way : Script} (state : runner.state = .scanCode)
    (plan : runner.plan = before) (moves : ∀ move ∈ way, Approaches move) (event : Event)
    (notes : List Journal.Note) :
    (runner.proceed event notes (way ++ [.awaitScan])).runner.Seeks before := by
  cases way with
  | nil => exact .waiting state plan rfl
  | cons move way => exact .underWay state plan rfl moves

private theorem Seeks.expire {runner : Runner} (seeks : runner.Seeks before)
    (state : runner.state = .scanCode) (plan : runner.plan = before) (job : Job) (event : Event) :
    (runner.expire job event).runner.Seeks before := by
  unfold Runner.expire
  split
  · exact .aborting state plan rfl
  · exact seeks

/-- A wait for a code goes on with every token that is none, and ends with the first that is one. -/
theorem Seeks.reply (seeks : runner.Seeks before) (replied : runner.reply answer = .ok progress) :
    Sought before runner answer progress.runner := by
  unfold Runner.reply at replied
  cases seeks with
  | @underWay action way event state plan busy moves =>
    have seeks : runner.Seeks before := .underWay state plan busy moves
    obtain ⟨first, behind⟩ := List.forall_mem_cons.mp moves
    -- On the way nobody asks for a token.
    have unasked : runner.call? ≠ some .awaitToken := by
      rw [Runner.call?, busy]
      rcases first with rfl | ⟨command, rfl⟩ <;> nofun
    rw [busy] at replied
    have onward : progress.runner.Seeks before := by
      cases answer with
      | expired => cases replied; exact seeks.expire state plan _ _
      | done =>
        rcases first with rfl | ⟨command, rfl⟩ <;> cases replied <;>
          exact Seeks.proceed state plan behind _ _
      | _ => rcases first with rfl | ⟨command, rfl⟩ <;> cases replied <;> exact seeks
    exact .onward onward fun asked => absurd asked unasked
  | @waiting event state plan busy =>
    have seeks : runner.Seeks before := .waiting state plan busy
    rw [busy] at replied
    cases answer with
    | expired => cases replied; exact .onward (seeks.expire state plan _ _) nofun
    | token token =>
      cases replied
      unfold takeToken
      split
      next found read =>
        refine .adopted rfl read ?_
        simp only [Runner.proceed, adopt, state]
        rfl
      next error unread =>
        refine .onward (.waiting state plan rfl) fun _ other same => ?_
        cases same
        exact ⟨error, unread⟩
    | _ => cases replied; exact .onward seeks nofun
  | aborting state plan busy =>
    have seeks : runner.Seeks before := .aborting state plan busy
    have unasked : runner.call? ≠ some .awaitToken := by
      rw [Runner.call?, busy]
      nofun
    rw [busy] at replied
    have onward : progress.runner.Seeks before := by
      cases answer with
      | expired => cases replied; exact seeks.expire state plan _ _
      | done => cases replied; exact .aborted rfl rfl rfl
      | _ => cases replied; exact seeks
    exact .onward onward fun asked => absurd asked unasked
  | aborted state plan resting =>
    have unasked : runner.call? ≠ some .awaitToken := by
      rw [Runner.call?, resting]
      nofun
    rw [resting] at replied
    cases replied
    exact .onward (.aborted state plan resting) fun asked => absurd asked unasked

/-- A runner that asks for a token on its search adopts the code that it is given. -/
theorem Seeks.reply_code {token : Scanner.Token} {plan : Plan} (seeks : runner.Seeks before)
    (asked : runner.call? = some .awaitToken) (code : Plan.parse token = .ok plan) :
    ∃ progress, runner.reply (.token token) = .ok progress ∧
      progress.runner = runner.adopt plan := by
  cases seeks with
  | @waiting event state _ busy =>
    refine ⟨runner.takeToken token [] event, by simp only [Runner.reply, busy], ?_⟩
    simp only [takeToken, code, Runner.proceed, adopt, state]
    rfl
  | underWay _ _ busy moves =>
    rw [Runner.call?, busy] at asked
    rcases (List.forall_mem_cons.mp moves).1 with rfl | ⟨command, rfl⟩ <;> cases asked
  | aborting _ _ busy =>
    rw [Runner.call?, busy] at asked
    cases asked
  | aborted _ _ resting =>
    rw [Runner.call?, resting] at asked
    cases asked

end Runner

end Mecanum.Mission
